import BlobCache.Proofs.Places

/-!
# Which payload a cache of levels hands out

A level hands out the payload of the last put that it stored: `Coherent` says so
of every payload that is there, and no operation breaks it, whatever is evicted
in between.  So the answer of a cache with two tiers is the payload of the last
put that the answering tier stored (`Cache.get_of_created`).

That need not be the last put that was stored at all.  A payload that is larger
than one tier may be is ignored there and stored by the other, and the first
tier goes on handing out what it has (`Cache.get_superseded`).
-/

namespace BlobCache

variable {σ : Type} {valid : σ → Prop}

/-- What a user asks of a cache.  The files that are put can be read. -/
inductive Call where
  | put (key path : String) (content : Bytes)
  | get (key : String)
deriving DecidableEq, Repr

/-- The file of a call as the cache meets it. -/
def Call.source (path : String) (content : Bytes) : Source :=
  ⟨path, some ⟨content.length, content⟩⟩

/-- The state after some calls. -/
def FileCache.after (cache : FileCache σ) (s : σ) (calls : List Call) : σ :=
  calls.foldl
    (fun s call => match call with
      | .put key path content => (cache.put key (Call.source path content) s).1
      | .get key => (cache.get key s).2.1)
    s

/-- A payload that was put, and the levels that stored it. -/
structure Deposit where
  key : String
  content : Bytes
  levels : List Nat
deriving DecidableEq, Repr

/-- The puts among some calls, oldest first, each with the levels that stored its
payload at that time. -/
def deposits (places : List (TierPlace σ)) (s : σ) : List Call → List Deposit
  | [] => []
  | call :: rest =>
    let later := deposits places
      ((FileCache.levels (places.map FileCache.ofTier)).after s [call]) rest
    match call with
    | .put key path content =>
      ⟨key, content, storers key (Call.source path content) 0 places s⟩ :: later
    | .get _ => later

/-- The last put of a key that a level stored. -/
def lastBy (level : Nat) (key : String) (made : List Deposit) : Option Deposit :=
  (made.filter fun d => d.key = key ∧ level ∈ d.levels).getLast?

/-- The last put of a key that some level stored. -/
def lastStored (key : String) (made : List Deposit) : Option Deposit :=
  (made.filter fun d => d.key = key ∧ d.levels ≠ []).getLast?

theorem lastBy_concat (level : Nat) (key : String) (made : List Deposit) (d : Deposit) :
    lastBy level key (made ++ [d]) =
      if d.key = key ∧ level ∈ d.levels then some d else lastBy level key made := by
  unfold lastBy
  rw [List.filter_append]
  split
  · rw [List.filter_cons_of_pos (by simpa), List.filter_nil, List.getLast?_concat]
  · rename_i hother
    rw [List.filter_cons_of_neg (by simpa using hother), List.filter_nil, List.append_nil]

/-- If a level stored the last put that was stored, it is the last of that level. -/
theorem lastBy_of_lastStored {level : Nat} {key : String} {made : List Deposit} {d : Deposit}
    (h : lastStored key made = some d) (hlevel : level ∈ d.levels) :
    lastBy level key made = some d := by
  obtain ⟨front, hfront⟩ := List.getLast?_eq_some_iff.mp h
  have hkey : d.key = key := by
    have := (List.mem_filter.mp (List.mem_of_getLast? h)).2
    simp only [decide_eq_true_eq] at this
    exact this.1
  have hboth : (made.filter fun d => decide (d.key = key ∧ d.levels ≠ [])).filter
      (fun d => decide (d.key = key ∧ level ∈ d.levels)) =
      made.filter fun d => decide (d.key = key ∧ level ∈ d.levels) := by
    rw [List.filter_filter]
    apply List.filter_congr
    intro x _
    by_cases hx : x.key = key ∧ level ∈ x.levels
    · have hne : x.levels ≠ [] := List.ne_nil_of_mem hx.2
      simp [hx, hne]
    · simp [hx]
  rw [lastBy, ← hboth, hfront, List.filter_append,
    List.filter_cons_of_pos (by simp [hkey, hlevel]), List.filter_nil, List.getLast?_concat]

/-- Where a put of a key was stored by a level, a last put was stored. -/
theorem exists_lastStored {level : Nat} {key : String} {made : List Deposit} {d : Deposit}
    (h : lastBy level key made = some d) : ∃ latest, lastStored key made = some latest := by
  obtain ⟨hmem, hd⟩ := List.mem_filter.mp (List.mem_of_getLast? h)
  simp only [decide_eq_true_eq] at hd
  cases hlast : lastStored key made with
  | some latest => exact ⟨latest, rfl⟩
  | none =>
      have hnone := List.getLast?_eq_none_iff.mp hlast
      refine absurd (List.mem_filter.mpr ⟨hmem, ?_⟩) (hnone ▸ List.not_mem_nil)
      simpa using ⟨hd.1, List.ne_nil_of_mem hd.2⟩

/-- Every payload of a level is that of the last put of its key that the level
stored. -/
def Coherent (places : List (TierPlace σ)) (s : σ) (made : List Deposit) : Prop :=
  ∀ level p, places[level]? = some p → (p.db s).Intact none ∧
    ∀ pair ∈ (p.db s).contents, ∃ d, lastBy level pair.1 made = some d ∧ d.content = pair.2

namespace Coherent

variable {places : List (TierPlace σ)} {s : σ} {made : List Deposit}

/-- A put keeps levels coherent: a level that stores the payload has it under its
key, and every level may have lost others. -/
theorem put (h : Coherent places s made) (hplaces : Separate valid places) (hs : valid s)
    (key path : String) (content : Bytes) :
    Coherent places
      ((FileCache.levels (places.map FileCache.ofTier)).put key (Call.source path content) s).1
      (made ++ [⟨key, content, storers key (Call.source path content) 0 places s⟩]) := by
  intro level p hp
  obtain ⟨hintact, hold⟩ := h level p hp
  obtain ⟨-, hdb, hstores⟩ :=
    (FileCache.put_levels key (Call.source path content) hplaces hs 0).2.2
      level p hp
  rw [Nat.zero_add] at hstores
  rw [hdb]
  rcases (p.tier s).tryPut_cases key (Call.source path content) (p.db s) with
    ⟨file, hfile, -, -, hresult, ⟨w⟩⟩ | ⟨hresult, hsame⟩
  · obtain rfl := Option.some.inj hfile
    refine ⟨w.intact hintact, ?_⟩
    intro pair hpair
    rw [lastBy_concat]
    rcases w.mem_contents hintact hpair with rfl | ⟨hpair, hne⟩
    · refine ⟨_, if_pos ⟨rfl, hstores.mpr hresult⟩, ?_⟩
      rw [List.take_length]
    · rw [if_neg fun heq => hne heq.1.symm]
      exact hold pair hpair
  · rw [hsame]
    refine ⟨hintact, ?_⟩
    intro pair hpair
    rw [lastBy_concat, if_neg fun heq => hresult (hstores.mp heq.2)]
    exact hold pair hpair

/-- Levels that start with fresh databases are coherent. -/
theorem of_fresh (h : ∀ p ∈ places, p.db s = .fresh) : Coherent places s [] := by
  intro level p hp
  rw [h p (List.mem_of_getElem? hp)]
  exact ⟨(Db.ready_fresh 0).intact, fun pair hpair => absurd hpair List.not_mem_nil⟩

/-- A get keeps levels coherent. -/
theorem get (h : Coherent places s made) (hplaces : Separate valid places) (hs : valid s)
    (key : String) :
    Coherent places ((FileCache.levels (places.map FileCache.ofTier)).get key s).2.1 made := by
  intro level p hp
  obtain ⟨hintact, hold⟩ := h level p hp
  obtain ⟨-, htouched⟩ :=
    (FileCache.firstHit_spec key hplaces hs 0).2.2.1 p (List.mem_of_getElem? hp)
  exact ⟨htouched.intact hintact, fun pair hpair => hold pair (htouched.mem_contents hpair)⟩

/-- What a get finds is the payload of the last put that the answering level
stored, and of the last that any stored if that level is among them. -/
theorem hit (h : Coherent places s made) (hplaces : Separate valid places) (hs : valid s)
    {key : String} {found : Extracted}
    (hfound : ((FileCache.levels (places.map FileCache.ofTier)).get key s).1 = some found) :
    ∃ level p own latest, places[level]? = some p ∧
      ((FileCache.levels (places.map FileCache.ofTier)).get key s).2.2.getLast? =
        some (.served key level) ∧
      lastBy level key made = some own ∧ found.content = own.content ∧
      lastStored key made = some latest ∧
      (level ∈ latest.levels → found.content = latest.content) := by
  obtain ⟨level, p, hp, hlog, hmem⟩ :=
    (FileCache.firstHit_spec key hplaces hs 0).2.2.2 found hfound
  rw [Nat.zero_add] at hlog
  obtain ⟨own, hown, hcontent⟩ := (h level p hp).2 _ hmem
  obtain ⟨latest, hlatest⟩ := exists_lastStored hown
  refine ⟨level, p, own, latest, hp, hlog, hown, hcontent.symm, hlatest, ?_⟩
  intro hlevel
  obtain rfl : own = latest :=
    Option.some.inj (hown.symm.trans (lastBy_of_lastStored hlatest hlevel))
  exact hcontent.symm

end Coherent

/-- With `n` ids used up, every level is open and ready, has its budget, and has
stored all payloads that fit. -/
def Serving (budgets : List Nat) (places : List (TierPlace σ)) (n : Int) (s : σ)
    (made : List Deposit) : Prop :=
  ∀ level p, places[level]? = some p → (p.tier s).isOpen = true ∧
    budgets[level]? = some (p.tier s).budget ∧ (p.db s).Ready n (p.tier s).budget ∧
    ∀ d ∈ made, level ∉ d.levels → (p.tier s).budget < d.content.length

namespace Serving

variable {budgets : List Nat} {places : List (TierPlace σ)} {n : Int} {s : σ}
  {made : List Deposit}

theorem of_fresh (h : ∀ (level : Nat) (p : TierPlace σ), places[level]? = some p →
    (p.tier s).isOpen = true ∧ budgets[level]? = some (p.tier s).budget ∧ p.db s = .fresh) :
    Serving budgets places 0 s [] := by
  intro level p hp
  obtain ⟨hopen, hbudget, hfresh⟩ := h level p hp
  rw [hfresh]
  exact ⟨hopen, hbudget, Db.ready_fresh _, fun d hd => absurd hd List.not_mem_nil⟩

/-- A level that is ready stores every payload that fits. -/
theorem put (h : Serving budgets places n s made) (hplaces : Separate valid places)
    (hs : valid s) (hbudgets : ∀ b ∈ budgets, (b : Int) ≤ largest) (hlt : n < largest)
    (key path : String) (content : Bytes) :
    Serving budgets places (n + 1)
      ((FileCache.levels (places.map FileCache.ofTier)).put key (Call.source path content) s).1
      (made ++ [⟨key, content, storers key (Call.source path content) 0 places s⟩]) := by
  intro level p hp
  obtain ⟨hopen, hbudget, hready, hold⟩ := h level p hp
  obtain ⟨htier, hdb, hstores⟩ :=
    (FileCache.put_levels key (Call.source path content) hplaces hs 0).2.2
      level p hp
  rw [Nat.zero_add] at hstores
  have hfits := hbudgets _ (List.mem_of_getElem? hbudget)
  rw [htier, hdb]
  refine ⟨hopen, hbudget, ?_, ?_⟩
  · rcases (p.tier s).tryPut_cases key (Call.source path content) (p.db s) with
      ⟨file, hfile, hsize, -, -, ⟨w⟩⟩ | ⟨-, hsame⟩
    · exact hready.written hlt hfits hsize w
    · rw [hsame]
      exact hready.mono
  · intro d hd hlevel
    rcases List.mem_append.mp hd with hd | hd
    · exact hold d hd hlevel
    · obtain rfl := List.mem_singleton.mp hd
      by_contra hsize
      exact hlevel (hstores.mpr
        (Tier.tryPut_ready key path hready hfits hopen (Nat.not_lt.mp hsize)))

theorem get (h : Serving budgets places n s made) (hplaces : Separate valid places)
    (hs : valid s) (key : String) :
    Serving budgets places (n + 1)
      ((FileCache.levels (places.map FileCache.ofTier)).get key s).2.1 made := by
  intro level p hp
  obtain ⟨hopen, hbudget, hready, hold⟩ := h level p hp
  obtain ⟨htier, htouched⟩ :=
    (FileCache.firstHit_spec key hplaces hs 0).2.2.1 p (List.mem_of_getElem? hp)
  have hgot : p.tier ((FileCache.levels (places.map FileCache.ofTier)).get key s).2.1 =
      p.tier s := htier
  rw [hgot]
  refine ⟨hopen, hbudget, ?_, hold⟩
  rcases htouched with hsame | ⟨e, top, hmoved⟩
  · have hgotDb : p.db ((FileCache.levels (places.map FileCache.ofTier)).get key s).2.1 =
        p.db s := hsame
    rw [hgotDb]
    exact hready.mono
  · exact hready.moved hmoved

end Serving

section After

variable {places : List (TierPlace σ)} {s : σ} {made : List Deposit}

/-- What single calls preserve holds after any number of them. -/
theorem after_of_call (good : Nat → σ → List Deposit → Prop) (hplaces : Separate valid places)
    (hput : ∀ {n s made} key path content, valid s → good n s made →
      good (n + 1)
        ((FileCache.levels (places.map FileCache.ofTier)).put key (Call.source path content) s).1
        (made ++ [⟨key, content, storers key (Call.source path content) 0 places s⟩]))
    (hget : ∀ {n s made} key, valid s → good n s made →
      good (n + 1) ((FileCache.levels (places.map FileCache.ofTier)).get key s).2.1 made)
    (calls : List Call) {n : Nat} (hs : valid s) (hgood : good n s made) :
    valid ((FileCache.levels (places.map FileCache.ofTier)).after s calls) ∧
      good (n + calls.length) ((FileCache.levels (places.map FileCache.ofTier)).after s calls)
        (made ++ deposits places s calls) := by
  induction calls generalizing n s made with
  | nil =>
      rw [deposits, List.append_nil]
      exact ⟨hs, hgood⟩
  | cons call rest ih =>
      rw [List.length_cons, Nat.add_comm rest.length, ← Nat.add_assoc]
      cases call with
      | put key path content =>
          have hvalid := (FileCache.put_levels key (Call.source path content) hplaces hs 0).1
          have hrest := ih hvalid (hput key path content hs hgood)
          rwa [List.append_assoc] at hrest
      | get key =>
          have hvalid := (FileCache.firstHit_spec key hplaces hs 0).1
          exact ih hvalid (hget key hs hgood)

/-- **Levels stay coherent**, whatever is put and asked for. -/
theorem Coherent.after (h : Coherent places s made) (hplaces : Separate valid places)
    (hs : valid s) (calls : List Call) :
    valid ((FileCache.levels (places.map FileCache.ofTier)).after s calls) ∧
      Coherent places ((FileCache.levels (places.map FileCache.ofTier)).after s calls)
        (made ++ deposits places s calls) :=
  after_of_call (fun _ => Coherent places) hplaces
    (fun key path content hs h => h.put hplaces hs key path content)
    (fun key hs h => h.get hplaces hs key) calls (n := 0) hs h

/-- **Levels go on serving** while there are ids for every call. -/
theorem Serving.after {budgets : List Nat} (h : Serving budgets places 0 s made)
    (hplaces : Separate valid places) (hs : valid s)
    (hbudgets : ∀ b ∈ budgets, (b : Int) ≤ largest) (calls : List Call)
    (hids : (calls.length : Int) < largest) :
    Serving budgets places calls.length
      ((FileCache.levels (places.map FileCache.ofTier)).after s calls)
      (made ++ deposits places s calls) := by
  -- A call is served only while it is one of these.
  have hdone := (after_of_call
    (fun n s made => n ≤ calls.length → Serving budgets places n s made) hplaces
    (fun {n _ _} key path content hs hserving hn => by
      have hlt : (n : Int) < largest := by omega
      rw [Int.natCast_succ]
      exact (hserving (Nat.le_of_succ_le hn)).put hplaces hs hbudgets hlt key path content)
    (fun {n _ _} key hs hserving hn => by
      rw [Int.natCast_succ]
      exact (hserving (Nat.le_of_succ_le hn)).get hplaces hs key)
    calls (n := 0) hs fun _ => h).2
  rw [Nat.zero_add] at hdone
  exact hdone (Nat.le_refl _)

end After

namespace Cache

variable {m : Machine} {location : String} {memory disk : Nat}

/-- The places of the tiers of a cache. -/
def places (cache : Cache) : List (TierPlace Machine) := cache.tiers.map Machine.tierPlace

theorem files_eq (cache : Cache) :
    cache.files = .levels (cache.places.map FileCache.ofTier) := by
  rw [files, places, List.map_map]
  rfl

/-- **Payloads of a new cache with two tiers.**  Whatever was put and asked for,
what a get finds is the payload of the last put that the answering tier stored.
So it is that of the last put that any tier stored, unless the answering tier did
not store that one, and a tier only leaves out what is larger than its budget. -/
theorem get_of_created (hnew : m.IsNew (.file location))
    (htwo : (create m location memory disk).1.tiers.length = 2)
    (calls : List Call) (key : String) (found : Extracted) :
    let cache := (create m location memory disk).1
    let made := deposits cache.places (create m location memory disk).2.1 calls
    let answer := cache.files.get key
      (cache.files.after (create m location memory disk).2.1 calls)
    answer.1 = some found →
      ∃ level own latest, answer.2.2.getLast? = some (.served key level) ∧
        lastBy level key made = some own ∧ found.content = own.content ∧
        lastStored key made = some latest ∧
        (level ∈ latest.levels → found.content = latest.content) ∧
        ((memory : Int) ≤ largest → (disk : Int) ≤ largest →
          (calls.length : Int) < largest → level ∉ latest.levels →
          ∃ budget, [memory, disk][level]? = some budget ∧ budget < latest.content.length) := by
  obtain ⟨a, b, hpair, hne, hhouses, htierA, htierB, hdbA, hdbB⟩ := create_spec hnew htwo
  simp only [files_eq]
  generalize (create m location memory disk).1 = cache at hpair ⊢
  generalize (create m location memory disk).2.1 = start at hhouses htierA htierB hdbA hdbB ⊢
  have hplaces : cache.places = [Machine.tierPlace a, Machine.tierPlace b] := by
    rw [places, hpair]
    rfl
  have hseparate : Separate (Machine.Houses [a, b]) cache.places := by
    rw [places, hpair]
    exact Machine.separate_tierPlaces (by simp [hne])
  have hcoherent : Coherent cache.places start [] := by
    apply Coherent.of_fresh
    intro p hp
    rw [hplaces] at hp
    rcases List.mem_pair.mp hp with rfl | rfl
    · exact hdbA
    · exact hdbB
  have hserving : Serving [memory, disk] cache.places 0 start [] := by
    apply Serving.of_fresh
    intro level p hp
    rw [hplaces] at hp
    match level with
    | 0 =>
        obtain rfl := Option.some.inj hp
        exact ⟨by rw [htierA], by rw [htierA]; rfl, hdbA⟩
    | 1 =>
        obtain rfl := Option.some.inj hp
        exact ⟨by rw [htierB], by rw [htierB]; rfl, hdbB⟩
    | _ + 2 => cases hp
  intro hfound
  obtain ⟨hvalid, hafter⟩ := hcoherent.after hseparate hhouses calls
  rw [List.nil_append] at hafter
  obtain ⟨level, p, own, latest, hp, hlog, hown, hcontent, hlatest, hsame⟩ :=
    hafter.hit hseparate hvalid hfound
  refine ⟨level, own, latest, hlog, hown, hcontent, hlatest, hsame, ?_⟩
  intro hmemory hdisk hids hlevel
  obtain ⟨-, hbudget, -, hstored⟩ := hserving.after hseparate hhouses
    (by simp [hmemory, hdisk]) calls hids level p hp
  exact ⟨_, hbudget, hstored latest (List.mem_filter.mp (List.mem_of_getLast? hlatest)).1 hlevel⟩

/-- A payload that both tiers of a new cache stored is found. -/
theorem get_of_created_stored :
    let m : Machine :=
      { disk := { nodes := [(["tmp"], .directory)] }, workDirectory := [], tempDirectory := "tmp" }
    let calls : List Call := [.put "a" "f" [1, 2], .put "a" "g" [3], .put "b" "h" [4, 5, 6]]
    let cache := (create m "x" 4 9).1
    let start := (create m "x" 4 9).2.1
    let made := deposits cache.places start calls
    m.IsNew (.file "x") ∧ cache.tiers.length = 2 ∧
      (cache.files.get "a" (cache.files.after start calls)).1 = some ⟨"tmp", [3]⟩ ∧
      ∃ level own latest, lastBy level "a" made = some own ∧ own.content = [3] ∧
        lastStored "a" made = some latest ∧ (level ∈ latest.levels → latest.content = [3]) := by
  intro m calls cache start made
  have hnew : m.IsNew (.file "x") := Machine.isNew_file (by cbv)
  have htwo : cache.tiers.length = 2 := by
    subst cache m
    cbv
  have hfound : (cache.files.get "a" (cache.files.after start calls)).1 = some ⟨"tmp", [3]⟩ := by
    subst cache start m calls
    cbv
  obtain ⟨level, own, latest, -, hown, hcontent, hlatest, hsame, -⟩ :=
    get_of_created hnew htwo calls "a" ⟨"tmp", [3]⟩ hfound
  exact ⟨hnew, htwo, hfound, level, own, latest, hown, hcontent.symm, hlatest,
    fun h => (hsame h).symm⟩

/-- A payload that only the disk tier stored does not take the place of the one
in memory. -/
theorem get_superseded :
    let m : Machine :=
      { disk := { nodes := [(["tmp"], .directory)] }, workDirectory := [], tempDirectory := "tmp" }
    let calls : List Call := [.put "a" "f" [1], .put "a" "g" [2, 3, 4]]
    let cache := (create m "x" 2 9).1
    let start := (create m "x" 2 9).2.1
    m.IsNew (.file "x") ∧ cache.tiers.length = 2 ∧
      lastStored "a" (deposits cache.places start calls) = some ⟨"a", [2, 3, 4], [1]⟩ ∧
      (cache.files.get "a" (cache.files.after start calls)).1 = some ⟨"tmp", [1]⟩ := by
  refine ⟨Machine.isNew_file (by cbv), ?_, ?_, ?_⟩ <;> cbv

end Cache

end BlobCache
