import BlobCache.Proofs.Recency

/-!
# A larger budget never hits less

Two fresh tiers, one with a larger budget, get the same accesses: each asks for a key
and puts its payload if it is not there.  At any time what the small tier holds is the
end of what the large one holds, in the order of use (`Tier.replay_suffix`).  So
whatever hits in the small tier hits in the large one.

It is a matter of lists (`Lru.access_suffix`).  A key that both have goes to the end of
both, and if only the large list has it, it goes to the end there and comes to the end
of the small one.  If neither has it, both make room, and the large list has to give up
no more than what it holds in front of the small one and what that gives up
(`Lru.shed_suffix_of_le`).

Every access may take an id.  The small tier, which is emptied more often, starts with
the ids again earlier; so after as many accesses as there are ids it can hit while the
large one has no id left for it (`Tier.replay_of_last_id`).
-/

namespace BlobCache

/-! ## Accesses to a list -/

namespace Lru

variable {r R b B : Nat} {l pre small large : Lru} {key : String} {payload : String → Bytes}

/-- The list after an access to `key`, and whether it was there. -/
def access (budget : Nat) (payload : String → Bytes) (key : String) (l : Lru) : Bool × Lru :=
  match l.find? (·.1 = key) with
  | some pair => (true, l.filter (·.1 ≠ key) ++ [(key, pair.2)])
  | none => (false, l.put budget key (payload key))

/-- The payloads are those that belong to the keys. -/
def Genuine (payload : String → Bytes) (l : Lru) : Prop := ∀ pair ∈ l, pair.2 = payload pair.1

/-- What is left is the end of the list. -/
theorem shed_suffix (r : Nat) (l : Lru) : shed r l <:+ l := by
  induction l generalizing r with
  | nil => exact List.suffix_rfl
  | cons pair rest ih =>
      rw [shed]
      split
      · exact List.suffix_rfl
      · exact (ih _).trans (List.suffix_cons pair rest)

/-- Whoever has to shed less is left with more. -/
theorem shed_suffix_shed (h : R ≤ r) (l : Lru) : shed r l <:+ shed R l := by
  induction l generalizing r R with
  | nil => exact List.suffix_rfl
  | cons pair rest ih =>
      by_cases hR : R = 0
      · rw [hR, shed.eq_2 0, if_pos rfl]
        exact shed_suffix r _
      · rw [shed.eq_2 r, shed.eq_2 R, if_neg (by omega), if_neg hR]
        exact ih (by omega)

/-- What stands in front of a list goes first. -/
theorem shed_suffix_of_le (h : R ≤ held pre + r) : shed r l <:+ shed R (pre ++ l) := by
  induction pre generalizing R with
  | nil => exact shed_suffix_shed (by simpa using h) l
  | cons pair pre ih =>
      rw [List.cons_append, shed]
      split
      · exact ((shed_suffix r l).trans (List.suffix_append pre l)).trans (List.suffix_cons pair _)
      · rw [held_cons] at h
        exact ih (by omega)

@[simp] theorem held_append (a l : Lru) : held (a ++ l) = held a + held l := by
  simp [held]

theorem find?_eq_none_of_suffix (h : small <:+ large) (hnone : large.find? (·.1 = key) = none) :
    small.find? (·.1 = key) = none := by
  rw [List.find?_eq_none] at hnone ⊢
  exact fun pair hpair => hnone pair (h.subset hpair)

namespace Genuine

theorem find? (h : Genuine payload l) {pair : String × Bytes}
    (hfind : l.find? (·.1 = key) = some pair) : pair.2 = payload key := by
  have hkey : pair.1 = key := by simpa using List.find?_some hfind
  rw [h pair (List.mem_of_find?_eq_some hfind), hkey]

theorem access (h : Genuine payload l) (budget : Nat) (key : String) :
    Genuine payload (l.access budget payload key).2 := by
  intro pair hpair
  unfold Lru.access at hpair
  split at hpair
  · rename_i found hfind
    rcases List.mem_append.mp hpair with hold | hnew
    · exact h pair (List.mem_filter.mp hold).1
    · have hfound := h.find? hfind
      rw [List.mem_singleton.mp hnew]
      exact hfound
  · rcases List.mem_append.mp hpair with hold | hnew
    · exact h pair ((shed_suffix _ _).subset (List.mem_filter.mp hold).1)
    · rw [List.mem_singleton.mp hnew]

end Genuine

/-- Where the small list has to make room, the large one makes no more. -/
theorem put_suffix_put (hb : b ≤ B) (h : small <:+ large) (key : String) (content : Bytes) :
    small.put b key content <:+ large.put B key content := by
  obtain ⟨pre, rfl⟩ := h
  have hshed : shed (held small + content.length - b) small <:+
      shed (held (pre ++ small) + content.length - B) (pre ++ small) := by
    apply shed_suffix_of_le
    rw [held_append]
    omega
  exact (List.suffix_append_inj_of_length_eq rfl).mpr ⟨hshed.filter _, rfl⟩

/-- **One access** keeps the small list the end of the large one, and hits in the
large one if it hits in the small one. -/
theorem access_suffix (hb : b ≤ B) (h : small <:+ large) (hgenuine : Genuine payload large)
    (key : String) :
    (small.access b payload key).2 <:+ (large.access B payload key).2 ∧
      ((small.access b payload key).1 = true → (large.access B payload key).1 = true) := by
  have hkept : small.filter (·.1 ≠ key) <:+ large.filter (·.1 ≠ key) := h.filter _
  unfold access
  cases hlarge : large.find? (·.1 = key) with
  | none =>
      rw [find?_eq_none_of_suffix h hlarge]
      exact ⟨put_suffix_put hb h key _, by simp⟩
  | some pair =>
      simp only [hgenuine.find? hlarge]
      cases hsmall : small.find? (·.1 = key) with
      | none =>
          have hshed := ((shed_suffix (held small + (payload key).length - b) small).filter
            (·.1 ≠ key)).trans hkept
          exact ⟨(List.suffix_append_inj_of_length_eq rfl).mpr ⟨hshed, rfl⟩, by simp⟩
      | some pair' =>
          have hgenuine' : Genuine payload small := fun p hp => hgenuine p (h.subset hp)
          simp only [hgenuine'.find? hsmall]
          exact ⟨(List.suffix_append_inj_of_length_eq rfl).mpr ⟨hkept, rfl⟩, by simp⟩

end Lru

/-! ## Accesses to a tier -/

/-- A database with the one entry "a", of one byte and with the id `n`. -/
def Db.sole (n : Int) : Db :=
  { Db.single "a" 1 [0] 1 with entries := some ⟨[⟨n, "a", 1, 1⟩], by simp, by simp⟩ }

/-- A sole entry gets the next id when it moves. -/
theorem Db.EntryMoved.sole {e : EntryRow} {n top : Int} {db : Db}
    (h : EntryMoved e top (.sole n) db) : db = .sole (n + 1) := by
  obtain rfl : e = ⟨n, "a", 1, 1⟩ := List.mem_singleton.mp h.mem
  obtain ⟨last, hlast, rfl⟩ := h.next
  obtain rfl : last = n := List.mem_singleton.mp hlast
  obtain ⟨entries, hentries⟩ := Option.isSome_iff_exists.mp h.there
  have hrows : entries.rows = [⟨last + 1, "a", 1, 1⟩] := by
    rw [← entryRows_of_some hentries, h.rows]
    simp [Db.sole, entryRows]
  rw [h.frame, hentries, Db.sole, Db.sole]
  congr
  exact Table.ext hrows

namespace Tier

/-- Ask a tier for a key, and put its payload if it is not there: whether it was
there, and the database afterwards. -/
def access (tier : Tier) (directory path : String) (payload : String → Bytes) (key : String)
    (db : Db) : Bool × Db :=
  let asked := tier.tryGet (some directory) key db
  match asked.result with
  | .ok (some _) => (true, asked.db)
  | .ok none =>
    (false, (tier.tryPut key ⟨path, some ⟨(payload key).length, payload key⟩⟩ asked.db).db)
  | .error _ => (false, asked.db)

/-- What comes of one access after the other. -/
def replay (tier : Tier) (directory path : String) (payload : String → Bytes) (db : Db) :
    List String → List (Bool × Db)
  | [] => []
  | key :: rest =>
    let done := tier.access directory path payload key db
    done :: tier.replay directory path payload done.2 rest

variable {tier small large : Tier} {directory directory' path path' : String}
  {payload : String → Bytes} {db db' : Db} {n : Int}

/-- An access to a tier is one to the list of its contents, at the cost of one id. -/
theorem access_ready (directory path : String) (h : db.Ready n tier.budget) (hlt : n < largest)
    (hbudget : (tier.budget : Int) ≤ largest) (hopen : tier.isOpen = true) {key : String}
    (hsize : (payload key).length ≤ tier.budget) :
    (tier.access directory path payload key db).1 =
        (Lru.access tier.budget payload key db.contents).1 ∧
      (tier.access directory path payload key db).2.contents =
        (Lru.access tier.budget payload key db.contents).2 ∧
      (tier.access directory path payload key db).2.Ready (n + 1) tier.budget := by
  obtain ⟨hanswer, hcontents, hready⟩ := serve_ready h hlt hbudget hopen (.get directory key)
  unfold Lru.access
  cases hfind : db.contents.find? (·.1 = key) with
  | some pair =>
      simp only [Use.request, serve, Lru.serve, hfind] at hanswer hcontents hready
      simp only [access, Reply.found.inj hanswer]
      exact ⟨trivial, hcontents, hready⟩
  | none =>
      simp only [Use.request, serve, Lru.serve, hfind] at hanswer
      have hmissed := Reply.found.inj hanswer
      have hsame : (tier.tryGet (some directory) key db).db = db := by
        rcases tier.tryGet_cases (some directory) key db with
          ⟨_, _, _, -, -, -, -, hfound, -⟩ | ⟨-, hsame⟩
        · cases hfound.symm.trans hmissed
        · exact hsame
      obtain ⟨-, hput, hfilled⟩ := serve_ready h hlt hbudget hopen (.put key path (payload key))
      simp only [Use.request, serve, Lru.serve, if_neg (Nat.not_lt.mpr hsize)] at hput hfilled
      simp only [access, hmissed, hsame]
      exact ⟨trivial, hput, hfilled⟩

/-- What the small tier holds is the end of what the large one holds, and stays so. -/
theorem replay_suffix_of_ready (hle : small.budget ≤ large.budget)
    (hbudget : (large.budget : Int) ≤ largest) (hsmall : small.isOpen = true)
    (hlarge : large.isOpen = true) {keys : List String} (hs : db.Ready n small.budget)
    (hl : db'.Ready n large.budget) (hids : n + keys.length ≤ largest)
    (hsizes : ∀ key ∈ keys, (payload key).length ≤ small.budget)
    (hsuffix : db.contents <:+ db'.contents) (hgenuine : Lru.Genuine payload db'.contents) :
    List.Forall₂ (fun s l => s.2.contents <:+ l.2.contents ∧ (s.1 = true → l.1 = true))
      (small.replay directory path payload db keys)
      (large.replay directory' path' payload db' keys) := by
  induction keys generalizing db db' n with
  | nil => exact .nil
  | cons key rest ih =>
      rw [List.length_cons, Int.natCast_succ] at hids
      obtain ⟨hsize, hsizes⟩ := List.forall_mem_cons.mp hsizes
      obtain ⟨hhit, hcontents, hs'⟩ :=
        access_ready directory path hs (by omega) (by omega) hsmall hsize
      obtain ⟨hhit', hcontents', hl'⟩ :=
        access_ready directory' path' hl (by omega) hbudget hlarge (hsize.trans hle)
      obtain ⟨hends, hhits⟩ := Lru.access_suffix hle hsuffix hgenuine key
      rw [← hcontents, ← hcontents'] at hends
      rw [← hhit, ← hhit'] at hhits
      refine .cons ⟨hends, hhits⟩ (ih hs' hl' (by omega) hsizes hends ?_)
      rw [hcontents']
      exact hgenuine.access _ _

/-- Each access to a sole entry takes the next id. -/
theorem access_sole (directory path : String) (hopen : tier.isOpen = true) (hlt : n < largest) :
    tier.access directory path payload "a" (.sole n) = (true, .sole (n + 1)) := by
  have hids : ∀ x ∈ (Db.sole n).entryRows, x.id < largest := by
    intro x hx
    rw [List.mem_singleton.mp hx]
    exact hlt
  have hfind : (Db.sole n).entryRows.find? (·.key = "a") = some ⟨n, "a", 1, 1⟩ := rfl
  obtain ⟨hresult, top, hmoved⟩ :=
    tier.tryGet_hit directory hopen ⟨rfl, rfl, rfl, rfl, rfl⟩ hids hfind rfl
  simp only [access, hresult, hmoved.sole]

/-- After `k` accesses to a sole entry, `k` ids are gone. -/
theorem replay_sole (directory path : String) (hopen : tier.isOpen = true) (rest : List String)
    (k : Nat) (h : n + k ≤ largest) :
    (tier.replay directory path payload (.sole n) (List.replicate k "a" ++ rest)).drop k =
      tier.replay directory path payload (.sole (n + k)) rest := by
  induction k generalizing n with
  | zero => simp
  | succ k ih =>
      rw [List.replicate_succ, List.cons_append, replay,
        access_sole directory path hopen (by omega), List.drop_succ_cons, ih (by omega)]
      congr 2
      omega

/-- **A larger budget never hits less.**  Two tiers are opened on new stores, and get
the same accesses, as long as there are ids for all of them; every payload is within
the smaller budget.  After each access the small tier holds the end of what the large
one holds, in the order of use, and whatever hits in the small tier hits in the large
one. -/
theorem replay_suffix (location location' : Location) {budget budget' : Nat}
    (extractDir extractDir' : Option String) (directory directory' path path' : String)
    (payload : String → Bytes) (keys : List String) (hle : budget ≤ budget')
    (hbudget : (budget' : Int) ≤ largest) (hids : (keys.length : Int) ≤ largest)
    (hsizes : ∀ key ∈ keys, (payload key).length ≤ budget) :
    ∃ small large db db', openOn location budget extractDir .empty = ⟨.ok small, db, []⟩ ∧
      openOn location' budget' extractDir' .empty = ⟨.ok large, db', []⟩ ∧
      List.Forall₂ (fun s l => s.2.contents <:+ l.2.contents ∧ (s.1 = true → l.1 = true))
        (small.replay directory path payload db keys)
        (large.replay directory' path' payload db' keys) := by
  refine ⟨_, _, _, _, openOn_empty location budget extractDir,
    openOn_empty location' budget' extractDir', ?_⟩
  refine replay_suffix_of_ready hle hbudget rfl rfl (Db.ready_fresh budget)
    (Db.ready_fresh budget') (by omega) hsizes List.suffix_rfl ?_
  intro pair hpair
  cases hpair

/-- "a" is evicted by "b" from the small tier only, and hits in the large one only. -/
theorem replay_suffix_of_three :
    let payload (key : String) : Bytes := if key = "b" then [1, 2] else [3]
    let keys := ["a", "b", "a", "a"]
    ∃ small large db db', openOn .memory 2 none .empty = ⟨.ok small, db, []⟩ ∧
      openOn .memory 3 none .empty = ⟨.ok large, db', []⟩ ∧
      (small.replay "tmp" "f" payload db keys).map (·.1) = [false, false, false, true] ∧
      (large.replay "tmp" "f" payload db' keys).map (·.1) = [false, false, true, true] ∧
      List.Forall₂ (fun s l => s.2.contents <:+ l.2.contents ∧ (s.1 = true → l.1 = true))
        (small.replay "tmp" "f" payload db keys) (large.replay "tmp" "f" payload db' keys) := by
  intro payload keys
  have hsizes : ∀ key ∈ keys, (payload key).length ≤ 2 := by decide
  obtain ⟨small, large, db, db', hsmall, hlarge, hall⟩ :=
    replay_suffix .memory .memory none none "tmp" "tmp" "f" "f" payload keys
      (show 2 ≤ 3 by decide) (by decide) (by decide) hsizes
  refine ⟨small, large, db, db', hsmall, hlarge, ?_, ?_, hall⟩
  · cases hsmall
    decide +kernel
  · cases hlarge
    decide +kernel

/-- With one access more, "b" gets the largest id in the large tier and is not hit
there again, but in the small one, where it gets the first. -/
theorem replay_of_last_id :
    ¬ ∀ (budget budget' : Nat) (payload : String → Bytes) (keys : List String),
      budget ≤ budget' → (budget' : Int) ≤ largest →
      (∀ key ∈ keys, (payload key).length ≤ budget) →
      ∃ small large db db', openOn .memory budget none .empty = ⟨.ok small, db, []⟩ ∧
        openOn .memory budget' none .empty = ⟨.ok large, db', []⟩ ∧
        List.Forall₂ (fun s l => s.2.contents <:+ l.2.contents ∧ (s.1 = true → l.1 = true))
          (small.replay "tmp" "f" payload db keys) (large.replay "tmp" "f" payload db' keys) := by
  intro hclaim
  obtain ⟨k, hk⟩ : ∃ k : Nat, 1 + (k : Int) = largest - 1 := ⟨9223372036854775805, by decide⟩
  let payload : String → Bytes := fun _ => [0]
  obtain ⟨small, large, db, db', hsmall, hlarge, hall⟩ := hclaim 1 2 payload
    ("a" :: (List.replicate k "a" ++ ["b", "b"])) (by decide) (by decide) (by simp [payload])
  cases (openOn_empty .memory 1 none).symm.trans hsmall
  cases (openOn_empty .memory 2 none).symm.trans hlarge
  have hfirst (budget : Nat) (hbudget : budget = 1 ∨ budget = 2) :
      (access { location := .memory, budget } "tmp" "f" payload "a" .fresh).2 = .sole 1 := by
    rcases hbudget with rfl | rfl <;> decide +kernel
  have hlast := List.forall₂_drop (k + 1) hall
  simp only [replay, List.drop_succ_cons] at hlast
  rw [hfirst 1 (Or.inl rfl), hfirst 2 (Or.inr rfl), replay_sole "tmp" "f" rfl _ k (by omega),
    replay_sole "tmp" "f" rfl _ k (by omega), hk] at hlast
  simp only [replay, List.forall₂_cons] at hlast
  have hhit := hlast.2.1.2 (by decide +kernel)
  revert hhit
  decide +kernel

end Tier

end BlobCache
