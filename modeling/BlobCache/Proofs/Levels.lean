import BlobCache.Cache.Multilevel
import BlobCache.Proofs.Contents

/-!
# Levels that keep out of each other's way

The levels of a cache live in one state, each at its own place.  If the places
are separate (`Separate`), a put reaches every level as if it were alone
(`put_levels`), and a get changes no payload of any level and is answered by one
of them (`firstHit_spec`).

Nobody tells the user of such a cache which levels stored a payload; `storers`
looks at the tiers at the moment they are asked.
-/

namespace BlobCache

variable {σ : Type} {valid : σ → Prop} {s : σ} {key : String} {source : Source}

namespace TierPlace

/-- In a valid state, what is put back at a place is found there. -/
structure Sound (valid : σ → Prop) (p : TierPlace σ) : Prop where
  valid_update : ∀ {s} t d, valid s → valid (p.update t d s)
  tier_update : ∀ {s} t d, valid s → p.tier (p.update t d s) = t
  db_update : ∀ {s} t d, valid s → p.db (p.update t d s) = d

/-- What is put back at `p` is not noticed at `q`. -/
structure Ignores (valid : σ → Prop) (q p : TierPlace σ) : Prop where
  tier : ∀ {s} t d, valid s → q.tier (p.update t d s) = q.tier s
  db : ∀ {s} t d, valid s → q.db (p.update t d s) = q.db s

/-- Whether the tier at a place would store a payload. -/
def stores (p : TierPlace σ) (key : String) (source : Source) (s : σ) : Bool :=
  match ((p.tier s).tryPut key source (p.db s)).result with
  | .ok .cached => true
  | _ => false

theorem stores_iff {p : TierPlace σ} : p.stores key source s = true ↔
    ((p.tier s).tryPut key source (p.db s)).result = .ok .cached := by
  unfold stores
  split
  · simp [*]
  · rename_i hother
    simp only [Bool.false_eq_true, false_iff]
    exact hother

end TierPlace

/-- Places of which none notices what is put back at another. -/
structure Separate (valid : σ → Prop) (places : List (TierPlace σ)) : Prop where
  sound : ∀ p ∈ places, p.Sound valid
  apart : places.Pairwise fun p q => q.Ignores valid p ∧ p.Ignores valid q

/-- The levels that store a payload when it is put, the first of them having the
number `level`. -/
def storers (key : String) (source : Source) : Nat → List (TierPlace σ) → σ → List Nat
  | _, [], _ => []
  | level, p :: rest, s =>
    let later := storers key source (level + 1) rest ((FileCache.ofTier p).put key source s).1
    if p.stores key source s then level :: later else later

/-- At most one entry was moved. -/
def Db.Touched (db db' : Db) : Prop := db' = db ∨ ∃ e top, EntryMoved e top db db'

theorem Db.Touched.intact {db db' : Db} (h : db.Touched db') (hi : db.Intact none) :
    db'.Intact none := by
  rcases h with rfl | ⟨e, top, hmoved⟩
  · exact hi
  · exact hi.entryMoved hmoved

/-- Moving an entry makes no payload. -/
theorem Db.Touched.mem_contents {db db' : Db} (h : db.Touched db') {pair : String × Bytes}
    (hpair : pair ∈ db'.contents) : pair ∈ db.contents := by
  rcases h with rfl | ⟨e, top, hmoved⟩
  · exact hpair
  · rw [hmoved.contents_eq] at hpair
    rcases List.mem_append.mp hpair with hpair | hpair
    · exact (List.mem_filter.mp hpair).1
    · rw [List.mem_singleton.mp hpair]
      exact List.mem_map_of_mem hmoved.mem

namespace FileCache

/-! ## Putting -/

/-- The reports of the steps do not matter to the state. -/
theorem inTurn_fst (steps : List (σ → σ × List Event)) (s : σ) :
    (inTurn steps s).1 = steps.foldl (fun s step => (step s).1) s :=
  (List.foldl_hom Prod.fst fun _ _ => rfl).symm

/-- A put at one place. -/
theorem ofTier_put (key : String) (source : Source) {p : TierPlace σ} (hp : p.Sound valid)
    (hs : valid s) :
    valid ((ofTier p).put key source s).1 ∧
      p.tier ((ofTier p).put key source s).1 = p.tier s ∧
      p.db ((ofTier p).put key source s).1 = ((p.tier s).tryPut key source (p.db s)).db :=
  ⟨hp.valid_update _ _ hs, hp.tier_update _ _ hs, hp.db_update _ _ hs⟩

theorem levels_put_cons (p : TierPlace σ) (rest : List (TierPlace σ)) :
    ((levels ((p :: rest).map ofTier)).put key source s).1 =
      ((levels (rest.map ofTier)).put key source ((ofTier p).put key source s).1).1 := by
  simp only [levels, inTurn_fst, List.map_cons, List.foldl_cons]

/-- A level number below all of them is not among those that store. -/
theorem le_of_mem_storers {places : List (TierPlace σ)} {level i : Nat}
    (h : i ∈ storers key source level places s) : level ≤ i := by
  induction places generalizing level s with
  | nil => cases h
  | cons p rest ih =>
      simp only [storers] at h
      split at h
      · rcases List.mem_cons.mp h with rfl | h
        · exact Nat.le_refl _
        · exact Nat.le_of_succ_le (ih h)
      · exact Nat.le_of_succ_le (ih h)

/-- **A put reaches every level as if it were alone.** -/
theorem put_levels (key : String) (source : Source) {places : List (TierPlace σ)}
    (h : Separate valid places) (hs : valid s) (level : Nat) :
    valid ((levels (places.map ofTier)).put key source s).1 ∧
      (∀ q : TierPlace σ, (∀ p ∈ places, q.Ignores valid p) →
        q.tier ((levels (places.map ofTier)).put key source s).1 = q.tier s ∧
        q.db ((levels (places.map ofTier)).put key source s).1 = q.db s) ∧
      ∀ i p, places[i]? = some p →
        p.tier ((levels (places.map ofTier)).put key source s).1 = p.tier s ∧
        p.db ((levels (places.map ofTier)).put key source s).1 =
          ((p.tier s).tryPut key source (p.db s)).db ∧
        (level + i ∈ storers key source level places s ↔
          ((p.tier s).tryPut key source (p.db s)).result = .ok .cached) := by
  induction places generalizing level s with
  | nil => exact ⟨hs, fun _ _ => ⟨rfl, rfl⟩, fun i p hi => by simp at hi⟩
  | cons p rest ih =>
      have hp := h.sound p (List.mem_cons_self ..)
      have happart := List.pairwise_cons.mp h.apart
      obtain ⟨hvalid, htier, hdb⟩ := ofTier_put key source hp hs
      obtain ⟨hdone, hothers, heach⟩ := ih
        ⟨fun q hq => h.sound q (List.mem_cons_of_mem _ hq), happart.2⟩ hvalid (level + 1)
      have hsame : ∀ q : TierPlace σ, q.Ignores valid p →
          q.tier ((ofTier p).put key source s).1 = q.tier s ∧
          q.db ((ofTier p).put key source s).1 = q.db s :=
        fun q hq => ⟨hq.tier _ _ hs, hq.db _ _ hs⟩
      rw [levels_put_cons]
      refine ⟨hdone, ?_, ?_⟩
      · intro q hq
        obtain ⟨htier', hdb'⟩ := hothers q fun r hr => hq r (List.mem_cons_of_mem _ hr)
        obtain ⟨htier'', hdb''⟩ := hsame q (hq p (List.mem_cons_self ..))
        exact ⟨htier'.trans htier'', hdb'.trans hdb''⟩
      · intro i q hi
        cases i with
        | zero =>
            obtain rfl : p = q := by simpa using hi
            obtain ⟨htier', hdb'⟩ := hothers p fun r hr => (happart.1 r hr).2
            refine ⟨htier'.trans htier, hdb'.trans hdb, ?_⟩
            have hlater : level ∉ storers key source (level + 1) rest
                ((ofTier p).put key source s).1 := by
              intro hmem
              exact Nat.not_succ_le_self _ (le_of_mem_storers hmem)
            rw [Nat.add_zero, storers, ← TierPlace.stores_iff]
            cases p.stores key source s <;> simp [hlater]
        | succ i =>
            have hi' : rest[i]? = some q := by simpa using hi
            obtain ⟨htier', hdb'⟩ := hsame q (happart.1 q (List.mem_of_getElem? hi')).1
            obtain ⟨hstay, hput, hstores⟩ := heach i q hi'
            rw [htier', hdb'] at hput hstores
            refine ⟨hstay.trans htier', hput, ?_⟩
            rw [← hstores, storers, Nat.add_right_comm, Nat.add_assoc]
            have hne : level + (i + 1) ≠ level := by omega
            split
            · rw [List.mem_cons, or_iff_right hne]
            · exact Iff.rfl

/-! ## Getting -/

/-- A get at one place moves at most one entry, and finds what is there. -/
theorem ofTier_get (key : String) {p : TierPlace σ} (hp : p.Sound valid) (hs : valid s) :
    valid ((ofTier p).get key s).2.1 ∧
      p.tier ((ofTier p).get key s).2.1 = p.tier s ∧
      (p.db s).Touched (p.db ((ofTier p).get key s).2.1) ∧
      (∀ q : TierPlace σ, q.Ignores valid p →
        q.tier ((ofTier p).get key s).2.1 = q.tier s ∧ q.db ((ofTier p).get key s).2.1 = q.db s) ∧
      ∀ found, ((ofTier p).get key s).1 = some found →
        (key, found.content) ∈ (p.db s).contents := by
  obtain ⟨done, hdone⟩ : ∃ done, (p.tier s).tryGet (p.directory s) key (p.db s) = done := ⟨_, rfl⟩
  have hspec : (p.db s).Touched done.db ∧ ∀ found, done.result = .ok (some found) →
      (key, found.content) ∈ (p.db s).contents := by
    rw [← hdone]
    rcases (p.tier s).tryGet_cases (p.directory s) key (p.db s) with
      ⟨e, top, d, hkey, -, -, hmoved, hget, -⟩ | ⟨hmiss, hsame⟩
    · refine ⟨Or.inr ⟨e, top, hmoved⟩, ?_⟩
      intro found hresult
      rw [hresult, Except.ok.injEq, Option.some.injEq] at hget
      rw [hget]
      exact List.mem_map.mpr ⟨e, hmoved.mem, by rw [Db.binding, hkey]; rfl⟩
    · exact ⟨Or.inl hsame, fun found hresult => absurd hresult (hmiss found)⟩
  obtain ⟨htouched, hfound⟩ := hspec
  simp only [ofTier, hdone]
  split
  · rename_i found hresult
    refine ⟨hp.valid_update _ _ hs, hp.tier_update _ _ hs, ?_,
      fun q hq => ⟨hq.tier _ _ hs, hq.db _ _ hs⟩,
      fun f hf => hfound f (hresult.trans (congrArg _ hf))⟩
    rw [hp.db_update _ _ hs]
    exact htouched
  · refine ⟨hp.valid_update _ _ hs, hp.tier_update _ _ hs, ?_,
      fun q hq => ⟨hq.tier _ _ hs, hq.db _ _ hs⟩, by simp⟩
    rw [hp.db_update _ _ hs]
    exact htouched

/-- **A get is answered by one level**, which reports itself, with a payload that
is there; and every level has at most one entry moved. -/
theorem firstHit_spec (key : String) {places : List (TierPlace σ)}
    (h : Separate valid places) (hs : valid s) (level : Nat) :
    valid (firstHit key level (places.map ofTier) s).2.1 ∧
      (∀ q : TierPlace σ, (∀ p ∈ places, q.Ignores valid p) →
        q.tier (firstHit key level (places.map ofTier) s).2.1 = q.tier s ∧
        q.db (firstHit key level (places.map ofTier) s).2.1 = q.db s) ∧
      (∀ p ∈ places,
        p.tier (firstHit key level (places.map ofTier) s).2.1 = p.tier s ∧
        (p.db s).Touched (p.db (firstHit key level (places.map ofTier) s).2.1)) ∧
      ∀ found, (firstHit key level (places.map ofTier) s).1 = some found →
        ∃ i p, places[i]? = some p ∧
          (firstHit key level (places.map ofTier) s).2.2.getLast? =
            some (.served key (level + i)) ∧
          (key, found.content) ∈ (p.db s).contents := by
  induction places generalizing level s with
  | nil => exact ⟨hs, fun _ _ => ⟨rfl, rfl⟩, by simp, by simp [firstHit]⟩
  | cons p rest ih =>
      have hp := h.sound p (List.mem_cons_self ..)
      have happart := List.pairwise_cons.mp h.apart
      have hrest : Separate valid rest :=
        ⟨fun q hq => h.sound q (List.mem_cons_of_mem _ hq), happart.2⟩
      obtain ⟨hvalid, htier, htouched, hothers, hfound⟩ := ofTier_get key hp hs
      have hsame : ∀ q ∈ rest, q.tier ((ofTier p).get key s).2.1 = q.tier s ∧
          q.db ((ofTier p).get key s).2.1 = q.db s := by
        intro q hq
        exact hothers q (happart.1 q hq).1
      rw [List.map_cons, firstHit]
      generalize (ofTier p).get key s = answer at *
      obtain ⟨found?, s', log⟩ := answer
      cases found? with
      | some found =>
          simp only at *
          refine ⟨hvalid, ?_, ?_, ?_⟩
          · intro q hq
            exact hothers q (hq p (List.mem_cons_self ..))
          · intro q hq
            rcases List.mem_cons.mp hq with rfl | hq'
            · exact ⟨htier, htouched⟩
            · exact ⟨(hsame q hq').1, Or.inl (hsame q hq').2⟩
          · intro f hf
            exact ⟨0, p, rfl, by simp, hfound f hf⟩
      | none =>
          obtain ⟨hdone, hstay, hkept, hhit⟩ := ih hrest hvalid (level + 1)
          simp only at *
          refine ⟨hdone, ?_, ?_, ?_⟩
          · intro q hq
            obtain ⟨htier', hdb'⟩ := hstay q fun r hr => hq r (List.mem_cons_of_mem _ hr)
            obtain ⟨htier'', hdb''⟩ := hothers q (hq p (List.mem_cons_self ..))
            exact ⟨htier'.trans htier'', hdb'.trans hdb''⟩
          · intro q hq
            rcases List.mem_cons.mp hq with rfl | hq'
            · obtain ⟨htier', hdb'⟩ := hstay q fun r hr => (happart.1 r hr).2
              rw [htier', hdb']
              exact ⟨htier, htouched⟩
            · obtain ⟨htier', hdb'⟩ := hsame q hq'
              have hlater := hkept q hq'
              rw [htier', hdb'] at hlater
              exact hlater
          · intro f hf
            obtain ⟨i, q, hi, hlog, hmem⟩ := hhit f hf
            rw [(hsame q (List.mem_of_getElem? hi)).2] at hmem
            refine ⟨i + 1, q, by simpa using hi, ?_, hmem⟩
            rw [List.getLast?_append, hlog, Option.some_or, Nat.add_right_comm]
            rfl

end FileCache

end BlobCache
