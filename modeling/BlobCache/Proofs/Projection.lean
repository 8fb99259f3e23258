import BlobCache.Proofs.Coherence
import BlobCache.Proofs.Refusal

/-!
# Each level for itself

What happens to one level of a cache can be told without the others.  It is asked
for every put, and for those gets that no level before it answers (`asked`); of a
run this is its share (`share`).  After the run the level is what it would be if
it had been alone and asked for its share (`Cache.each_alone`), whatever the levels
held at the beginning and whatever failed in them.

The proof leaves the state in which the levels live behind: a step of the cache is
a step on the list of its tiers, each with its database (`FileCache.levels_next`).
That a get changes no level but the one that answers it is then a matter of one
tier, which is left as it was when it finds nothing (`TierState.after_get_of_miss`).
-/

namespace BlobCache

/-- What a user asks of a cache.  The file of a put may be missing, or shorter
than it says. -/
inductive Demand where
  | put (key : String) (source : Source)
  | get (key : String)
deriving DecidableEq, Repr

/-- A tier, the directory for its payloads if files can be made there, and its
database. -/
structure TierState where
  tier : Tier
  directory : Option String
  db : Db

namespace TierState

/-- What the tier finds; a failure finds nothing. -/
def hit? (t : TierState) (key : String) : Option Extracted :=
  match (t.tier.tryGet t.directory key t.db).result with
  | .ok found => found
  | .error _ => none

/-- The tier after a demand that it alone is asked for. -/
def after (t : TierState) : Demand → TierState
  | .put key source => { t with db := (t.tier.tryPut key source t.db).db }
  | .get key => { t with db := (t.tier.tryGet t.directory key t.db).db }

variable {t : TierState} {key : String}

theorem hit?_eq_some {found : Extracted} :
    t.hit? key = some found ↔
      (t.tier.tryGet t.directory key t.db).result = .ok (some found) := by
  unfold hit?
  split <;> simp [*]

/-- Where nothing is found, nothing is moved. -/
theorem after_get_of_miss (h : t.hit? key = none) : t.after (.get key) = t := by
  rcases t.tier.tryGet_cases t.directory key t.db with
    ⟨_, _, _, -, -, -, -, hfound, -⟩ | ⟨-, hsame⟩
  · rw [hit?_eq_some.mpr hfound] at h
    cases h
  · rw [after, hsame]

end TierState

/-! ## Lists of tiers -/

/-- Whether level `i` is asked: always for a put, and for a get when no level
before it finds anything. -/
def asked (levels : List TierState) (i : Nat) : Demand → Bool
  | .put _ _ => true
  | .get key => (levels.take i).all fun t => (t.hit? key).isNone

/-- The levels after a demand, each of them by itself. -/
def served (levels : List TierState) (d : Demand) : List TierState :=
  levels.mapIdx fun i t => if asked levels i d then t.after d else t

section Served

variable {t : TierState} {rest : List TierState} {key : String} {source : Source}

theorem served_put_cons : served (t :: rest) (.put key source) =
    t.after (.put key source) :: served rest (.put key source) := by
  rw [served, List.mapIdx_cons]
  rfl

theorem asked_get_succ (i : Nat) : asked (t :: rest) (i + 1) (.get key) =
    ((t.hit? key).isNone && asked rest i (.get key)) := rfl

/-- Behind a level that finds something, no level is asked. -/
theorem served_get_cons_of_hit {found : Extracted} (h : t.hit? key = some found) :
    served (t :: rest) (.get key) = t.after (.get key) :: rest := by
  rw [served, List.mapIdx_cons]
  simp only [asked_get_succ, h, Option.isNone_some, Bool.false_and, Bool.false_eq_true, if_false,
    List.mapIdx_eq_zipIdx_map]
  simp [asked]

/-- Behind a level that finds nothing, the others go on. -/
theorem served_get_cons_of_miss (h : t.hit? key = none) :
    served (t :: rest) (.get key) = t.after (.get key) :: served rest (.get key) := by
  rw [served, List.mapIdx_cons]
  simp only [asked_get_succ, h, Option.isNone_none, Bool.true_and]
  rfl

theorem getElem?_served (levels : List TierState) (d : Demand) (i : Nat) :
    (served levels d)[i]? =
      levels[i]?.map fun t => if asked levels i d then t.after d else t := by
  rw [served, List.getElem?_mapIdx]

/-- A get changes no level but the first that finds something. -/
theorem getElem?_served_get {levels : List TierState} {i : Nat}
    (h : levels.findIdx? (fun t => (t.hit? key).isSome) ≠ some i) :
    (served levels (.get key))[i]? = levels[i]? := by
  rw [getElem?_served]
  cases hi : levels[i]? with
  | none => rfl
  | some t =>
      rw [Option.map_some]
      split
      · rename_i hasked
        rw [TierState.after_get_of_miss]
        -- A level that is asked and finds something would be the first to do so.
        rw [Option.eq_none_iff_forall_ne_some]
        intro found hfound
        apply h
        obtain ⟨hlt, hget⟩ := List.getElem?_eq_some_iff.mp hi
        refine List.findIdx?_eq_some_iff_getElem.mpr ⟨hlt, by simp [hget, hfound], ?_⟩
        intro j hj
        have hearlier := List.all_eq_true.mp hasked (levels[j])
          (List.mem_take_iff_getElem.mpr ⟨j, by omega, rfl⟩)
        simpa using hearlier
      · rfl

end Served

/-! ## Places -/

variable {σ : Type} {valid : σ → Prop} {s : σ} {key : String} {source : Source}

/-- What lives at a place. -/
def TierPlace.state (p : TierPlace σ) (s : σ) : TierState := ⟨p.tier s, p.directory s, p.db s⟩

/-- At `q` nothing is seen of a new database at `p`. -/
def TierPlace.Overlooks (valid : σ → Prop) (q p : TierPlace σ) : Prop :=
  ∀ {s} d, valid s → q.state (p.update (p.tier s) d s) = q.state s

/-- Places at each of which a new database is seen there and nowhere else. -/
structure Apart (valid : σ → Prop) (places : List (TierPlace σ)) : Prop where
  valid_update : ∀ p ∈ places, ∀ {s} d, valid s → valid (p.update (p.tier s) d s)
  state_update : ∀ p ∈ places, ∀ {s} d, valid s →
    p.state (p.update (p.tier s) d s) = { p.state s with db := d }
  others : places.Pairwise fun p q => q.Overlooks valid p ∧ p.Overlooks valid q

/-- Separate places whose directories stay are apart. -/
theorem Separate.toApart {places : List (TierPlace σ)} (h : Separate valid places)
    (hdirectory : ∀ p ∈ places, ∀ q ∈ places, ∀ {s} d, valid s →
      q.directory (p.update (p.tier s) d s) = q.directory s) : Apart valid places := by
  refine ⟨?_, ?_, ?_⟩
  · intro p hp s d hs
    exact (h.sound p hp).valid_update _ d hs
  · intro p hp s d hs
    rw [TierPlace.state, (h.sound p hp).tier_update _ d hs, (h.sound p hp).db_update _ d hs,
      hdirectory p hp p hp d hs]
    rfl
  · have hoverlooks : ∀ p ∈ places, ∀ q ∈ places, q.Ignores valid p → q.Overlooks valid p := by
      intro p hp q hq hignores s d hs
      rw [TierPlace.state, hignores.tier _ d hs, hignores.db _ d hs, hdirectory p hp q hq d hs]
      rfl
    exact h.apart.imp_of_mem fun hp hq hpq =>
      ⟨hoverlooks _ hp _ hq hpq.1, hoverlooks _ hq _ hp hpq.2⟩

namespace FileCache

/-- The state after a demand. -/
def next (cache : FileCache σ) (s : σ) : Demand → σ
  | .put key source => (cache.put key source s).1
  | .get key => (cache.get key s).2.1

/-- The state after some demands. -/
def reached (cache : FileCache σ) (s : σ) (demands : List Demand) : σ := demands.foldl cache.next s

/-- A demand on one tier puts a new database at its place. -/
theorem ofTier_next (p : TierPlace σ) (s : σ) (d : Demand) :
    (ofTier p).next s d = p.update (p.tier s) ((p.state s).after d).db s := by
  cases d with
  | put key source => exact ofTier_put_state p key source s
  | get key => exact ofTier_get_state p key s

/-- A demand on one tier, with the places behind it. -/
theorem ofTier_next_of_apart {p : TierPlace σ} {rest : List (TierPlace σ)}
    (h : Apart valid (p :: rest)) (hs : valid s) (d : Demand) :
    valid ((ofTier p).next s d) ∧ p.state ((ofTier p).next s d) = (p.state s).after d ∧
      ∀ q : TierPlace σ, q.Overlooks valid p → q.state ((ofTier p).next s d) = q.state s := by
  rw [ofTier_next]
  refine ⟨h.valid_update p (List.mem_cons_self ..) _ hs, ?_, fun q hq => hq _ hs⟩
  rw [h.state_update p (List.mem_cons_self ..) _ hs]
  cases d <;> rfl

/-- The places behind a tier see nothing of a demand on it. -/
theorem map_state_next {p : TierPlace σ} {rest : List (TierPlace σ)}
    (h : Apart valid (p :: rest)) (hs : valid s) (d : Demand) :
    rest.map (·.state ((ofTier p).next s d)) = rest.map (·.state s) :=
  List.map_congr_left fun q hq =>
    (ofTier_next_of_apart h hs d).2.2 q ((List.pairwise_cons.mp h.others).1 q hq).1

theorem ofTier_get_fst (p : TierPlace σ) (key : String) (s : σ) :
    ((ofTier p).get key s).1 = (p.state s).hit? key := by
  apply Option.ext
  intro found
  rw [ofTier_get_eq_some, TierState.hit?_eq_some]
  rfl

end FileCache

/-! ## One demand -/

/-- What the levels at some places come to by a demand: every one of them does its
own part, and where they are overlooked nothing is seen. -/
structure Advance (valid : σ → Prop) (places : List (TierPlace σ)) (d : Demand) (s s' : σ) :
    Prop where
  remains : valid s'
  overlooked : ∀ q : TierPlace σ, (∀ p ∈ places, q.Overlooks valid p) → q.state s' = q.state s
  states : places.map (·.state s') = served (places.map (·.state s)) d

namespace Advance

variable {p : TierPlace σ} {rest : List (TierPlace σ)} {d : Demand} {s' : σ}

/-- Only the first level is asked. -/
theorem only (h : Apart valid (p :: rest)) (hs : valid s)
    (hserved : served ((p :: rest).map (·.state s)) d =
      (p.state s).after d :: rest.map (·.state s)) :
    Advance valid (p :: rest) d s ((FileCache.ofTier p).next s d) := by
  obtain ⟨hvalid, hown, hothers⟩ := FileCache.ofTier_next_of_apart h hs d
  refine ⟨hvalid, fun q hq => hothers q (hq p (List.mem_cons_self ..)), ?_⟩
  rw [hserved, List.map_cons, hown, FileCache.map_state_next h hs]

/-- The first level is asked, and the others go on. -/
theorem cons (h : Apart valid (p :: rest)) (hs : valid s)
    (hserved : served ((p :: rest).map (·.state s)) d =
      (p.state s).after d :: served (rest.map (·.state s)) d)
    (hrest : Advance valid rest d ((FileCache.ofTier p).next s d) s') :
    Advance valid (p :: rest) d s s' := by
  obtain ⟨-, hown, hothers⟩ := FileCache.ofTier_next_of_apart h hs d
  refine ⟨hrest.remains, ?_, ?_⟩
  · intro q hq
    rw [hrest.overlooked q fun r hr => hq r (List.mem_cons_of_mem _ hr),
      hothers q (hq p (List.mem_cons_self ..))]
  · rw [hserved, List.map_cons, hrest.states, FileCache.map_state_next h hs,
      hrest.overlooked p fun r hr => ((List.pairwise_cons.mp h.others).1 r hr).2, hown]

end Advance

theorem Apart.tail {p : TierPlace σ} {rest : List (TierPlace σ)} (h : Apart valid (p :: rest)) :
    Apart valid rest :=
  ⟨fun q hq => h.valid_update q (List.mem_cons_of_mem _ hq),
    fun q hq => h.state_update q (List.mem_cons_of_mem _ hq), (List.pairwise_cons.mp h.others).2⟩

namespace FileCache

variable {places : List (TierPlace σ)}

/-- A put goes to every level. -/
theorem advance_put (h : Apart valid places) (hs : valid s) :
    Advance valid places (.put key source) s
      ((levels (places.map ofTier)).put key source s).1 := by
  induction places generalizing s with
  | nil => exact ⟨hs, fun _ _ => rfl, rfl⟩
  | cons p rest ih =>
      have hvalid := (ofTier_next_of_apart h hs (.put key source)).1
      rw [levels_put_cons]
      exact .cons h hs served_put_cons (ih h.tail hvalid)

section FirstHit

variable {cache : FileCache σ} (level : Nat) (rest : List (FileCache σ))

theorem firstHit_cons_of_some {found : Extracted} (h : (cache.get key s).1 = some found) :
    (firstHit key level (cache :: rest) s).1 = some found ∧
      (firstHit key level (cache :: rest) s).2.1 = cache.next s (.get key) := by
  rw [firstHit, next]
  generalize cache.get key s = answer at *
  obtain ⟨_, s', log⟩ := answer
  cases h
  exact ⟨rfl, rfl⟩

theorem firstHit_cons_of_none (h : (cache.get key s).1 = none) :
    (firstHit key level (cache :: rest) s).1 =
        (firstHit key (level + 1) rest (cache.next s (.get key))).1 ∧
      (firstHit key level (cache :: rest) s).2.1 =
        (firstHit key (level + 1) rest (cache.next s (.get key))).2.1 := by
  rw [firstHit, next]
  generalize cache.get key s = answer at *
  obtain ⟨_, s', log⟩ := answer
  cases h
  exact ⟨rfl, rfl⟩

end FirstHit

/-- A get goes on until a level finds something. -/
theorem advance_get (h : Apart valid places) (hs : valid s) (level : Nat) :
    (firstHit key level (places.map ofTier) s).1 =
        (places.map (·.state s)).findSome? (·.hit? key) ∧
      Advance valid places (.get key) s (firstHit key level (places.map ofTier) s).2.1 := by
  induction places generalizing s level with
  | nil => exact ⟨rfl, hs, fun _ _ => rfl, rfl⟩
  | cons p rest ih =>
      have hvalid := (ofTier_next_of_apart h hs (.get key)).1
      have hanswer := ofTier_get_fst p key s
      cases hhit : (p.state s).hit? key with
      | some found =>
          obtain ⟨hfound, hstate⟩ :=
            firstHit_cons_of_some level (rest.map ofTier) (hanswer.trans hhit)
          rw [List.map_cons, hfound, hstate, List.map_cons, List.findSome?_cons, hhit]
          exact ⟨rfl, .only h hs (served_get_cons_of_hit hhit)⟩
      | none =>
          obtain ⟨hfound, hstate⟩ :=
            firstHit_cons_of_none level (rest.map ofTier) (hanswer.trans hhit)
          obtain ⟨hlater, hrest⟩ := ih h.tail hvalid (level + 1)
          rw [List.map_cons, hfound, hstate, List.map_cons, List.findSome?_cons, hhit, hlater,
            map_state_next h hs]
          exact ⟨rfl, .cons h hs (served_get_cons_of_miss hhit) hrest⟩

/-- A step of the cache is a step on its levels. -/
theorem levels_next (h : Apart valid places) (hs : valid s) (d : Demand) :
    Advance valid places d s ((levels (places.map ofTier)).next s d) := by
  cases d with
  | put key source => exact advance_put h hs
  | get key => exact (advance_get h hs 0).2

end FileCache

/-! ## Runs -/

/-- The demands of a run for which the level `i` is asked. -/
def share (places : List (TierPlace σ)) (i : Nat) (s : σ) : List Demand → List Demand
  | [] => []
  | d :: rest =>
    let later := share places i ((FileCache.levels (places.map FileCache.ofTier)).next s d) rest
    if asked (places.map (·.state s)) i d then d :: later else later

/-- After a run every level is where its own share leads it. -/
theorem state_reached {places : List (TierPlace σ)} (h : Apart valid places) (hs : valid s)
    (demands : List Demand) :
    valid ((FileCache.levels (places.map FileCache.ofTier)).reached s demands) ∧
      ∀ i p, places[i]? = some p →
        p.state ((FileCache.levels (places.map FileCache.ofTier)).reached s demands) =
          (share places i s demands).foldl TierState.after (p.state s) := by
  induction demands generalizing s with
  | nil => exact ⟨hs, fun _ _ _ => rfl⟩
  | cons d rest ih =>
      have hstep := FileCache.levels_next h hs d
      obtain ⟨hvalid, hlater⟩ := ih hstep.remains
      refine ⟨hvalid, ?_⟩
      intro i p hp
      have hown : p.state ((FileCache.levels (places.map FileCache.ofTier)).next s d) =
          if asked (places.map (·.state s)) i d then (p.state s).after d else p.state s := by
        have hi := congrArg (·[i]?) hstep.states
        simpa [getElem?_served, hp] using hi
      rw [FileCache.reached, List.foldl_cons, ← FileCache.reached, hlater i p hp, hown, share]
      split
      · rw [List.foldl_cons]
      · rfl

namespace Machine

variable {numbers : List Nat} {m : Machine}

/-- The tiers of a machine that share no database are apart. -/
theorem apart_tierPlaces (hnodup : numbers.Nodup) :
    Apart (Houses numbers) (numbers.map tierPlace) := by
  apply (separate_tierPlaces hnodup).toApart
  intro p hp q hq m d hm
  obtain ⟨a, ha, rfl⟩ := List.mem_map.mp hp
  obtain ⟨b, hb, rfl⟩ := List.mem_map.mp hq
  have htier : (((tierPlace a).update ((tierPlace a).tier m) d m).openTierAt b).tier =
      (m.openTierAt b).tier := by
    rw [openTierAt_update _ d (hm.tiers a ha)]
    split
    · rename_i hsame
      rw [hsame]
      rfl
    · rfl
  show extractDirectory _ (((tierPlace a).update ((tierPlace a).tier m) d m).openTierAt b).tier =
    m.extractDirectory (m.openTierAt b).tier
  rw [htier]
  rfl

end Machine

namespace Cache

/-- **The tiers of a cache do not interfere.**  Let no two of them share a database;
whatever the databases hold, after any run of puts and gets

* a get is answered by the first tier that finds something by itself;
* every tier is where its share of the run leads it alone: all puts, and the gets
  for which no tier before it found anything;
* a get leaves every tier as it is but the one that answers it. -/
theorem each_alone (cache : Cache) (m : Machine) (hnodup : cache.tiers.Nodup)
    (hm : m.Houses cache.tiers) (demands : List Demand) :
    let m' := cache.files.reached m demands
    (∀ key, (cache.files.get key m').1 =
      (cache.places.map (·.state m')).findSome? (·.hit? key)) ∧
    (∀ (i : Nat) (p : TierPlace Machine), cache.places[i]? = some p →
      p.state m' = (share cache.places i m demands).foldl TierState.after (p.state m)) ∧
    ∀ (key : String) (i : Nat) (p : TierPlace Machine), cache.places[i]? = some p →
      (cache.places.map (·.state m')).findIdx? (fun t => (t.hit? key).isSome) ≠ some i →
      p.state (cache.files.get key m').2.1 = p.state m' := by
  intro m'
  have hplaces : Apart (Machine.Houses cache.tiers) cache.places := Machine.apart_tierPlaces hnodup
  obtain ⟨hvalid, hshares⟩ := state_reached hplaces hm demands
  rw [← files_eq] at hvalid hshares
  have hget : ∀ key, (cache.files.get key m').1 =
        (cache.places.map (·.state m')).findSome? (·.hit? key) ∧
      Advance (Machine.Houses cache.tiers) cache.places (.get key) m'
        (cache.files.get key m').2.1 := by
    intro key
    rw [files_eq]
    exact FileCache.advance_get hplaces hvalid 0
  refine ⟨fun key => (hget key).1, hshares, ?_⟩
  intro key i p hp hother
  have hi := congrArg (·[i]?) (hget key).2.states
  rw [getElem?_served_get hother] at hi
  simpa [hp] using hi

/-- The payload of the first tier is shorter than its entry says.  A get of it is
answered by the second, which hears nothing of a key that the first one finds. -/
theorem each_alone_of_corrupt :
    let damaged : Db := .single "a" 2 [7] 2
    let sound : Db := .single "a" 2 [7, 5] 2
    let m : Machine :=
      { disk := { nodes := [(["tmp"], .directory)] }, workDirectory := [], tempDirectory := "tmp",
        databases := [damaged, sound],
        tiers := [⟨{ location := .memory, budget := 4 }, 0⟩,
          ⟨{ location := .file "x", budget := 4 }, 1⟩] }
    let cache : Cache := { tiers := [0, 1] }
    let put : Demand := .put "b" ⟨"f", some ⟨1, [9]⟩⟩
    let m' := cache.files.reached m [put, .get "b"]
    cache.tiers.Nodup ∧ m.Houses cache.tiers ∧
      (cache.files.get "a" m').1 = some ⟨"tmp", [7, 5]⟩ ∧
      (Machine.tierPlace 0).state (cache.files.get "a" m').2.1 = (Machine.tierPlace 0).state m' ∧
      share cache.places 1 m [put, .get "b"] = [put] ∧
      (Machine.tierPlace 1).state m' = ((Machine.tierPlace 1).state m).after put := by
  intro damaged sound m cache put m'
  have hnodup : cache.tiers.Nodup := by decide
  have hm : m.Houses cache.tiers := ⟨by decide +kernel, by decide +kernel, by decide +kernel⟩
  have hshare : share cache.places 1 m [put, .get "b"] = [put] := by decide +kernel
  obtain ⟨hanswer, hshares, hothers⟩ := each_alone cache m hnodup hm [put, .get "b"]
  refine ⟨hnodup, hm, ?_, ?_, hshare, ?_⟩
  · rw [hanswer]
    decide +kernel
  · have hsecond : (cache.places.map (·.state m')).findIdx? (fun t => (t.hit? "a").isSome) =
        some 1 := by decide +kernel
    subst m'
    exact hothers "a" 0 _ rfl (by rw [hsecond]; decide)
  · rw [hshares 1 _ rfl, hshare]
    rfl

end Cache

end BlobCache
