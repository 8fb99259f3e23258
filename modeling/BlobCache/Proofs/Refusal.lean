import BlobCache.Host.Machine
import BlobCache.Proofs.Operation

/-!
# What is refused leaves no trace

A put may fail when entries were evicted already, the old entry of its key is
deleted and half of its chunks are written, and a get may fail when its entry
was already moved.  Nothing of this is seen afterwards, whatever the tables held
before and for whatever cause it failed: the database is the one it was
(`unchanged_of_refused`).

To the user of a cache a refusal is no more than a report.  What is put back at
the place of a tier is what was found there, and so the machine is the one it
was too (`Machine.update_tierPlace_self`).
-/

namespace BlobCache

/-- Writing what stands at a place changes nothing, nor does writing past the
end. -/
theorem set_getD_self {α : Type} (l : List α) (i : Nat) (a : α) :
    l.set i (l[i]?.getD a) = l := by
  by_cases h : i < l.length
  · rw [List.getElem?_eq_getElem h, Option.getD_some, List.set_getElem_self]
  · exact List.set_eq_of_length_le (Nat.not_lt.mp h)

/-- Putting back what was found changes nothing, not even where there is no
tier. -/
theorem Machine.update_tierPlace_self (m : Machine) (number : Nat) :
    (tierPlace number).update ((tierPlace number).tier m) ((tierPlace number).db m) m = m := by
  have htiers : m.tiers.set number (m.openTierAt number) = m.tiers := set_getD_self _ _ _
  simp only [tierPlace, setDatabase, database, set_getD_self, htiers]

namespace FileCache

variable {σ : Type} {p : TierPlace σ} {key : String} {source : Source} {s : σ}

/-- The state after a put at the place of a tier. -/
theorem ofTier_put_state (p : TierPlace σ) (key : String) (source : Source) (s : σ) :
    ((ofTier p).put key source s).1 =
      p.update (p.tier s) ((p.tier s).tryPut key source (p.db s)).db s := rfl

/-- The state after a get at the place of a tier, whether it found something or
not. -/
theorem ofTier_get_state (p : TierPlace σ) (key : String) (s : σ) :
    ((ofTier p).get key s).2.1 =
      p.update (p.tier s) ((p.tier s).tryGet (p.directory s) key (p.db s)).db s := by
  simp only [ofTier]
  split <;> rfl

/-- A cache finds what its tier finds. -/
theorem ofTier_get_eq_some {found : Extracted} :
    ((ofTier p).get key s).1 = some found ↔
      ((p.tier s).tryGet (p.directory s) key (p.db s)).result = .ok (some found) := by
  simp only [ofTier]
  split <;> simp [*]

end FileCache

/-- **What is refused leaves no trace.**  A put that does not cache and a get
that does not find leave the database as it was, whatever it holds.  As a cache,
the tier then changes nothing on its machine, and finds nothing. -/
theorem unchanged_of_refused (key : String) (source : Source) :
    (∀ (tier : Tier) (db : Db), (tier.tryPut key source db).result ≠ .ok .cached →
      (tier.tryPut key source db).db = db) ∧
    (∀ (tier : Tier) (directory : Option String) (db : Db),
      (∀ found, (tier.tryGet directory key db).result ≠ .ok (some found)) →
      (tier.tryGet directory key db).db = db) ∧
    ∀ (m : Machine) (number : Nat),
      let place := Machine.tierPlace number
      (((place.tier m).tryPut key source (place.db m)).result ≠ .ok .cached →
        ((Machine.tierCache number).put key source m).1 = m) ∧
      ((∀ found, ((place.tier m).tryGet (place.directory m) key (place.db m)).result ≠
          .ok (some found)) →
        ((Machine.tierCache number).get key m).1 = none ∧
        ((Machine.tierCache number).get key m).2.1 = m) := by
  have hput : ∀ (tier : Tier) (db : Db), (tier.tryPut key source db).result ≠ .ok .cached →
      (tier.tryPut key source db).db = db := by
    intro tier db hrefused
    rcases tier.tryPut_cases key source db with ⟨-, -, -, -, hcached, -⟩ | ⟨-, hsame⟩
    · exact absurd hcached hrefused
    · exact hsame
  have hget : ∀ (tier : Tier) (directory : Option String) (db : Db),
      (∀ found, (tier.tryGet directory key db).result ≠ .ok (some found)) →
      (tier.tryGet directory key db).db = db := by
    intro tier directory db hrefused
    rcases tier.tryGet_cases directory key db with
      ⟨_, _, _, -, -, -, -, hfound, -⟩ | ⟨-, hsame⟩
    · exact absurd hfound (hrefused _)
    · exact hsame
  refine ⟨hput, hget, ?_⟩
  intro m number place
  constructor
  · intro hrefused
    rw [Machine.tierCache, FileCache.ofTier_put_state, hput _ _ hrefused]
    exact m.update_tierPlace_self number
  · intro hrefused
    constructor
    · rw [Option.eq_none_iff_forall_ne_some]
      intro found hfound
      exact hrefused found (FileCache.ofTier_get_eq_some.mp hfound)
    · rw [Machine.tierCache, FileCache.ofTier_get_state, hget _ _ _ hrefused]
      exact m.update_tierPlace_self number

/-- A payload is stored that is shorter than its entry says, and a file ends
before its reported size.  The put fails after it evicted the entry, the get
after it moved it. -/
theorem unchanged_of_short_file :
    let db : Db := .single "a" 2 [7] 2
    let m : Machine :=
      { disk := { nodes := [(["tmp"], .directory)] }, workDirectory := [], tempDirectory := "tmp",
        databases := [db], tiers := [⟨{ location := .file "x", budget := 4 }, 0⟩] }
    let file : Source := ⟨"f", some ⟨3, [1]⟩⟩
    let place := Machine.tierPlace 0
    ((place.tier m).tryPut "b" file (place.db m)).result = .error (.truncatedInput "f") ∧
      ((place.tier m).tryPut "b" file (place.db m)).log = [.evicted "x" 1 2] ∧
      ((Machine.tierCache 0).put "b" file m).1 = m ∧
      (∀ found, ((place.tier m).tryGet (place.directory m) "a" (place.db m)).result ≠
        .ok (some found)) ∧
      ((Machine.tierCache 0).get "a" m).2.1 = m := by
  intro db m file place
  have hput : ((place.tier m).tryPut "b" file (place.db m)).result =
      .error (.truncatedInput "f") := by
    decide +kernel
  have hget : ((place.tier m).tryGet (place.directory m) "a" (place.db m)).result =
      .error (.corruption "stored payload length doesn't match its entry") := by
    subst db m
    cbv
  have hmiss : ∀ found, ((place.tier m).tryGet (place.directory m) "a" (place.db m)).result ≠
      .ok (some found) := by
    intro found
    rw [hget]
    simp
  refine ⟨hput, by decide +kernel, ?_, hmiss, ?_⟩
  · refine ((unchanged_of_refused "b" file).2.2 m 0).1 ?_
    rw [hput]
    simp
  · exact (((unchanged_of_refused "a" file).2.2 m 0).2 hmiss).2

end BlobCache
