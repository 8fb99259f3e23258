import BlobCache.Store.Database
import Mathlib

/-!
# Rows of a table

What a table holds after a row was put in or rows were taken out, said of the
list of its rows.  Putting a row in commutes with looking at some rows only
(`filter_place_of_pos`, `filter_place_of_neg`); two rows that clash are the same
row (`eq_of_clash`), so an entry is found by its id or its key.
-/

namespace BlobCache

namespace Table

variable {ρ : Type} [Row ρ]

/-- Placing a row only adds it. -/
theorem perm_place (r : ρ) (l : List ρ) : (place r l).Perm (r :: l) := by
  induction l with
  | nil => exact List.Perm.refl _
  | cons x rest ih =>
      unfold place
      split
      · exact (ih.cons x).trans (List.Perm.swap r x rest)
      · exact List.Perm.refl _

/-- A row that comes before all others is placed in front. -/
theorem place_first {r : ρ} {l : List ρ} (h : ∀ x ∈ l, ¬ Row.before x r) :
    place r l = r :: l := by
  cases l with
  | nil => rfl
  | cons x rest => rw [place, if_neg (h x (by simp))]

/-- Rows that are left out do not see a row of their kind come in. -/
theorem filter_place_of_neg {r : ρ} {l : List ρ} {p : ρ → Bool} (hr : p r = false) :
    (place r l).filter p = l.filter p := by
  induction l with
  | nil => simp [place, hr]
  | cons x rest ih =>
      unfold place
      split
      · simp only [List.filter_cons, ih]
      · simp [List.filter_cons, hr]

/-- The rows that are looked at take a new one in as the whole table does. -/
theorem filter_place_of_pos {r : ρ} {l : List ρ} {p : ρ → Bool}
    (hl : l.Pairwise Row.before) (hr : p r = true) :
    (place r l).filter p = place r (l.filter p) := by
  induction l with
  | nil => simp [place, hr]
  | cons x rest ih =>
      rw [List.pairwise_cons] at hl
      by_cases hx : Row.before x r
      · rw [place, if_pos hx, List.filter_cons, List.filter_cons, ih hl.2]
        split
        · rw [place, if_pos hx]
        · rfl
      · have hnone : ∀ y ∈ (x :: rest).filter p, ¬ Row.before y r := by
          intro y hy hyr
          rcases List.mem_cons.mp (List.mem_filter.mp hy).1 with rfl | hy
          · exact hx hyr
          · exact hx (Row.before_trans (hl.1 y hy) hyr)
        rw [place, if_neg hx, place_first hnone, List.filter_cons, if_pos hr]

/-- A row that clashes with none is taken in. -/
theorem exists_insert? {t : Table ρ} {r : ρ} (h : ∀ x ∈ t.rows, ¬ Row.clash x r) :
    ∃ u, t.insert? r = some u := by
  cases hu : t.insert? r with
  | some u => exact ⟨u, rfl⟩
  | none =>
      obtain ⟨x, hx, hclash⟩ := insert?_eq_none_iff.mp hu
      exact absurd hclash (h x hx)

/-- A row that was taken in clashed with none. -/
theorem no_clash_of_insert? {t u : Table ρ} {r : ρ} (h : t.insert? r = some u) :
    ∀ x ∈ t.rows, ¬ Row.clash x r := by
  intro x hx hclash
  rw [insert?_eq_none_iff.mpr ⟨x, hx, hclash⟩] at h
  cases h

/-- Two rows of a table that clash are one. -/
theorem eq_of_clash {t : Table ρ} {a b : ρ} (ha : a ∈ t.rows) (hb : b ∈ t.rows)
    (h : Row.clash a b) : a = b := by
  have : Std.Symm fun a b : ρ => ¬ Row.clash a b := ⟨fun _ _ h h' => h (Row.clash_symm h')⟩
  by_contra hne
  exact t.distinct.forall ha hb hne h

/-- Taking rows out twice takes out what either would. -/
theorem map_filter_filter (table : Option (Table ρ)) (p q : ρ → Bool) :
    (table.map (·.filter p)).map (·.filter q) = table.map (·.filter fun r => p r && q r) := by
  cases table with
  | none => rfl
  | some t =>
      simp only [Option.map_some, Option.some.injEq]
      ext1
      simp only [rows_filter, List.filter_filter, Bool.and_comm]

theorem filter_congr {t : Table ρ} {p q : ρ → Bool} (h : ∀ r ∈ t.rows, p r = q r) :
    t.filter p = t.filter q := by
  ext1
  exact List.filter_congr h

/-- A table that may be missing stays as it is if all its rows satisfy `p`. -/
theorem map_filter_eq_self {table : Option (Table ρ)} {p : ρ → Bool}
    (h : ∀ t ∈ table, ∀ r ∈ t.rows, p r = true) : table.map (·.filter p) = table := by
  cases table with
  | none => rfl
  | some t =>
      rw [Option.map_some, Option.some.injEq]
      ext1
      exact List.filter_eq_self.mpr (h t rfl)

end Table

namespace Db

variable {db : Db}

theorem entryRows_of_some {entries : Table EntryRow} (h : db.entries = some entries) :
    db.entryRows = entries.rows := by
  rw [entryRows, h]
  rfl

theorem entryRows_congr {db' : Db} (h : db'.entries = db.entries) :
    db'.entryRows = db.entryRows := by
  rw [entryRows, h]
  rfl

theorem entryRows_ascending (db : Db) : db.entryRows.Pairwise fun a b => a.id < b.id := by
  unfold entryRows
  cases db.entries with
  | none => exact .nil
  | some t => exact t.ascending

theorem chunkRows_ascending (db : Db) : db.chunkRows.Pairwise Row.before := by
  unfold chunkRows
  cases db.chunks with
  | none => exact .nil
  | some t => exact t.ascending

/-- Entries with one id are the same. -/
theorem entry_eq_of_id {a b : EntryRow} (ha : a ∈ db.entryRows) (hb : b ∈ db.entryRows)
    (h : a.id = b.id) : a = b := by
  unfold entryRows at ha hb
  cases hdb : db.entries with
  | none => simp [hdb] at ha
  | some t =>
      simp only [hdb, Option.map_some, Option.getD_some] at ha hb
      exact Table.eq_of_clash ha hb (.inl h)

/-- Entries with one key are the same. -/
theorem entry_eq_of_key {a b : EntryRow} (ha : a ∈ db.entryRows) (hb : b ∈ db.entryRows)
    (h : a.key = b.key) : a = b := by
  unfold entryRows at ha hb
  cases hdb : db.entries with
  | none => simp [hdb] at ha
  | some t =>
      simp only [hdb, Option.map_some, Option.getD_some] at ha hb
      exact Table.eq_of_clash ha hb (.inr h)

/-- An entry is found by its id. -/
theorem find?_id_of_mem {e : EntryRow} (he : e ∈ db.entryRows) :
    db.entryRows.find? (·.id = e.id) = some e := by
  cases hfind : db.entryRows.find? (·.id = e.id) with
  | none => exact absurd (List.find?_eq_none.mp hfind e he) (by simp)
  | some x =>
      have hx : x.id = e.id := by simpa using List.find?_some hfind
      rw [entry_eq_of_id (List.mem_of_find?_eq_some hfind) he hx]

/-- An entry is found by its key. -/
theorem find?_key_of_mem {e : EntryRow} (he : e ∈ db.entryRows) :
    db.entryRows.find? (·.key = e.key) = some e := by
  cases hfind : db.entryRows.find? (·.key = e.key) with
  | none => exact absurd (List.find?_eq_none.mp hfind e he) (by simp)
  | some x =>
      have hx : x.key = e.key := by simpa using List.find?_some hfind
      rw [entry_eq_of_key (List.mem_of_find?_eq_some hfind) he hx]

/-- No key occurs twice. -/
theorem nodup_keys (db : Db) : (db.entryRows.map (·.key)).Nodup := by
  unfold entryRows
  cases db.entries with
  | none => exact List.nodup_nil
  | some t => exact List.pairwise_map.mpr (t.distinct.imp fun h heq => h (.inr heq))

/-- Blobs with one id are the same. -/
theorem blob_eq_of_id {a b : BlobRow} (ha : a ∈ db.blobRows) (hb : b ∈ db.blobRows)
    (h : a.id = b.id) : a = b := by
  unfold blobRows at ha hb
  cases hdb : db.blobs with
  | none => simp [hdb] at ha
  | some t =>
      simp only [hdb, Option.map_some, Option.getD_some] at ha hb
      exact Table.eq_of_clash ha hb h

end Db

end BlobCache
