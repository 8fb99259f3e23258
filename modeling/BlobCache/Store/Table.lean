/-!
# Tables

A table is a list of rows in ascending order in which no two rows clash.  What
"before" and "clash" mean is a matter of the row (`Row`): entries are ordered by
id and clash on id or key, chunks are ordered by blob and number.

Both facts are part of the type, so a statement about any table whatsoever
needs no assumption on its order.  New rows come in through `Table.insert?`,
which refuses a clash and otherwise puts the row where it belongs
(`mem_insert?`); a row that comes after all others goes to the end
(`rows_insert?_last`).
-/

namespace BlobCache

/-- How the rows of one kind are ordered, and which of them exclude each
other. -/
class Row (ρ : Type) where
  before : ρ → ρ → Prop
  clash : ρ → ρ → Prop
  decidableBefore : ∀ a b, Decidable (before a b)
  decidableClash : ∀ a b, Decidable (clash a b)
  before_trans : ∀ {a b c : ρ}, before a b → before b c → before a c
  before_or_after : ∀ {a b : ρ}, ¬ clash a b → before a b ∨ before b a
  clash_symm : ∀ {a b : ρ}, clash a b → clash b a

instance {ρ : Type} [Row ρ] (a b : ρ) : Decidable (Row.before a b) :=
  Row.decidableBefore a b

instance {ρ : Type} [Row ρ] (a b : ρ) : Decidable (Row.clash a b) :=
  Row.decidableClash a b

/-- Rows in ascending order without clashes. -/
@[ext] structure Table (ρ : Type) [Row ρ] where
  rows : List ρ
  ascending : rows.Pairwise Row.before
  distinct : rows.Pairwise fun a b => ¬ Row.clash a b

namespace Table

variable {ρ : Type} [Row ρ]

instance [DecidableEq ρ] : DecidableEq (Table ρ) := fun a b =>
  decidable_of_iff (a.rows = b.rows) Table.ext_iff.symm

instance : EmptyCollection (Table ρ) := ⟨⟨[], .nil, .nil⟩⟩

@[simp] theorem rows_empty : (∅ : Table ρ).rows = [] := rfl

/-- The rows that satisfy `p`. -/
def filter (t : Table ρ) (p : ρ → Bool) : Table ρ where
  rows := t.rows.filter p
  ascending := t.ascending.filter p
  distinct := t.distinct.filter p

@[simp] theorem rows_filter (t : Table ρ) (p : ρ → Bool) :
    (t.filter p).rows = t.rows.filter p := rfl

/-- The list with `r` put in front of the first row it comes before. -/
def place (r : ρ) : List ρ → List ρ
  | [] => [r]
  | x :: rest => if Row.before x r then x :: place r rest else r :: x :: rest

theorem mem_place {r y : ρ} {l : List ρ} : y ∈ place r l ↔ y = r ∨ y ∈ l := by
  induction l with
  | nil => simp [place]
  | cons x rest ih =>
      simp only [place]
      split <;> simp only [List.mem_cons, ih]
      constructor <;> (rintro (h | h | h) <;> simp [h])

theorem pairwise_place {r : ρ} {l : List ρ} (hl : l.Pairwise Row.before)
    (hr : ∀ x ∈ l, ¬ Row.clash x r) : (place r l).Pairwise Row.before := by
  induction l with
  | nil => simp [place]
  | cons x rest ih =>
      rw [List.pairwise_cons] at hl
      have hrest : ∀ y ∈ rest, ¬ Row.clash y r := fun y hy => hr y (by simp [hy])
      by_cases hx : Row.before x r
      · rw [place, if_pos hx, List.pairwise_cons]
        refine ⟨fun y hy => ?_, ih hl.2 hrest⟩
        rcases mem_place.mp hy with rfl | hy
        · exact hx
        · exact hl.1 y hy
      · have hrx : Row.before r x :=
          (Row.before_or_after (hr x (by simp))).resolve_left hx
        rw [place, if_neg hx, List.pairwise_cons, List.pairwise_cons]
        refine ⟨fun y hy => ?_, hl⟩
        rcases List.mem_cons.mp hy with rfl | hy
        · exact hrx
        · exact Row.before_trans hrx (hl.1 y hy)

theorem distinct_place {r : ρ} {l : List ρ}
    (hl : l.Pairwise fun a b => ¬ Row.clash a b)
    (hr : ∀ x ∈ l, ¬ Row.clash x r) :
    (place r l).Pairwise fun a b => ¬ Row.clash a b := by
  induction l with
  | nil => simp [place]
  | cons x rest ih =>
      have hcons := hl
      rw [List.pairwise_cons] at hl
      have hrest : ∀ y ∈ rest, ¬ Row.clash y r := fun y hy => hr y (by simp [hy])
      simp only [place]
      split
      · rw [List.pairwise_cons]
        refine ⟨fun y hy => ?_, ih hl.2 hrest⟩
        rcases mem_place.mp hy with rfl | hy
        · exact hr x (by simp)
        · exact hl.1 y hy
      · rw [List.pairwise_cons]
        exact ⟨fun y hy h => hr y hy (Row.clash_symm h), hcons⟩

/-- A row that comes after all others is placed at the end. -/
theorem place_last {r : ρ} {l : List ρ} (h : ∀ x ∈ l, Row.before x r) :
    place r l = l ++ [r] := by
  induction l with
  | nil => rfl
  | cons x rest ih =>
      rw [place, if_pos (h x (by simp)), ih fun y hy => h y (by simp [hy])]
      rfl

/-- The table with `r` in it, unless a row clashes with it. -/
def insert? (t : Table ρ) (r : ρ) : Option (Table ρ) :=
  if h : ∀ x ∈ t.rows, ¬ Row.clash x r then
    some ⟨place r t.rows, pairwise_place t.ascending h, distinct_place t.distinct h⟩
  else
    none

theorem insert?_eq_none_iff {t : Table ρ} {r : ρ} :
    t.insert? r = none ↔ ∃ x ∈ t.rows, Row.clash x r := by
  simp only [insert?]
  split
  · rename_i h
    simp only [reduceCtorEq, false_iff, not_exists, not_and]
    exact h
  · rename_i h
    simpa using h

theorem rows_insert? {t u : Table ρ} {r : ρ} (h : t.insert? r = some u) :
    u.rows = place r t.rows := by
  simp only [insert?] at h
  split at h
  · cases h; rfl
  · cases h

theorem mem_insert? {t u : Table ρ} {r y : ρ} (h : t.insert? r = some u) :
    y ∈ u.rows ↔ y = r ∨ y ∈ t.rows := by
  rw [rows_insert? h, mem_place]

theorem rows_insert?_last {t u : Table ρ} {r : ρ} (h : t.insert? r = some u)
    (hr : ∀ x ∈ t.rows, Row.before x r) : u.rows = t.rows ++ [r] := by
  rw [rows_insert? h, place_last hr]

/-- The table with the row `old` exchanged for `new`, unless `new` clashes with
another row. -/
def replace [DecidableEq ρ] (t : Table ρ) (old new : ρ) : Option (Table ρ) :=
  (t.filter fun r => r ≠ old).insert? new

end Table

end BlobCache
