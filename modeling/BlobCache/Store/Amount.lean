import BlobCache.Word

/-!
# Amounts in 64 bits and beyond

Sizes and ids are signed 64-bit integers.  The recorded total of a store is
one too, but it is kept up to date by additions and subtractions that may
leave that range; from there on the sum is a double, that is, a whole number
known to 53 significant bits only.  When a sum is written back, a double that
lies strictly inside the 64-bit range becomes an integer again.
-/

namespace BlobCache

/-- The nearest number with at most 53 significant bits; of two equally near
ones, the one whose last bit is zero. -/
def roundNat (n : Nat) : Nat :=
  if n < 1 <<< 53 then n
  else
    let unit := 1 <<< (n.log2 - 52)
    let q := n / unit
    let r := n % unit
    if unit < 2 * r ∨ (2 * r = unit ∧ q % 2 = 1) then (q + 1) * unit else q * unit

theorem roundNat_of_lt {n : Nat} (h : n < 1 <<< 53) : roundNat n = n := by
  rw [roundNat, if_pos h]

/-- The double nearest to a whole number. -/
def roundInt : Int → Int
  | .ofNat n => .ofNat (roundNat n)
  | .negSucc n => -(Int.ofNat (roundNat (n + 1)))

/-- What a column of sums can hold, and what its arithmetic produces. -/
inductive Amount where
  /-- A signed 64-bit integer. -/
  | integer (n : Int)
  /-- A double; the ones that sums of integers reach are whole numbers. -/
  | real (n : Int)
deriving DecidableEq, Repr

namespace Amount

/-- The number nearest to `n` that the arithmetic can express. -/
def ofInt (n : Int) (a b : Int) (op : Int → Int → Int) : Amount :=
  if Fits n then integer n else real (roundInt (op (roundInt a) (roundInt b)))

/-- Addition of an integer: exact while it stays in range, and in doubles once
it leaves the range. -/
def add (t : Amount) (n : Int) : Amount :=
  match t with
  | integer m => ofInt (m + n) m n (· + ·)
  | real m => real (roundInt (m + roundInt n))

/-- Subtraction of an integer, by the same rule. -/
def sub (t : Amount) (n : Int) : Amount :=
  match t with
  | integer m => ofInt (m - n) m n (· - ·)
  | real m => real (roundInt (m - roundInt n))

/-- What is left in the table when the amount is written: a double strictly
inside the 64-bit range is stored as an integer. -/
def stored : Amount → Amount
  | integer n => integer n
  | real n => if smallest < n ∧ n < largest then integer n else real n

@[simp] theorem stored_integer (n : Int) : (integer n).stored = integer n := rfl

theorem add_integer {m n : Int} (h : Fits (m + n)) :
    (integer m).add n = integer (m + n) := by
  simp only [add, ofInt, if_pos h]

theorem sub_integer {m n : Int} (h : Fits (m - n)) :
    (integer m).sub n = integer (m - n) := by
  simp only [sub, ofInt, if_pos h]

end Amount

/-- A column added to `start` row by row; `none` as soon as a partial sum
leaves the 64-bit range. -/
def checkedSum (start : Int) : List Int → Option Int
  | [] => some start
  | n :: rest => if Fits (start + n) then checkedSum (start + n) rest else none

end BlobCache
