/-!
# Words of 64 bits

The ranges of signed and unsigned 64-bit numbers.  Inside a database and in
configuration files numbers are kept in these ranges; byte counts outside the
database are unsigned, and their additions saturate.
-/

namespace BlobCache

/-- The largest signed 64-bit integer. -/
def largest : Int := 9223372036854775807

/-- The smallest signed 64-bit integer. -/
def smallest : Int := -9223372036854775808

/-- A number that 64 signed bits can hold. -/
abbrev Fits (n : Int) : Prop := smallest ≤ n ∧ n ≤ largest

/-- The largest unsigned 64-bit number. -/
def wordMax : Nat := 18446744073709551615

/-- Addition of byte counts, which stops at `wordMax`. -/
def satAdd (a b : Nat) : Nat := min (a + b) wordMax

theorem satAdd_eq {a b : Nat} (h : a + b ≤ wordMax) : satAdd a b = a + b :=
  Nat.min_eq_left h

theorem satAdd_le (a b : Nat) : satAdd a b ≤ a + b :=
  Nat.min_le_left _ _

end BlobCache
