import BlobCache.Store.Amount
import Mathlib

/-!
# What rounding does at the edge of 64 bits

A sum that leaves the 64-bit range is computed in doubles, and it is stored as an
integer again if the double lies inside the range.  It never does: a double near the
edge is a multiple of 1024, half of which is the most that rounding can lose, and a
tie goes over the edge (`le_roundNat_add`).  So a total that was changed by one size
and is an integer still was changed by exactly this size (`Amount.eq_of_stored_add`,
`Amount.eq_of_stored_sub`).
-/

namespace BlobCache

/-- A large number is rounded to a multiple of its unit, by half a unit at most, and
not below the power of two it starts with. -/
theorem roundNat_of_le {n : Nat} (h : 2 ^ 53 ≤ n) :
    2 ^ (n.log2 - 52) ∣ roundNat n ∧ 2 * n ≤ 2 * roundNat n + 2 ^ (n.log2 - 52) ∧
      2 ^ n.log2 ≤ roundNat n := by
  have hn : n ≠ 0 := by omega
  have hlog : 53 ≤ n.log2 := (Nat.le_log2 hn).mpr h
  have hsplit : 2 ^ n.log2 = 2 ^ 52 * 2 ^ (n.log2 - 52) := by
    rw [← Nat.pow_add]
    congr 1
    omega
  have hlow : 2 ^ n.log2 ≤ n := Nat.log2_self_le hn
  rw [roundNat, if_neg (by rw [Nat.one_shiftLeft]; omega), Nat.one_shiftLeft]
  simp only
  rw [hsplit] at hlow ⊢
  generalize hunit : 2 ^ (n.log2 - 52) = unit at hlow ⊢
  have hpos : 0 < unit := hunit ▸ Nat.two_pow_pos _
  have hdiv : n / unit * unit + n % unit = n := Nat.div_add_mod' n unit
  have hrest : n % unit < unit := Nat.mod_lt _ hpos
  have hquotient : 2 ^ 52 * unit ≤ n / unit * unit :=
    Nat.mul_le_mul_right _ ((Nat.le_div_iff_mul_le hpos).mpr hlow)
  split
  · rw [Nat.succ_mul]
    exact ⟨⟨n / unit + 1, by ring⟩, by omega, by omega⟩
  · exact ⟨Nat.dvd_mul_left _ _, by omega, hquotient⟩

/-- Below half of the edge, rounding loses less than a unit, which divides 512. -/
theorem roundNat_of_lt_half {n : Nat} (h : n < 2 ^ 62) :
    ∃ k ≤ 9, 2 ^ k ∣ roundNat n ∧ n < roundNat n + 2 ^ k := by
  by_cases hsmall : n < 2 ^ 53
  · exact ⟨0, by omega, by simp, by rw [roundNat_of_lt hsmall]; omega⟩
  · have hn : n ≠ 0 := by omega
    have hlog : n.log2 < 62 := (Nat.log2_lt hn).mpr h
    obtain ⟨hunit, hloss, -⟩ := roundNat_of_le (Nat.not_lt.mp hsmall)
    refine ⟨n.log2 - 52, by omega, hunit, ?_⟩
    have := Nat.two_pow_pos (n.log2 - 52)
    omega

/-- In the upper half, the unit is 1024. -/
theorem roundNat_of_half {n : Nat} (hlow : 2 ^ 62 ≤ n) (hhigh : n < 2 ^ 63) :
    2 ^ 10 ∣ roundNat n ∧ n ≤ roundNat n + 512 ∧ 2 ^ 62 ≤ roundNat n := by
  have hlog : n.log2 = 62 := (Nat.log2_eq_iff (by omega)).mpr ⟨hlow, hhigh⟩
  have hround := roundNat_of_le (n := n) (by omega)
  rw [hlog] at hround
  exact ⟨hround.1, by omega, hround.2.2⟩

/-- Numbers from half a unit below the edge on are rounded to the edge at least. -/
theorem le_roundNat {n : Nat} (h : 2 ^ 63 - 512 ≤ n) : 2 ^ 63 ≤ roundNat n := by
  by_cases hn : n < 2 ^ 63
  · -- the multiples of 1024 next to `n` are the edge and one whose last bit is set
    have hlog : n.log2 = 62 := (Nat.log2_eq_iff (by omega)).mpr ⟨by omega, hn⟩
    rw [roundNat, if_neg (by rw [Nat.one_shiftLeft]; omega), hlog]
    simp only [Nat.one_shiftLeft, Nat.reduceSub, Nat.reducePow]
    split <;> omega
  · have hlog : 63 ≤ n.log2 := (Nat.le_log2 (by omega)).mpr (Nat.not_lt.mp hn)
    exact (Nat.pow_le_pow_right (by omega) hlog).trans (roundNat_of_le (by omega)).2.2

/-- A number above the half and one below, each rounded, add up to hardly less than
the numbers do. -/
theorem le_roundNat_add_of_half {a b : Nat} (ha : 2 ^ 62 ≤ a) (ha' : a < 2 ^ 63)
    (hb : b < 2 ^ 62) (h : 2 ^ 63 ≤ a + b) : 2 ^ 63 - 512 ≤ roundNat a + roundNat b := by
  obtain ⟨hdvd, hlossA, -⟩ := roundNat_of_half ha ha'
  obtain ⟨k, hk, hdvdB, hlossB⟩ := roundNat_of_lt_half hb
  have hdvdA : 2 ^ k ∣ roundNat a := (pow_dvd_pow 2 (by omega)).trans hdvd
  obtain ⟨t, ht⟩ : 2 ^ k ∣ roundNat a + roundNat b := Nat.dvd_add hdvdA hdvdB
  obtain ⟨c, hc⟩ : 2 ^ k ∣ 2 ^ 63 - 512 := (pow_dvd_pow 2 hk).trans (by decide)
  have hlt : 2 ^ k * c < 2 ^ k * (t + 1) := by
    rw [Nat.mul_succ, ← ht, ← hc]
    omega
  have hle : c ≤ t := Nat.le_of_lt_succ (Nat.lt_of_mul_lt_mul_left hlt)
  calc 2 ^ 63 - 512 = 2 ^ k * c := hc
    _ ≤ 2 ^ k * t := Nat.mul_le_mul_left _ hle
    _ = roundNat a + roundNat b := ht.symm

/-- **Rounding does not lead back over the edge.** -/
theorem le_roundNat_add {a b : Nat} (h : 2 ^ 63 ≤ a + b) :
    2 ^ 63 ≤ roundNat (roundNat a + roundNat b) := by
  have hlarge {n : Nat} (hn : 2 ^ 62 ≤ n) : 2 ^ 62 ≤ roundNat n := by
    have hlog : 62 ≤ n.log2 := (Nat.le_log2 (by omega)).mpr hn
    exact (Nat.pow_le_pow_right (by omega) hlog).trans (roundNat_of_le (by omega)).2.2
  apply le_roundNat
  rcases Nat.lt_or_ge a (2 ^ 62) with hlowA | hhighA
  · rcases Nat.lt_or_ge b (2 ^ 63) with hltB | hgeB
    · rw [Nat.add_comm]
      exact le_roundNat_add_of_half (by omega) hltB hlowA (by omega)
    · have := le_roundNat (n := b) (by omega)
      omega
  · rcases Nat.lt_or_ge b (2 ^ 62) with hlowB | hhighB
    · rcases Nat.lt_or_ge a (2 ^ 63) with hltA | hgeA
      · exact le_roundNat_add_of_half hhighA hltA hlowB h
      · have := le_roundNat (n := a) (by omega)
        omega
    · have := hlarge hhighA
      have := hlarge hhighB
      omega

theorem roundInt_natCast (n : Nat) : roundInt n = roundNat n := rfl

theorem roundInt_neg (n : Int) : roundInt (-n) = -roundInt n := by
  match n with
  | .ofNat 0 => rfl
  | .ofNat (k + 1) => rfl
  | .negSucc k => exact (Int.neg_neg _).symm

namespace Amount

/-- What leaves the range in doubles stays outside when it is stored. -/
theorem stored_roundInt {m n : Int} (hm : -2 ^ 63 ≤ m ∧ m ≤ 2 ^ 63)
    (hn : -2 ^ 63 ≤ n ∧ n ≤ 2 ^ 63) (h : ¬ Fits (m + n)) :
    (real (roundInt (roundInt m + roundInt n))).stored =
      real (roundInt (roundInt m + roundInt n)) := by
  -- both summands have the sign of the sum
  have hup {a b : Int} (ha : a ≤ 2 ^ 63) (hb : b ≤ 2 ^ 63) (hsum : 2 ^ 63 ≤ a + b) :
      2 ^ 63 ≤ roundInt (roundInt a + roundInt b) := by
    lift a to Nat using by omega
    lift b to Nat using by omega
    have := le_roundNat_add (a := a) (b := b) (by omega)
    rw [roundInt_natCast, roundInt_natCast, ← Int.natCast_add, roundInt_natCast]
    omega
  rw [stored, if_neg]
  simp only [Fits, smallest, largest] at h ⊢
  rcases Int.lt_or_le (m + n) 0 with hneg | hpos
  · have hdown := hup (a := -m) (b := -n) (by omega) (by omega) (by omega)
    rw [roundInt_neg, roundInt_neg, ← Int.neg_add, roundInt_neg] at hdown
    omega
  · have := hup hm.2 hn.2 (by omega)
    omega

/-- A sum of counts that 64 bits cannot hold is stored as a double. -/
theorem stored_add_of_overflow {m n : Nat} (h : largest < m + n) :
    ∃ k, ((integer m).add n).stored = real k := by
  have hround := le_roundNat_add (a := m) (b := n) (by simp only [largest] at h; omega)
  have hfits : ¬ Fits ((m : Int) + n) := fun hfits => Int.not_le.mpr h hfits.2
  refine ⟨roundInt (roundInt m + roundInt n), ?_⟩
  rw [add, ofInt, if_neg hfits, roundInt_natCast, roundInt_natCast, ← Int.natCast_add,
    roundInt_natCast, stored, if_neg]
  simp only [largest]
  omega

/-- An integer that was an integer before one size was added is the exact sum. -/
theorem eq_of_stored_add {m n k : Int} (hm : Fits m) (hn : Fits n)
    (h : ((integer m).add n).stored = integer k) : k = m + n := by
  by_cases hfits : Fits (m + n)
  · rw [add_integer hfits] at h
    exact (Amount.integer.inj h).symm
  · simp only [Fits, smallest, largest] at hm hn
    rw [add, ofInt, if_neg hfits, stored_roundInt (by omega) (by omega) hfits] at h
    cases h

/-- An integer that was an integer before one size was subtracted is the exact
difference. -/
theorem eq_of_stored_sub {m n k : Int} (hm : Fits m) (hn : Fits n)
    (h : ((integer m).sub n).stored = integer k) : k = m - n := by
  by_cases hfits : Fits (m - n)
  · rw [sub_integer hfits] at h
    exact (Amount.integer.inj h).symm
  · have hneg : roundInt m - roundInt n = roundInt m + roundInt (-n) := by
      rw [roundInt_neg]
      rfl
    simp only [Fits, smallest, largest] at hm hn
    rw [sub, ofInt, if_neg hfits, hneg, stored_roundInt (by omega) (by omega)
      (by rwa [← Int.sub_eq_add_neg])] at h
    cases h

end Amount

end BlobCache
