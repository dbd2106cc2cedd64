import Mathlib.Algebra.Order.Field.Rat
import Mathlib.Algebra.Order.Field.Power
import Mathlib.Tactic.NormNum

namespace Wordflow.Library.Binary64

/-- The bits of a double. -/
abbrev F64 := BitVec 64

def negative (b : F64) : Bool := b.toNat / 2 ^ 63 = 1

def exponent (b : F64) : Nat := b.toNat / 2 ^ 52 % 2 ^ 11

def fraction (b : F64) : Nat := b.toNat % 2 ^ 52

def magnitude (b : F64) : ℚ :=
  if exponent b = 0 then fraction b * 2 ^ (-1074 : ℤ)
  else (2 ^ 52 + fraction b : ℕ) * 2 ^ ((exponent b : ℤ) - 1075)

/-- The number that a finite double stands for. -/
def value (b : F64) : Option ℚ :=
  if exponent b = 2047 then none else some (if negative b then -magnitude b else magnitude b)

/-- The nearest integer to a quotient, and the even one of two. -/
def roundEven (n d : Nat) : Nat :=
  if 2 * (n % d) < d ∨ 2 * (n % d) = d ∧ n / d % 2 = 0 then n / d else n / d + 1

/-- A positive integer with 53 bits. -/
def significand (n : Nat) : Nat :=
  if n.log2 ≤ 52 then n * 2 ^ (52 - n.log2) else roundEven n (2 ^ (n.log2 - 52))

/-- The bits without the sign. Where rounding adds a bit, it is carried into the exponent. -/
def unsignedBits (n : Nat) : Nat := if n = 0 then 0 else (n.log2 + 1022) * 2 ^ 52 + significand n

/-- The nearest double to an integer. -/
def ofInt (v : Int) : F64 := BitVec.ofNat 64 ((if v < 0 then 2 ^ 63 else 0) + unsignedBits v.natAbs)

variable {n : Nat} {v : Int}

theorem significand_exact (hn : n ≠ 0) (h : n ≤ 2 ^ 53) :
    significand n * 2 ^ n.log2 = n * 2 ^ 52 ∧ 2 ^ 52 ≤ significand n ∧ significand n < 2 ^ 53 := by
  have hlow : 2 ^ n.log2 ≤ n := Nat.log2_self_le hn
  have hhigh : n < 2 ^ (n.log2 + 1) := Nat.lt_log2_self
  by_cases hsmall : n.log2 ≤ 52
  · rw [significand, if_pos hsmall]
    have hsplit : 2 ^ (52 - n.log2) * 2 ^ n.log2 = 2 ^ 52 := by rw [← Nat.pow_add, Nat.sub_add_cancel hsmall]
    refine ⟨by rw [Nat.mul_assoc, hsplit], ?_, ?_⟩
    · calc 2 ^ 52 = 2 ^ n.log2 * 2 ^ (52 - n.log2) := by rw [Nat.mul_comm, hsplit]
        _ ≤ n * 2 ^ (52 - n.log2) := Nat.mul_le_mul_right _ hlow
    · calc n * 2 ^ (52 - n.log2) < 2 ^ (n.log2 + 1) * 2 ^ (52 - n.log2) :=
            Nat.mul_lt_mul_of_pos_right hhigh (Nat.two_pow_pos _)
        _ = 2 ^ 53 := by rw [← Nat.pow_add]; congr 1; omega
  · have hlarge : 53 ≤ n.log2 := by omega
    have hn : n = 2 ^ 53 := Nat.le_antisymm h ((Nat.pow_le_pow_right Nat.two_pos hlarge).trans hlow)
    have hlog : n.log2 = 53 := by rw [hn, Nat.log2_two_pow]
    rw [significand, if_neg hsmall, hlog, hn]
    decide

theorem log2_le (h : n ≤ 2 ^ 53) : n.log2 ≤ 53 := by
  by_cases hn : n = 0
  · rw [hn]
    decide
  · by_contra hlarge
    have hlow := (Nat.pow_le_pow_right Nat.two_pos (not_le.mp hlarge)).trans (Nat.log2_self_le hn)
    omega

/-- An integer of at most 53 bits is a double. -/
theorem ofInt_value (h : v.natAbs ≤ 2 ^ 53) : value (ofInt v) = some (v : ℚ) := by
  by_cases hv : v = 0
  · subst hv
    have hexponent : exponent (ofInt 0) = 0 := by decide
    have hfraction : fraction (ofInt 0) = 0 := by decide
    have hnegative : negative (ofInt 0) = false := by decide
    rw [value, magnitude, hexponent, hfraction, hnegative]
    simp
  have hn : v.natAbs ≠ 0 := Int.natAbs_ne_zero.mpr hv
  obtain ⟨hscale, hlow, hhigh⟩ := significand_exact hn h
  have hlog := log2_le h
  generalize hs : significand v.natAbs = s at hscale hlow hhigh
  generalize he : v.natAbs.log2 = e at hscale hlog
  have hbits : (ofInt v).toNat = (if v < 0 then 2 ^ 63 else 0) + (e + 1022) * 2 ^ 52 + s := by
    rw [ofInt, unsignedBits, if_neg hn, hs, he, BitVec.toNat_ofNat, Nat.mod_eq_of_lt]
    · exact (Nat.add_assoc _ _ _).symm
    · split <;> omega
  have hexponent : exponent (ofInt v) = e + 1023 := by
    rw [exponent, hbits]
    split <;> omega
  have hfraction : fraction (ofInt v) = s - 2 ^ 52 := by
    rw [fraction, hbits]
    split <;> omega
  have hnegative : negative (ofInt v) = decide (v < 0) := by
    rw [negative, hbits]
    split <;> simp only [decide_eq_decide] <;> omega
  have hmagnitude : magnitude (ofInt v) = (v.natAbs : ℚ) := by
    rw [magnitude, hexponent, if_neg (Nat.succ_ne_zero _), hfraction, Nat.add_sub_cancel' hlow]
    have hcast : (s : ℚ) * 2 ^ e = v.natAbs * 2 ^ 52 := by exact_mod_cast hscale
    have hpower : (2 : ℚ) ^ (((e + 1023 : ℕ) : ℤ) - 1075) = 2 ^ e / 2 ^ 52 := by
      have hshift : ((e + 1023 : ℕ) : ℤ) - 1075 = (e : ℤ) - (52 : ℕ) := by omega
      rw [hshift, zpow_sub₀ two_ne_zero, zpow_natCast, zpow_natCast]
    rw [hpower, ← mul_div_assoc, hcast, mul_div_cancel_right₀]
    exact pow_ne_zero _ two_ne_zero
  rw [value, if_neg (by omega), hnegative, hmagnitude, Option.some_inj]
  by_cases hneg : v < 0
  · rw [if_pos (decide_eq_true hneg), ← Int.cast_natCast, ← Int.cast_neg, Int.ofNat_natAbs_of_nonpos hneg.le, neg_neg]
  · rw [if_neg fun h => hneg (of_decide_eq_true h), ← Int.cast_natCast, Int.natAbs_of_nonneg (not_lt.mp hneg)]

end Wordflow.Library.Binary64
