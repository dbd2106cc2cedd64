import Mathlib.Algebra.Order.Field.Basic
import Mathlib.Tactic.Linarith
import Mathlib.Tactic.Ring

namespace Wordflow.Library

/-- A number, or what a division by zero gives. -/
inductive Number (K : Type*)
  | real (x : K)
  | undefined
  deriving DecidableEq, Repr

namespace Number

variable {K : Type*}

def map (f : K → K) : Number K → Number K
  | real x => real (f x)
  | undefined => undefined

def map₂ (f : K → K → K) : Number K → Number K → Number K
  | real x, real y => real (f x y)
  | _, _ => undefined

instance [Add K] : Add (Number K) := ⟨map₂ (· + ·)⟩
instance [Sub K] : Sub (Number K) := ⟨map₂ (· - ·)⟩
instance [Mul K] : Mul (Number K) := ⟨map₂ (· * ·)⟩
instance [Max K] : Max (Number K) := ⟨map₂ max⟩
instance [Min K] : Min (Number K) := ⟨map₂ min⟩

instance [Div K] [Zero K] [DecidableEq K] : Div (Number K) := ⟨fun
  | real x, real y => if y = 0 then undefined else real (x / y)
  | _, _ => undefined⟩

/-- An undefined value is above nothing and below nothing. -/
def holds (p : K → K → Bool) : Number K → Number K → Bool
  | real x, real y => p x y
  | _, _ => false

@[simp]
theorem real_add [Add K] (x y : K) : real x + real y = real (x + y) := rfl

@[simp]
theorem real_sub [Sub K] (x y : K) : real x - real y = real (x - y) := rfl

@[simp]
theorem real_mul [Mul K] (x y : K) : real x * real y = real (x * y) := rfl

@[simp]
theorem real_max [Max K] (x y : K) : max (real x) (real y) = real (max x y) := rfl

theorem real_div [Div K] [Zero K] [DecidableEq K] (x : K) {y : K} (h : y ≠ 0) : real x / real y = real (x / y) :=
  if_neg h

end Number

/-- A logarithm turns products into sums and stays above what the inverse leaves of one. -/
structure Logarithm (K : Type*) [Field K] [LinearOrder K] where
  ln : K → K
  ln_mul : ∀ x y, 0 < x → 0 < y → ln (x * y) = ln x + ln y
  lt_ln : ∀ x, 0 < x → x ≠ 1 → 1 - x⁻¹ < ln x

namespace Logarithm

variable {K : Type*} [Field K] [LinearOrder K] [IsStrictOrderedRing K] (log : Logarithm K) {x f e floor : K}

theorem ln_one : log.ln 1 = 0 := by
  have h := log.ln_mul 1 1 zero_lt_one zero_lt_one
  rw [one_mul] at h
  exact left_eq_add.mp h

theorem ln_nonneg (h : 1 ≤ x) : 0 ≤ log.ln x := by
  rcases h.eq_or_lt with rfl | h
  · exact log.ln_one.ge
  · have hbound := log.lt_ln x (zero_lt_one.trans h) h.ne'
    have hinv : x⁻¹ < 1 := inv_lt_one_of_one_lt₀ h
    linarith

/-- The logarithm of four is above one. -/
theorem one_lt_ln (h : 4 ≤ x) : 1 < log.ln x := by
  have htwo : (0 : K) < 2 := two_pos
  have hhalf := log.lt_ln 2 htwo (by norm_num)
  have hquarter : (1 : K) ≤ x / 4 := (one_le_div four_pos).mpr h
  have hsplit : log.ln x = log.ln 2 + log.ln 2 + log.ln (x / 4) := by
    rw [← log.ln_mul 2 2 htwo htwo, ← log.ln_mul _ _ (mul_pos htwo htwo) (zero_lt_one.trans_le hquarter)]
    congr 1
    ring
  have hrest := log.ln_nonneg hquarter
  rw [hsplit]
  linarith

theorem sub_lt_mul_ln (hf : 0 < f) (he : 0 < e) (hne : f ≠ e) : f - e < f * log.ln (f / e) := by
  have hratio : f / e ≠ 1 := fun h => hne ((div_eq_one_iff_eq he.ne').mp h)
  have hbound := mul_lt_mul_of_pos_left (log.lt_ln (f / e) (div_pos hf he) hratio) hf
  have hleft : f * (1 - (f / e)⁻¹) = f - e := by
    rw [inv_div, mul_sub, mul_one, mul_div_cancel₀ e hf.ne']
  rwa [hleft] at hbound

/-- A count against what is expected of it, where what is expected is not taken below a floor. -/
def surprise (ln : K → K) (floor f e : K) : K := if 0 < f then f * ln (f / max e floor) else 0

theorem sub_lt_surprise (hfloor : 0 < floor) (hsmall : floor ≤ 1 / 4) (hf : 1 ≤ f) (he : 0 < e) (hne : f ≠ e) :
    f - e < surprise log.ln floor f e := by
  have hpos : 0 < f := zero_lt_one.trans_le hf
  rw [surprise, if_pos hpos]
  rcases le_total floor e with h | h
  · rw [max_eq_left h]
    exact log.sub_lt_mul_ln hpos he hne
  · rw [max_eq_right h]
    have hfour : 4 ≤ f / floor := by
      rw [le_div_iff₀ hfloor]
      linarith
    have hmul : f * 1 < f * log.ln (f / floor) := mul_lt_mul_of_pos_left (log.one_lt_ln hfour) hpos
    linarith

theorem sub_le_surprise (hfloor : 0 < floor) (hsmall : floor ≤ 1 / 4) (hf : f = 0 ∨ 1 ≤ f) (he : 0 < e) :
    f - e ≤ surprise log.ln floor f e := by
  rcases hf with rfl | hf
  · rw [surprise, if_neg (lt_irrefl 0), zero_sub]
    exact (neg_neg_of_pos he).le
  · rcases eq_or_ne f e with rfl | hne
    · have hone : f / max f floor = 1 := by
        rw [max_eq_left (by linarith), div_self (by linarith)]
      rw [surprise, if_pos he, hone, log.ln_one, mul_zero, sub_self]
    · exact (log.sub_lt_surprise hfloor hsmall hf he hne).le

/-- Two counts that are not what is expected of them are more surprising than they are not. -/
theorem surprise_add_pos {f' e' : K} (hfloor : 0 < floor) (hsmall : floor ≤ 1 / 4) (hf : 1 ≤ f) (hf' : f' = 0 ∨ 1 ≤ f')
    (he : 0 < e) (he' : 0 < e') (hsum : f + f' = e + e') (hne : f ≠ e) :
    0 < surprise log.ln floor f e + surprise log.ln floor f' e' := by
  have hfirst := log.sub_lt_surprise hfloor hsmall hf he hne
  have hsecond := log.sub_le_surprise hfloor hsmall hf' he'
  linarith

end Logarithm

end Wordflow.Library
