import Mathlib.Algebra.Order.Floor.Ring
import Mathlib.Data.List.TakeWhile
import Mathlib.Data.Rat.Floor
import Mathlib.Tactic.FieldSimp
import Mathlib.Tactic.Positivity
import Mathlib.Tactic.Ring

namespace Wordflow.Library.Decimal

/-- A fixed-point number: an integer that counts units of `10 ^ -scale`. -/
structure Fixed where
  unscaled : Int
  scale : Nat
  deriving DecidableEq

def Fixed.value (v : Fixed) : ℚ := v.unscaled / 10 ^ v.scale

/-- The count of units of a finer scale. -/
def Fixed.rescale (v : Fixed) (scale : Nat) : Int := v.unscaled * 10 ^ (scale - v.scale)

def signed (negative : Bool) (n : Nat) : Int := if negative then -n else n

def sign (n : Int) : List Char := if n < 0 then ['-'] else []

def lpad (text : List Char) (length : Nat) (pad : Char) : List Char :=
  if text.length < length then List.replicate (length - text.length) pad ++ text else text.take length

def digits (n : Nat) : List Char := Nat.toDigits 10 n

def fraction (scale : Nat) (n : Nat) : List Char :=
  if scale = 0 then [] else '.' :: lpad (digits (n % 10 ^ scale)) scale '0'

/-- The canonical text of `n` units of `10 ^ -scale`. -/
def chars (scale : Nat) (n : Int) : List Char :=
  sign n ++ digits (n.natAbs / 10 ^ scale) ++ fraction scale n.natAbs

def unsigned (text : List Char) : List Char := if text.head? = some '-' then text.drop 1 else text

/-- The number a decimal text stands for, with the count of its fractional digits. -/
def read (text : List Char) : Fixed :=
  let whole := (unsigned text).takeWhile (· ≠ '.')
  let fraction := ((unsigned text).dropWhile (· ≠ '.')).drop 1
  ⟨signed (text.head? = some '-') (Nat.ofDigitChars 10 (whole ++ fraction) 0), fraction.length⟩

section Values

theorem Fixed.rescale_value {v : Fixed} {scale : Nat} (h : v.scale ≤ scale) :
    (v.rescale scale : ℚ) / 10 ^ scale = v.value := by
  have hpow : (10 : ℚ) ^ scale = 10 ^ (scale - v.scale) * 10 ^ v.scale := by
    rw [← pow_add, Nat.sub_add_cancel h]
  rw [Fixed.rescale, Fixed.value, hpow]
  push_cast
  field_simp

/-- Truncating division, corrected where the remainder is negative, rounds down. -/
theorem floor_correction {a w : Int} (hw : 0 < w) :
    a.tdiv w - (if a.tmod w < 0 then 1 else 0) = a / w := by
  have hbelow : a % w < w := Int.emod_lt_of_pos a hw
  have hnonneg : 0 ≤ a % w := Int.emod_nonneg a hw.ne'
  rw [Int.tdiv_eq_ediv, Int.tmod_eq_emod, Int.sign_eq_one_of_pos hw]
  by_cases h : 0 ≤ a ∨ w ∣ a
  · rw [if_pos h, if_pos h, if_neg (by omega)]
    omega
  · rw [if_neg h, if_neg h, if_pos (by omega)]
    omega

theorem ediv_eq_floor (a : Int) {w : Int} (hw : 0 < w) (scale : Nat) :
    a / w = ⌊((a : ℚ) / 10 ^ scale) / ((w : ℚ) / 10 ^ scale)⌋ := by
  lift w to Nat using hw.le
  rw [div_div_div_cancel_right₀ (by positivity)]
  exact (Rat.floor_intCast_div_natCast a w).symm

end Values

section Digits

theorem lpad_length (text : List Char) (length : Nat) (pad : Char) : (lpad text length pad).length = length := by
  rw [lpad]
  split
  · rw [List.length_append, List.length_replicate]
    omega
  · rw [List.length_take]
    omega

theorem lpad_short {text : List Char} {length : Nat} (pad : Char) (h : text.length ≤ length) :
    lpad text length pad = List.replicate (length - text.length) pad ++ text := by
  rw [lpad]
  split
  · rfl
  · have heq : text.length = length := by omega
    simp [← heq]

theorem digits_isDigit {n : Nat} {c : Char} (h : c ∈ digits n) : c.isDigit :=
  Nat.isDigit_of_mem_toDigits (by decide) (by decide) h

theorem digits_length {n scale : Nat} (hscale : 0 < scale) (h : n < 10 ^ scale) : (digits n).length ≤ scale :=
  (Nat.length_toDigits_le_iff (by decide) hscale).mpr h

theorem lpad_isDigit {n scale : Nat} {c : Char} (h : c ∈ lpad (digits n) scale '0') : c.isDigit := by
  rw [lpad] at h
  split at h
  · rcases List.mem_append.mp h with h | h
    · rw [List.eq_of_mem_replicate h]
      rfl
    · exact digits_isDigit h
  · exact digits_isDigit (List.mem_of_mem_take h)

theorem digits_value (n : Nat) : Nat.ofDigitChars 10 (digits n) 0 = n := Nat.ofDigitChars_ten_toDigits

theorem padded_value {n scale : Nat} (hscale : 0 < scale) :
    Nat.ofDigitChars 10 (lpad (digits (n % 10 ^ scale)) scale '0') 0 = n % 10 ^ scale := by
  have hlt : n % 10 ^ scale < 10 ^ scale := Nat.mod_lt _ (by positivity)
  rw [lpad_short _ (digits_length hscale hlt), Nat.ofDigitChars_append, Nat.ofDigitChars_replicate_zero,
    Nat.mul_zero, digits_value]

/-- The whole part and the padded fraction together hold every digit. -/
theorem parts_value {n scale : Nat} (hscale : 0 < scale) :
    Nat.ofDigitChars 10 (digits (n / 10 ^ scale) ++ lpad (digits (n % 10 ^ scale)) scale '0') 0 = n := by
  rw [Nat.ofDigitChars_append, digits_value, Nat.ofDigitChars_eq_ofDigitChars_zero, lpad_length,
    padded_value hscale]
  exact Nat.div_add_mod n _

theorem ofDigitChars_pos {text : List Char} {init : Nat}
    (h : 0 < init ∨ ∃ c ∈ text, c.isDigit ∧ c ≠ '0') : 0 < Nat.ofDigitChars 10 text init := by
  induction text generalizing init with
  | nil =>
      rcases h with h | ⟨c, hc, -⟩
      · simpa using h
      · cases hc
  | cons c text ih =>
      rw [Nat.ofDigitChars_cons]
      apply ih
      rcases h with h | ⟨d, hd, hdigit, hne⟩
      · exact .inl (by omega)
      · rcases List.mem_cons.mp hd with rfl | hd
        · have hrange := Char.isDigit_iff_toNat.mp hdigit
          have hzero : d.toNat ≠ '0'.toNat := fun heq => hne (Char.toNat_inj.mp heq)
          have hbase : '0'.toNat = 48 := rfl
          exact .inl (by omega)
        · exact .inr ⟨d, hd, hdigit, hne⟩

end Digits

section Reading

theorem not_mem_of_isDigit {text : List Char} {c : Char} (h : ∀ d ∈ text, d.isDigit) (hc : ¬c.isDigit) :
    c ∉ text := fun hmem => hc (h c hmem)

theorem signed_natAbs (n : Int) : signed (decide (n < 0)) n.natAbs = n := by
  rw [signed]
  split
  · rename_i h
    have hneg : n < 0 := by simpa using h
    omega
  · rename_i h
    have hnonneg : ¬n < 0 := by simpa using h
    omega

theorem head_sign {n : Int} {body : List Char} (h : '-' ∉ body) :
    ((sign n ++ body).head? = some '-') ↔ n < 0 := by
  rw [sign]
  split
  · rename_i hneg
    simp [hneg]
  · rename_i hneg
    simp only [List.nil_append, hneg, iff_false]
    intro hhead
    exact h (List.mem_of_mem_head? hhead)

theorem unsigned_sign {n : Int} {body : List Char} (h : '-' ∉ body) : unsigned (sign n ++ body) = body := by
  rw [unsigned]
  by_cases hneg : n < 0
  · rw [if_pos ((head_sign h).mpr hneg)]
    simp [sign, hneg]
  · rw [if_neg (mt (head_sign h).mp hneg)]
    simp [sign, hneg]

theorem digits_no_point {text : List Char} (h : ∀ c ∈ text, c.isDigit) : ∀ c ∈ text, decide (c ≠ '.') = true := by
  intro c hc
  have hne : c ≠ '.' := fun heq => not_mem_of_isDigit h (c := '.') (by decide) (heq ▸ hc)
  simpa using hne

theorem read_plain {text whole : List Char} (hwhole : ∀ c ∈ whole, c.isDigit) (h : unsigned text = whole) :
    read text = ⟨signed (text.head? = some '-') (Nat.ofDigitChars 10 whole 0), 0⟩ := by
  have hpoint := digits_no_point hwhole
  rw [read, h, List.takeWhile_eq_self_iff.mpr hpoint, List.dropWhile_eq_nil_iff.mpr hpoint]
  simp

theorem read_point {text whole fraction : List Char} (hwhole : ∀ c ∈ whole, c.isDigit)
    (h : unsigned text = whole ++ '.' :: fraction) :
    read text = ⟨signed (text.head? = some '-') (Nat.ofDigitChars 10 (whole ++ fraction) 0), fraction.length⟩ := by
  have hpoint := digits_no_point hwhole
  rw [read, h, List.takeWhile_append_of_pos hpoint, List.dropWhile_append_of_pos hpoint]
  simp

theorem read_whole {n : Int} {whole : List Char} (hwhole : ∀ c ∈ whole, c.isDigit) :
    read (sign n ++ whole) = ⟨signed (decide (n < 0)) (Nat.ofDigitChars 10 whole 0), 0⟩ := by
  have hminus : '-' ∉ whole := not_mem_of_isDigit hwhole (by decide)
  have hhead := head_sign (n := n) hminus
  rw [read_plain hwhole (unsigned_sign hminus)]
  simp only [hhead]

theorem read_parts {n : Int} {whole fraction : List Char} (hwhole : ∀ c ∈ whole, c.isDigit)
    (hfraction : ∀ c ∈ fraction, c.isDigit) :
    read (sign n ++ whole ++ '.' :: fraction) =
      ⟨signed (decide (n < 0)) (Nat.ofDigitChars 10 (whole ++ fraction) 0), fraction.length⟩ := by
  have hminus : '-' ∉ whole ++ '.' :: fraction := by
    have h₁ : '-' ∉ whole := not_mem_of_isDigit hwhole (by decide)
    have h₂ : '-' ∉ fraction := not_mem_of_isDigit hfraction (by decide)
    simp [h₁, h₂]
  have hhead := head_sign (n := n) hminus
  rw [List.append_assoc, read_point hwhole (unsigned_sign hminus)]
  simp only [hhead]

/-- The canonical text reads back as the number it was written from. -/
theorem read_chars (scale : Nat) (n : Int) : read (chars scale n) = ⟨n, scale⟩ := by
  rw [chars, fraction]
  by_cases hscale : scale = 0
  · rw [if_pos hscale, List.append_nil, read_whole fun c hc => digits_isDigit hc, digits_value]
    simp [hscale, signed_natAbs]
  · have hpos : 0 < scale := by omega
    rw [if_neg hscale, read_parts (fun c hc => digits_isDigit hc) (fun c hc => lpad_isDigit hc),
      parts_value hpos, signed_natAbs, lpad_length]

theorem chars_injective (scale : Nat) : Function.Injective (chars scale) := by
  intro m n h
  have hread := congrArg (fun text => (read text).unscaled) h
  simpa [read_chars] using hread

theorem filter_digits {text : List Char} (h : ∀ c ∈ text, c.isDigit) : text.filter (· ≠ '.') = text :=
  List.filter_eq_self.mpr (digits_no_point h)

theorem filter_sign (n : Int) : (sign n).filter (· ≠ '.') = sign n := by
  rw [sign]
  split <;> rfl

theorem filter_point {n : Int} {whole : List Char} (h : ∀ c ∈ whole, c.isDigit) :
    (sign n ++ whole).filter (· ≠ '.') = sign n ++ whole := by
  rw [List.filter_append, filter_sign, filter_digits h]

/-- Without its point the text of a number reads as its count of units. -/
theorem read_filter {n : Int} {whole fraction : List Char} (hwhole : ∀ c ∈ whole, c.isDigit)
    (hfraction : ∀ c ∈ fraction, c.isDigit) :
    (read ((sign n ++ whole ++ '.' :: fraction).filter (· ≠ '.'))).unscaled =
      (read (sign n ++ whole ++ '.' :: fraction)).unscaled := by
  rw [read_parts hwhole hfraction]
  simp only [List.filter_append, List.filter_cons, filter_digits hwhole, filter_digits hfraction,
    filter_sign]
  simp only [ne_eq, not_true_eq_false, decide_false, Bool.false_eq_true, if_false]
  rw [List.append_assoc, read_whole]
  intro c hc
  rcases List.mem_append.mp hc with hc | hc
  · exact hwhole c hc
  · exact hfraction c hc

end Reading

end Wordflow.Library.Decimal
