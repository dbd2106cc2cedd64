import Mathlib.Data.List.DropRight
import Mathlib.Tactic.Linarith
import Wordflow.Library.Decimal
import Wordflow.Library.Text
import Wordflow.Plots.Projection

namespace Wordflow.Plots

open Library Library.Decimal Library.Fallible Library.Text Objects

def integers : List String :=
  ["TINYINT", "SMALLINT", "INTEGER", "BIGINT", "HUGEINT", "UTINYINT", "USMALLINT", "UINTEGER", "UBIGINT", "UHUGEINT"]

/-- The types of whole and of decimal numbers. -/
inductive Exact
  | integer (name : String) (h : name ∈ integers)
  | decimal (width scale : Nat) (h : scale ≤ width ∧ width ≤ 38)

def Exact.scale : Exact → Nat
  | .integer _ _ => 0
  | .decimal _ scale _ => scale

def decimalKind (width scale : Nat) : String :=
  String.ofList ("DECIMAL(".toList ++ digits width ++ ',' :: (digits scale ++ [')']))

/-- The type as `data_type` spells it. -/
def Exact.kind : Exact → String
  | .integer name _ => name
  | .decimal width scale _ => decimalKind width scale

/-- A whole number within a machine word. -/
def parse (text : List Char) : Option Nat :=
  let body := if text.head? = some '+' then text.drop 1 else text
  if body = [] ∨ !body.all Char.isDigit then none
  else
    let n := Nat.ofDigitChars 10 body 0
    if n < 2 ^ 64 then some n else none

def sourceScale (kind : String) : Nat :=
  if "DECIMAL(".toList.isPrefixOf kind.toList then
    let last := ((kind.toList.rdropWhile (· = ')')).splitOn ',').getLast?
    (last.bind fun s => parse (trim (String.ofList s)).toList).getD 0
  else 0

section Database

def conversionError : Error := ⟨"sql_error", "Conversion Error"⟩

def outOfRange : Error := ⟨"sql_error", "Out of Range Error"⟩

/-- `CAST(v AS DECIMAL(38, scale))`, as a count of units. -/
def castDecimal (scale : Nat) (v : Fixed) : Except Error Int :=
  if (v.rescale scale).natAbs < 10 ^ 38 then .ok (v.rescale scale) else .error conversionError

/-- The text of a `DECIMAL(38, scale)`. It has no whole part where every digit is a fractional one. -/
def varchar (scale : Nat) (n : Int) : List Char :=
  sign n ++ (if scale < 38 then digits (n.natAbs / 10 ^ scale) else []) ++ fraction scale n.natAbs

def hugeint (n : Int) : Except Error Int := if -2 ^ 127 ≤ n ∧ n < 2 ^ 127 then .ok n else .error outOfRange

def bigint (n : Int) : Except Error Int := if -2 ^ 63 ≤ n ∧ n < 2 ^ 63 then .ok n else .error conversionError

end Database

def scaled (scale : Nat) (v : Fixed) : Except Error Int := do
  let n ← castDecimal scale v
  hugeint (read ((varchar scale n).filter (· ≠ '.'))).unscaled

/-- What the expressions of a numeric interval hold, apart from the row. -/
structure Bins where
  scale : Nat
  width : Int
  /-- Absent where the origin is the smallest value and there is no value. -/
  origin : Option Int

/-- The interval of a column of whole or decimal numbers, whose cells are `axis`. -/
def numericInterval (kind width : String) (origin : Option String) (axis : List (Option Fixed)) : Except Error Bins := do
  let (_, wscale) ← decimal width
  let oscale ← match origin with
    | none => .ok 0
    | some origin => (decimal origin).map Prod.snd
  let scale := max (max wscale oscale) (sourceScale kind)
  let width ← scaled scale (read width.toList)
  let origin ← match origin with
    | some origin => (scaled scale (read origin.toList)).map some
    | none => ((axis.filterMap id).mapM (scaled scale)).map List.min?
  .ok ⟨scale, width, origin⟩

namespace Bins

/-- The bin of a cell, by division that truncates and a remainder with the sign of the dividend. -/
def index (b : Bins) (cell : Option Fixed) : Except Error (Option Int) :=
  match cell, b.origin with
  | some v, some origin => do
      let value ← scaled b.scale v
      let delta ← hugeint (value - origin)
      (hugeint (delta.tdiv b.width - if delta.tmod b.width < 0 then 1 else 0)).map some
  | _, _ => .ok none

/-- Where a bin starts, in units of the common scale. -/
def start (b : Bins) (bucket : Option Int) : Except Error (Option Int) :=
  match bucket, b.origin with
  | some bucket, some origin => do
      let offset ← hugeint (bucket * b.width)
      (hugeint (origin + offset)).map some
  | _, _ => .ok none

def key (b : Bins) (bucket : Option Int) : Except Error (Option String) := do
  let value ← b.start bucket
  if b.scale = 0 then .ok (value.map fun n => String.ofList (sign n ++ digits n.natAbs))
  else
    match value with
    -- `concat` leaves out what is NULL, but not the point.
    | none => .ok (some ".")
    | some n => do
        let magnitude ← hugeint n.natAbs
        let whole := digits (magnitude.natAbs / 10 ^ b.scale)
        let rest := lpad (digits (magnitude.natAbs % 10 ^ b.scale)) b.scale '0'
        .ok (some (String.ofList (sign n ++ whole ++ '.' :: rest)))

end Bins

section Types

theorem digits_ne_nil (n : Nat) : digits n ≠ [] := Nat.toDigits_ne_nil

theorem dropWhile_kept {text : List Char} (h : ∀ c ∈ text, isWhitespace c = false) :
    text.dropWhile isWhitespace = text := by
  cases text with
  | nil => rfl
  | cons c text => rw [List.dropWhile_cons, h c List.mem_cons_self, if_neg Bool.false_ne_true]

theorem trim_digits (n : Nat) : trim (String.ofList (digits n)) = String.ofList (digits n) := by
  have hkept : ∀ c ∈ digits n, isWhitespace c = false := by
    intro c hc
    have hdigit := Char.isDigit_iff_toNat.mp (digits_isDigit hc)
    grind [isWhitespace]
  have hreverse : ∀ c ∈ (digits n).reverse, isWhitespace c = false := fun c hc => hkept c (List.mem_reverse.mp hc)
  rw [trim, trimStart, trimEnd, String.toList_ofList, dropWhile_kept hkept, dropWhile_kept hreverse,
    List.reverse_reverse]

theorem parse_digits {n : Nat} (h : n < 2 ^ 64) : parse (digits n) = some n := by
  have hhead : (digits n).head? ≠ some '+' := by
    intro hhead
    have hplus : '+'.isDigit := digits_isDigit (List.mem_of_mem_head? hhead)
    exact absurd hplus (by decide)
  have hall : (digits n).all Char.isDigit := List.all_eq_true.mpr fun c hc => digits_isDigit hc
  have haccepted : ¬(digits n = [] ∨ !(digits n).all Char.isDigit) := by simp [digits_ne_nil, hall]
  simp only [parse]
  rw [if_neg hhead, if_neg haccepted, digits_value, if_pos h]

theorem toList_decimalKind (width scale : Nat) : (decimalKind width scale).toList =
    "DECIMAL(".toList ++ (digits width ++ ',' :: (digits scale ++ [')'])) :=
  String.toList_ofList.trans (List.append_assoc _ _ _)

theorem integers_plain : ∀ name ∈ integers, ¬"DECIMAL(".toList.isPrefixOf name.toList := by decide

theorem sourceScale_kind (t : Exact) : sourceScale t.kind = t.scale := by
  cases t with
  | integer name h =>
      have hplain : ¬"DECIMAL(".toList.isPrefixOf name.toList := integers_plain name h
      exact if_neg hplain
  | decimal width scale h =>
      have hopen : "DECIMAL(".toList.isPrefixOf (Exact.decimal width scale h).kind.toList := by
        rw [Exact.kind, toList_decimalKind]
        exact List.isPrefixOf_iff_prefix.mpr (List.prefix_append _ _)
      have hdrop : (Exact.decimal width scale h).kind.toList.rdropWhile (· = ')') =
          ("DECIMAL(".toList ++ digits width) ++ ',' :: digits scale := by
        have hshape : (decimalKind width scale).toList =
            (("DECIMAL(".toList ++ digits width) ++ ',' :: digits scale) ++ [')'] :=
          String.toList_ofList.trans (List.append_assoc _ (',' :: digits scale) _).symm
        rw [Exact.kind]
        rw [hshape, List.rdropWhile_concat_pos _ _ _ (by simp)]
        apply List.rdropWhile_eq_self_iff.mpr
        intro hne hlast
        have hclose : ')' ∈ digits scale := by
          rw [List.getLast_append_of_ne_nil _ (List.cons_ne_nil _ _), List.getLast_cons (digits_ne_nil scale)] at hlast
          rw [← of_decide_eq_true hlast]
          exact List.getLast_mem _
        exact absurd (digits_isDigit hclose) (by decide)
      have hlast : ((("DECIMAL(".toList ++ digits width) ++ ',' :: digits scale).splitOn ',').getLast? =
          some (digits scale) := by
        have hcomma : ',' ∉ digits scale := not_mem_of_isDigit (fun c hc => digits_isDigit hc) (by decide)
        rw [List.splitOn_append_cons_self, List.splitOn_eq_singleton hcomma, List.getLast?_concat]
      simp only [sourceScale, if_pos hopen, hdrop, hlast, Option.bind_some, trim_digits, String.toList_ofList]
      rw [parse_digits (by omega)]
      rfl

theorem integers_listed : ∀ name ∈ integers, name ∈ ["TINYINT", "SMALLINT", "INTEGER", "BIGINT", "HUGEINT", "UTINYINT",
    "USMALLINT", "UINTEGER", "UBIGINT", "UHUGEINT", "FLOAT", "DOUBLE"] := by decide

theorem numeric_integer {name : String} (h : name ∈ integers) : numeric name = true := by
  have hlisted := integers_listed name h
  rw [numeric, decide_eq_true hlisted, Bool.true_or]

theorem isPrefixOf_iff {p s : String} : p.isPrefixOf s = true ↔ p.toList <+: s.toList := String.startsWith_string_iff

/-- Every whole or decimal type is numeric for the validation. -/
theorem numeric_kind (t : Exact) : numeric t.kind = true := by
  cases t with
  | integer name h => exact numeric_integer h
  | decimal width scale h =>
      have hopen : "DECIMAL(".isPrefixOf (decimalKind width scale) = true := by
        rw [isPrefixOf_iff, toList_decimalKind]
        exact List.prefix_append _ _
      rw [numeric, Exact.kind, hopen, Bool.or_true]

end Types

section Numbers

variable {scale : Nat} {n : Int} {v : Fixed}

theorem read_varchar (h : n.natAbs < 10 ^ 38) (hscale : scale ≤ 38) :
    (read ((varchar scale n).filter (· ≠ '.'))).unscaled = n := by
  rw [varchar, fraction]
  by_cases hzero : scale = 0
  · subst hzero
    have hwhole : ∀ c ∈ digits n.natAbs, c.isDigit := fun c hc => digits_isDigit hc
    rw [if_pos (by decide), if_pos rfl, List.append_nil, pow_zero, Nat.div_one, filter_point hwhole,
      read_whole hwhole, digits_value]
    exact signed_natAbs n
  · have hpos : 0 < scale := by omega
    have hrest : ∀ c ∈ lpad (digits (n.natAbs % 10 ^ scale)) scale '0', c.isDigit := fun c hc => lpad_isDigit hc
    rw [if_neg hzero]
    split
    · have hwhole : ∀ c ∈ digits (n.natAbs / 10 ^ scale), c.isDigit := fun c hc => digits_isDigit hc
      rw [read_filter hwhole hrest, read_parts hwhole hrest, parts_value hpos]
      exact signed_natAbs n
    · have hfull : scale = 38 := by omega
      subst hfull
      have hwhole : ∀ c ∈ ([] : List Char), c.isDigit := List.forall_mem_nil _
      rw [read_filter hwhole hrest, read_parts hwhole hrest, List.nil_append, padded_value hpos,
        Nat.mod_eq_of_lt h]
      exact signed_natAbs n

theorem hugeint_ok (h : n.natAbs < 2 ^ 127) : hugeint n = .ok n := by
  rw [hugeint, if_pos]
  omega

/-- Scaling keeps the number. -/
theorem scaled_ok (hscale : scale ≤ 38) (h : (v.rescale scale).natAbs < 10 ^ 38) :
    scaled scale v = .ok (v.rescale scale) := by
  have hcast : castDecimal scale v = .ok (v.rescale scale) := by rw [castDecimal, if_pos h]
  rw [scaled, hcast]
  simp only [bind, Except.bind]
  rw [read_varchar h hscale]
  apply hugeint_ok
  omega

end Numbers

section Texts

variable {text : String} {result : String × Nat}

/-- An accepted decimal is digits with at most one point among them. -/
theorem decimal_parts (h : decimal text = .ok result) :
    ∃ whole fraction, (∀ c ∈ whole, c.isDigit) ∧ (∀ c ∈ fraction, c.isDigit) ∧ fraction.length ≤ 18 ∧
      (unsigned text.toList = whole ∧ fraction = [] ∨ unsigned text.toList = whole ++ '.' :: fraction) ∧
      result = (text, fraction.length) := by
  simp only [decimal] at h
  obtain ⟨haccepted, hresult⟩ := guard_eq_ok.mp h
  cases hresult
  have hjoin : ['.'].intercalate ((unsigned text.toList).splitOn '.') = unsigned text.toList := List.intercalate_splitOn '.'
  have hparts := List.splitOn_ne_nil '.' (unsigned text.toList)
  rw [← unsigned] at haccepted ⊢
  generalize (unsigned text.toList).splitOn '.' = parts at haccepted hjoin hparts ⊢
  push Not at haccepted
  obtain ⟨-, hwhole, hfraction, hlength, hcount⟩ := haccepted
  rcases parts with _ | ⟨whole, _ | ⟨fraction, rest⟩⟩
  · exact absurd rfl hparts
  · exact ⟨whole, [], by simpa using hwhole, List.forall_mem_nil _, Nat.zero_le _,
      .inl ⟨by simpa using hjoin.symm, rfl⟩, rfl⟩
  · have hnone : rest = [] := by
      apply List.length_eq_zero_iff.mp
      simp only [List.length_cons] at hcount
      omega
    subst hnone
    exact ⟨whole, fraction, by simpa using hwhole, by simpa using hfraction, by simpa using hlength,
      .inr (by simpa [List.intercalate, List.intersperse] using hjoin.symm), rfl⟩

theorem read_decimal {whole fraction : List Char} (hwhole : ∀ c ∈ whole, c.isDigit)
    (hshape : unsigned text.toList = whole ∧ fraction = [] ∨ unsigned text.toList = whole ++ '.' :: fraction) :
    read text.toList =
      ⟨signed (text.toList.head? = some '-') (Nat.ofDigitChars 10 (whole ++ fraction) 0), fraction.length⟩ := by
  rcases hshape with ⟨hshape, rfl⟩ | hshape
  · rw [List.append_nil]
    exact read_plain hwhole hshape
  · exact read_point hwhole hshape

theorem decimal_ok (h : decimal text = .ok result) : result.2 = (read text.toList).scale ∧ result.2 ≤ 18 := by
  obtain ⟨whole, fraction, hwhole, -, hlength, hshape, rfl⟩ := decimal_parts h
  rw [read_decimal hwhole hshape]
  exact ⟨rfl, hlength⟩

/-- A width with a digit other than zero and no sign is positive. -/
theorem width_pos (h : decimal text = .ok result) (hsign : text.toList.head? ≠ some '-')
    (hdigit : ∃ c ∈ text.toList, c.isDigit ∧ c ≠ '0') : 0 < (read text.toList).unscaled := by
  obtain ⟨whole, fraction, hwhole, -, -, hshape, -⟩ := decimal_parts h
  obtain ⟨c, hc, hisDigit, hne⟩ := hdigit
  have htext : unsigned text.toList = text.toList := if_neg hsign
  have hmem : c ∈ whole ++ fraction := by
    rw [← htext] at hc
    rcases hshape with ⟨hshape, -⟩ | hshape
    · rw [hshape] at hc
      exact List.mem_append_left _ hc
    · rw [hshape] at hc
      rcases List.mem_append.mp hc with hc | hc
      · exact List.mem_append_left _ hc
      · rcases List.mem_cons.mp hc with rfl | hc
        · exact absurd hisDigit (by decide)
        · exact List.mem_append_right _ hc
  have hpos : 0 < Nat.ofDigitChars 10 (whole ++ fraction) 0 := ofDigitChars_pos (.inr ⟨c, hmem, hisDigit, hne⟩)
  rw [read_decimal hwhole hshape]
  simpa [signed, hsign] using hpos

end Texts

/-- The bin of a number, over exact rationals. -/
def bin (width origin v : ℚ) : Int := ⌊(v - origin) / width⌋

/-- What the database can hold of a number and its bin, counted in units of the common scale. -/
structure InRange (scale : Nat) (width origin v : ℚ) : Prop where
  value : |v| * 10 ^ scale < 10 ^ 38
  span : (|v - origin| + width) * 10 ^ scale < 2 ^ 127
  reach : (|v| + width) * 10 ^ scale < 2 ^ 127
  index : -2 ^ 63 ≤ bin width origin v ∧ bin width origin v < 2 ^ 63

namespace Bins

/-- The expressions hold a width and an origin exactly. -/
structure Holds (b : Bins) (width origin : ℚ) : Prop where
  scale_le : b.scale ≤ 38
  pos : 0 < b.width
  width_eq : (b.width : ℚ) / 10 ^ b.scale = width
  origin_eq : ∃ o, b.origin = some o ∧ (o : ℚ) / 10 ^ b.scale = origin

variable {b : Bins} {width origin : ℚ} {v : Fixed}

theorem Holds.width_pos (hb : b.Holds width origin) : 0 < width := by
  have hpos : (0 : ℚ) < b.width := by exact_mod_cast hb.pos
  rw [← hb.width_eq]
  positivity

/-- A count of units below a bound, from the number it stands for. -/
theorem natAbs_lt {scale : Nat} {n : Int} {q : ℚ} {bound : Nat} (hq : (n : ℚ) / 10 ^ scale = q)
    (h : |q| * 10 ^ scale < bound) : n.natAbs < bound := by
  have hunits : q * 10 ^ scale = n := by
    rw [← hq]
    field_simp
  have habs : |(n : ℚ)| < bound := by
    calc
      |(n : ℚ)| = |q| * 10 ^ scale := by rw [← hunits, abs_mul, abs_of_pos (by positivity : (0 : ℚ) < 10 ^ scale)]
      _ < bound := h
  have hcast : ((n.natAbs : Int) : ℚ) < bound := by
    rw [Int.natCast_natAbs]
    exact_mod_cast habs
  exact_mod_cast hcast

theorem scaled_value {scale : Nat} (hscale : scale ≤ 38) (hv : v.scale ≤ scale)
    (h : |v.value| * 10 ^ scale < 10 ^ 38) : scaled scale v = .ok (v.rescale scale) := by
  apply scaled_ok hscale
  apply natAbs_lt (v.rescale_value hv)
  exact_mod_cast h

theorem index_ok (hb : b.Holds width origin) (hv : v.scale ≤ b.scale) (h : InRange b.scale width origin v.value) :
    b.index (some v) = .ok (some (bin width origin v.value)) := by
  obtain ⟨o, ho, hvalue⟩ := hb.origin_eq
  have hscaled := scaled_value hb.scale_le hv h.value
  have hdelta : ((v.rescale b.scale - o : Int) : ℚ) / 10 ^ b.scale = v.value - origin := by
    rw [Int.cast_sub, sub_div, v.rescale_value hv, hvalue]
  have hwidth := hb.width_pos
  have hspan : |v.value - origin| * 10 ^ b.scale < (2 ^ 127 : Nat) := by
    have hle : |v.value - origin| * 10 ^ b.scale ≤ (|v.value - origin| + width) * 10 ^ b.scale := by
      gcongr
      linarith
    exact_mod_cast lt_of_le_of_lt hle h.span
  have hbin : (v.rescale b.scale - o) / b.width = bin width origin v.value := by
    rw [ediv_eq_floor _ hb.pos b.scale, hdelta, hb.width_eq, bin]
  have hindex : hugeint (bin width origin v.value) = .ok (bin width origin v.value) := by
    obtain ⟨hlow, hhigh⟩ := h.index
    rw [hugeint, if_pos]
    omega
  simp only [index, ho, hscaled, bind, Except.bind]
  rw [hugeint_ok (natAbs_lt hdelta hspan)]
  simp only
  rw [floor_correction hb.pos, hbin, hindex]
  rfl

theorem key_ok (hb : b.Holds width origin) {i : Int} (hoffset : |i * width| * 10 ^ b.scale < 2 ^ 127)
    (hstart : |origin + i * width| * 10 ^ b.scale < 2 ^ 127) :
    ∃ n : Int, (n : ℚ) / 10 ^ b.scale = origin + i * width ∧ 
      b.key (some i) = .ok (some (String.ofList (chars b.scale n))) := by
  obtain ⟨o, ho, hvalue⟩ := hb.origin_eq
  have hproduct : ((i * b.width : Int) : ℚ) / 10 ^ b.scale = i * width := by
    rw [Int.cast_mul, mul_div_assoc, hb.width_eq]
  have hsum : ((o + i * b.width : Int) : ℚ) / 10 ^ b.scale = origin + i * width := by
    rw [Int.cast_add, add_div, hvalue, hproduct]
  have hbound : (o + i * b.width).natAbs < 2 ^ 127 := by
    apply natAbs_lt hsum
    rw [Nat.cast_pow, Nat.cast_ofNat]
    exact hstart
  have hoffsetBound : (i * b.width).natAbs < 2 ^ 127 := by
    apply natAbs_lt hproduct
    rw [Nat.cast_pow, Nat.cast_ofNat]
    exact hoffset
  have hvalue : b.start (some i) = .ok (some (o + i * b.width)) := by
    simp only [start, ho, bind, Except.bind, hugeint_ok hoffsetBound, hugeint_ok hbound]
    rfl
  refine ⟨o + i * b.width, hsum, ?_⟩
  have hmagnitude : hugeint (o + i * b.width).natAbs = .ok ((o + i * b.width).natAbs : Int) := by
    apply hugeint_ok
    rwa [Int.natAbs_natCast]
  generalize o + i * b.width = n at hvalue hmagnitude
  rw [key, hvalue]
  by_cases hscale : b.scale = 0
  · refine (if_pos hscale).trans ?_
    rw [chars, fraction, if_pos hscale, hscale, pow_zero, Nat.div_one, List.append_nil]
    rfl
  · refine (if_neg hscale).trans ?_
    change (hugeint n.natAbs).bind _ = _
    rw [hmagnitude, chars, fraction, if_neg hscale]
    rfl

/-- Different bins have different texts. -/
theorem key_injective (hb : b.Holds width origin) {i j m n : Int} (hm : (m : ℚ) / 10 ^ b.scale = origin + i * width)
    (hn : (n : ℚ) / 10 ^ b.scale = origin + j * width)
    (h : String.ofList (chars b.scale m) = String.ofList (chars b.scale n)) : i = j := by
  have hsame : m = n := chars_injective b.scale (String.ofList_injective h)
  subst hsame
  have hproduct : (i : ℚ) * width = j * width := add_left_cancel (hm.symm.trans hn)
  have hcast : (i : ℚ) = j := mul_right_cancel₀ hb.width_pos.ne' hproduct
  exact_mod_cast hcast

end Bins

section Between

variable {scale : Nat} {width origin u v : ℚ} {i : Int}

/-- The bins between two numbers stay within what the database can hold. -/
theorem InRange.between (hwidth : 0 < width) (hu : InRange scale width origin u) (hv : InRange scale width origin v)
    (hlow : bin width origin u ≤ i) (hhigh : i ≤ bin width origin v) :
    |i * width| * 10 ^ scale < 2 ^ 127 ∧ |origin + i * width| * 10 ^ scale < 2 ^ 127 := by
  have hbelow : u - origin - width < i * width := by
    have hfloor : (u - origin) / width < bin width origin u + 1 := Int.lt_floor_add_one _
    have hcast : (bin width origin u : ℚ) ≤ i := by exact_mod_cast hlow
    have hless : (u - origin) / width < i + 1 := by linarith
    have hscaled := (div_lt_iff₀ hwidth).mp hless
    linarith
  have habove : i * width ≤ v - origin := by
    have hfloor : (bin width origin v : ℚ) ≤ (v - origin) / width := Int.floor_le _
    have hcast : (i : ℚ) ≤ bin width origin v := by exact_mod_cast hhigh
    exact (le_div_iff₀ hwidth).mp (hcast.trans hfloor)
  have hscale : (0 : ℚ) < 10 ^ scale := by positivity
  constructor
  · rcases le_total 0 (i * width) with hsign | hsign
    · refine lt_of_le_of_lt ?_ hv.span
      rw [abs_of_nonneg hsign]
      apply mul_le_mul_of_nonneg_right _ hscale.le
      linarith [le_abs_self (v - origin)]
    · refine lt_of_le_of_lt ?_ hu.span
      rw [abs_of_nonpos hsign]
      apply mul_le_mul_of_nonneg_right _ hscale.le
      linarith [neg_abs_le (u - origin)]
  · rcases le_total 0 (origin + i * width) with hsign | hsign
    · refine lt_of_le_of_lt ?_ hv.reach
      rw [abs_of_nonneg hsign]
      apply mul_le_mul_of_nonneg_right _ hscale.le
      linarith [le_abs_self v]
    · refine lt_of_le_of_lt ?_ hu.reach
      rw [abs_of_nonpos hsign]
      apply mul_le_mul_of_nonneg_right _ hscale.le
      linarith [neg_abs_le u]

end Between

section Interval

/-- The scale that holds a width, an origin and the cells of a column. -/
def commonScale (t : Exact) (width : String) (origin : Option String) : Nat :=
  max (max (read width.toList).scale (origin.elim 0 fun o => (read o.toList).scale)) t.scale

/-- Where the bins start: at the given origin, else at the smallest number of the column. -/
def originOf (origin : Option String) (values : List Fixed) : Option ℚ :=
  match origin with
  | some origin => some (read origin.toList).value
  | none => (values.map Fixed.value).min?

variable {t : Exact} {width : String} {origin : Option String}

theorem Exact.scale_le (t : Exact) : t.scale ≤ 38 := by
  cases t with
  | integer name h => exact Nat.zero_le _
  | decimal width scale h => exact h.1.trans h.2

/-- What an accepted numeric interval is. -/
theorem validateInterval_numeric (h : validateInterval t.kind (.numeric width origin) = .ok ()) :
    (∃ result, decimal width = .ok result) ∧ 0 < (read width.toList).unscaled ∧
      ∀ o ∈ origin, ∃ result, decimal o = .ok result := by
  obtain ⟨-, h⟩ := guard_eq_ok.mp h
  obtain ⟨⟨text, count⟩, hwidth, h⟩ := bind_eq_ok.mp h
  obtain ⟨whole, fraction, -, -, -, -, hresult⟩ := decimal_parts hwidth
  obtain ⟨rfl, rfl⟩ := Prod.mk.inj hresult
  obtain ⟨hpositive, horigin⟩ := guard_eq_ok.mp h
  simp only [Bool.or_eq_true, decide_eq_true_eq, Bool.not_eq_true', not_or, Bool.not_eq_false] at hpositive
  obtain ⟨hsign, hdigit⟩ := hpositive
  refine ⟨⟨_, hwidth⟩, ?_, ?_⟩
  · apply width_pos hwidth hsign
    obtain ⟨c, hc, hkind⟩ := List.any_eq_true.mp hdigit
    exact ⟨c, hc, by simpa using hkind⟩
  · intro o ho
    cases ho
    obtain ⟨result, hresult, -⟩ := map_eq_ok.mp horigin
    exact ⟨result, hresult⟩

theorem least_value {scale : Nat} {values : List Fixed} (h : ∀ v ∈ values, v.scale ≤ scale) {q : ℚ}
    (hq : (values.map Fixed.value).min? = some q) :
    ∃ o, (values.map (·.rescale scale)).min? = some o ∧ (o : ℚ) / 10 ^ scale = q := by
  obtain ⟨hmem, hleast⟩ := List.min?_eq_some_iff.mp hq
  obtain ⟨v, hv, rfl⟩ := List.mem_map.mp hmem
  refine ⟨v.rescale scale, List.min?_eq_some_iff.mpr ⟨List.mem_map_of_mem hv, ?_⟩, v.rescale_value (h v hv)⟩
  intro n hn
  obtain ⟨u, hu, rfl⟩ := List.mem_map.mp hn
  have hle : v.value ≤ u.value := hleast _ (List.mem_map_of_mem hu)
  rw [← v.rescale_value (h v hv), ← u.rescale_value (h u hu)] at hle
  have hcast : (v.rescale scale : ℚ) ≤ u.rescale scale := (div_le_div_iff_of_pos_right (by positivity)).mp hle
  exact_mod_cast hcast

/-- The width and the origin as texts are what the expressions hold, at a scale that fits every cell. -/
theorem numericInterval_ok {axis : List (Option Fixed)}
    (h : validateInterval t.kind (.numeric width origin) = .ok ())
    (haxis : ∀ v ∈ axis.filterMap id, v.scale = t.scale)
    (hwidth : |(read width.toList).value| * 10 ^ commonScale t width origin < 10 ^ 38)
    (horigin : ∀ o ∈ origin, |(read o.toList).value| * 10 ^ commonScale t width origin < 10 ^ 38)
    (hvalues : ∀ v ∈ axis.filterMap id, |v.value| * 10 ^ commonScale t width origin < 10 ^ 38) :
    ∃ b, numericInterval t.kind width origin axis = .ok b ∧ b.scale = commonScale t width origin ∧
      ∀ q ∈ originOf origin (axis.filterMap id), b.Holds (read width.toList).value q := by
  obtain ⟨⟨result, hdecimal⟩, hpositive, hfirst⟩ := validateInterval_numeric h
  obtain ⟨hwscale, hwle⟩ := decimal_ok hdecimal
  have hwfits : (read width.toList).scale ≤ commonScale t width origin := by
    rw [commonScale]
    omega
  have hafits : ∀ v ∈ axis.filterMap id, v.scale ≤ commonScale t width origin := by
    intro v hv
    rw [haxis v hv, commonScale]
    exact le_max_right _ _
  have htfits := t.scale_le
  have hwpos : 0 < (read width.toList).rescale (commonScale t width origin) := by
    rw [Fixed.rescale]
    positivity
  cases origin with
  | none =>
      have hle : commonScale t width none ≤ 38 := by
        rw [commonScale, Option.elim_none]
        omega
      have hscaled := Bins.scaled_value hle hwfits hwidth
      have hall : ∀ v ∈ axis.filterMap id, scaled (commonScale t width none) v =
          .ok (v.rescale (commonScale t width none)) := fun v hv =>
        Bins.scaled_value hle (hafits v hv) (hvalues v hv)
      refine ⟨⟨commonScale t width none, (read width.toList).rescale (commonScale t width none),
        ((axis.filterMap id).map (·.rescale (commonScale t width none))).min?⟩, ?_, rfl, ?_⟩
      · have hcommon : max (max result.2 0) (sourceScale t.kind) = commonScale t width none := by
          rw [hwscale, sourceScale_kind]
          rfl
        simp only [numericInterval, hdecimal, bind, Except.bind, hcommon, hscaled, mapM_ok hall]
        rfl
      · intro q hq
        exact ⟨hle, hwpos, (read width.toList).rescale_value hwfits, least_value hafits hq⟩
  | some o =>
      obtain ⟨second, hsecond⟩ := hfirst o rfl
      obtain ⟨hoscale, hole⟩ := decimal_ok hsecond
      have hle : commonScale t width (some o) ≤ 38 := by
        rw [commonScale, Option.elim_some]
        omega
      have hofits : (read o.toList).scale ≤ commonScale t width (some o) := by
        rw [commonScale, Option.elim_some]
        omega
      have hscaled := Bins.scaled_value hle hwfits hwidth
      have hstart := Bins.scaled_value hle hofits (horigin o rfl)
      refine ⟨⟨commonScale t width (some o), (read width.toList).rescale (commonScale t width (some o)),
        some ((read o.toList).rescale (commonScale t width (some o)))⟩, ?_, rfl, ?_⟩
      · have hcommon : max (max result.2 second.2) (sourceScale t.kind) = commonScale t width (some o) := by
          rw [hwscale, hoscale, sourceScale_kind]
          rfl
        simp only [numericInterval, hdecimal, hsecond, Except.map, bind, Except.bind, hcommon, hscaled, hstart]
      · intro q hq
        cases hq
        exact ⟨hle, hwpos, (read width.toList).rescale_value hwfits,
          ⟨_, rfl, (read o.toList).rescale_value hofits⟩⟩

end Interval

end Wordflow.Plots
