import Mathlib.Data.List.Basic

namespace Wordflow.Library.Identifier

/-- The characters of an identifier with ASCII letters in lower case. Other
letters are left alone, so only ASCII spellings are identified. -/
def asciiLower (s : String) : List Char := s.toList.map Char.toLower

def eqIgnoreAsciiCase (a b : String) : Bool := asciiLower a == asciiLower b

/-- Names are looked up among names. -/
instance lawfulNames : LawfulBEq (List Char) := inferInstance

instance lawfulPairs : LawfulBEq (String × String) := inferInstance

variable {a b c : String}

theorem eqIgnoreAsciiCase_iff : eqIgnoreAsciiCase a b = true ↔ asciiLower a = asciiLower b := by
  simp [eqIgnoreAsciiCase]

@[simp]
theorem eqIgnoreAsciiCase_refl (a : String) : eqIgnoreAsciiCase a a = true := by
  simp [eqIgnoreAsciiCase]

theorem eqIgnoreAsciiCase_comm (a b : String) : eqIgnoreAsciiCase a b = eqIgnoreAsciiCase b a := by
  rw [Bool.eq_iff_iff, eqIgnoreAsciiCase_iff, eqIgnoreAsciiCase_iff, eq_comm]

theorem eqIgnoreAsciiCase_trans (hab : eqIgnoreAsciiCase a b = true)
    (hbc : eqIgnoreAsciiCase b c = true) : eqIgnoreAsciiCase a c = true := by
  rw [eqIgnoreAsciiCase_iff] at *
  exact hab.trans hbc

/-- The case of a character goes by its code point. -/
theorem isUpper_eq (c : Char) : c.isUpper = decide (c.val ≥ 'A'.val ∧ c.val ≤ 'Z'.val) := rfl

theorem isLower_eq (c : Char) : c.isLower = (decide (c.val ≥ 'a'.val) && decide (c.val ≤ 'z'.val)) := rfl

theorem isAlpha_eq (c : Char) : c.isAlpha = (c.isUpper || c.isLower) := rfl

theorem isLower_toLower {c : Char} (h : c.val ≥ 'A'.val ∧ c.val ≤ 'Z'.val) : c.toLower.isLower = true := by
  have hv : c.toLower.val = c.val + 32 := congrArg Char.val (dif_pos h)
  have hA : 'A'.val.toNat = 65 := rfl
  have hZ : 'Z'.val.toNat = 90 := rfl
  have ha : 'a'.val.toNat = 97 := rfl
  have hz : 'z'.val.toNat = 122 := rfl
  have h32 : (32 : UInt32).toNat = 32 := rfl
  simp only [ge_iff_le, UInt32.le_iff_toNat_le, hA, hZ] at h
  simp only [isLower_eq, hv, ge_iff_le, UInt32.le_iff_toNat_le, Bool.and_eq_true, decide_eq_true_eq,
    UInt32.toNat_add, ha, hz]
  omega

theorem toLower_cases (c : Char) : c.toLower = c ∨ c.isUpper = true ∧ c.toLower.isLower = true := by
  by_cases h : c.val ≥ 'A'.val ∧ c.val ≤ 'Z'.val
  · exact .inr ⟨by simpa [isUpper_eq] using h, isLower_toLower h⟩
  · exact .inl (dif_neg h)

theorem eq_of_toLower {c d : Char} (h : c.toLower = d) (hd : d.isLower = false) : c = d := by
  rcases toLower_cases c with hc | ⟨-, hl⟩
  · exact hc.symm.trans h
  · rw [h, hd] at hl
    cases hl

theorem isAlpha_of_toLower {c : Char} (h : c.toLower.isAlpha = true) : c.isAlpha = true := by
  rcases toLower_cases c with hc | ⟨hu, -⟩
  · rwa [hc] at h
  · simp [isAlpha_eq, hu]

end Wordflow.Library.Identifier
