import Mathlib.Data.List.Basic

namespace Wordflow.Library.Text

/-- The characters with the Unicode property `White_Space`. -/
def isWhitespace (c : Char) : Bool :=
  let n := c.toNat
  (9 ≤ n && n ≤ 13) || n == 0x20 || n == 0x85 || n == 0xA0 || n == 0x1680 || (0x2000 ≤ n && n ≤ 0x200A) ||
    n == 0x2028 || n == 0x2029 || n == 0x202F || n == 0x205F || n == 0x3000

def trimStart (cs : List Char) : List Char := cs.dropWhile isWhitespace

def trimEnd (cs : List Char) : List Char := (cs.reverse.dropWhile isWhitespace).reverse

def trim (s : String) : String := String.ofList (trimEnd (trimStart s.toList))

theorem dropWhile_of_head {p : Char → Bool} {cs : List Char} (h : ∀ c ∈ cs.head?, p c = false) : cs.dropWhile p = cs := by
  cases cs with
  | nil => rfl
  | cons c cs => rw [List.dropWhile_cons_of_neg (Bool.eq_false_iff.mp (h c rfl))]

theorem head_dropWhile {p : Char → Bool} {cs : List Char} {c : Char} (h : c ∈ (cs.dropWhile p).head?) : p c = false := by
  have hhead := List.head?_dropWhile_not p cs
  rw [Option.mem_def] at h
  rw [h] at hhead
  exact hhead

theorem trimEnd_prefix (cs : List Char) : trimEnd cs <+: cs := by
  rw [trimEnd, ← List.reverse_suffix, List.reverse_reverse]
  exact List.dropWhile_suffix _

/-- What is trimmed has nothing left to trim. -/
theorem trim_trim (s : String) : trim (trim s) = trim s := by
  have hend : trimEnd (trimEnd (trimStart s.toList)) = trimEnd (trimStart s.toList) := by
    rw [trimEnd, trimEnd, List.reverse_reverse]
    congr 1
    exact dropWhile_of_head fun c hc => head_dropWhile hc
  have hstart : trimStart (trimEnd (trimStart s.toList)) = trimEnd (trimStart s.toList) := by
    apply dropWhile_of_head
    intro c hc
    obtain ⟨rest, hrest⟩ := trimEnd_prefix (trimStart s.toList)
    apply @head_dropWhile isWhitespace s.toList
    change c ∈ (trimStart s.toList).head?
    rw [← hrest, List.head?_append, Option.mem_def.mp hc]
    rfl
  rw [trim, trim, String.toList_ofList, hstart, hend]

end Wordflow.Library.Text
