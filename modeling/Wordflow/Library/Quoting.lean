import Mathlib.Data.List.Infix

namespace Wordflow.Library.Quoting

section Enclosed

def doubled (q : Char) (s : List Char) : List Char := s.flatMap fun c => if c = q then [q, q] else [c]

/-- Text between quotes, with the quotes in it doubled. -/
def enclose (q : Char) (s : List Char) : List Char := q :: doubled q s ++ [q]

/-- The text up to the next quote that is not doubled, and what comes after that quote. -/
def readBody (q : Char) : List Char → Option (List Char × List Char)
  | [] => none
  | [c] => if c = q then some ([], []) else none
  | c :: d :: s =>
      if c = q then
        if d = q then (readBody q s).map fun r => (q :: r.1, r.2)
        else some ([], d :: s)
      else (readBody q (d :: s)).map fun r => (c :: r.1, r.2)

def readEnclosed (q : Char) : List Char → Option (List Char × List Char)
  | [] => none
  | c :: s => if c = q then readBody q s else none

variable {q : Char} {s rest : List Char}

theorem doubled_cons (c : Char) (s : List Char) : doubled q (c :: s) = (if c = q then [q, q] else [c]) ++ doubled q s := rfl

theorem readBody_cons_of_ne {c : Char} (h : c ≠ q) (s : List Char) :
    readBody q (c :: s) = (readBody q s).map fun r => (c :: r.1, r.2) := by
  cases s with
  | nil => simp [readBody, h]
  | cons d s => rw [readBody, if_neg h]

theorem readBody_doubled (hrest : rest.head? ≠ some q) (s : List Char) :
    readBody q (doubled q s ++ q :: rest) = some (s, rest) := by
  induction s with
  | nil =>
      rw [doubled, List.flatMap_nil, List.nil_append]
      cases rest with
      | nil => rw [readBody, if_pos rfl]
      | cons d rest =>
          have hd : d ≠ q := fun h => hrest (congrArg some h)
          rw [readBody, if_pos rfl, if_neg hd]
  | cons c s ih =>
      rw [doubled_cons]
      by_cases hc : c = q
      · have hread : readBody q (q :: q :: (doubled q s ++ q :: rest)) = some (q :: s, rest) := by
          rw [readBody, if_pos rfl, if_pos rfl, ih, Option.map_some]
        rw [if_pos hc, hc]
        exact hread
      · rw [if_neg hc, List.cons_append, List.nil_append, List.cons_append, readBody_cons_of_ne hc, ih, Option.map_some]

/-- Enclosed text is read as itself. -/
theorem readEnclosed_enclose (hrest : rest.head? ≠ some q) (s : List Char) :
    readEnclosed q (enclose q s ++ rest) = some (s, rest) := by
  rw [enclose, List.cons_append, List.cons_append, List.append_assoc, readEnclosed, if_pos rfl]
  exact readBody_doubled hrest s

/-- Only enclosed text is read. -/
theorem readBody_exact {text body : List Char} (h : readBody q text = some (body, rest)) :
    text = doubled q body ++ q :: rest := by
  induction text using readBody.induct q generalizing body with
  | case1 => cases h
  | case2 =>
      rw [readBody, if_pos rfl] at h
      cases h
      rfl
  | case3 c hc =>
      rw [readBody, if_neg hc] at h
      cases h
  | case4 s ih =>
      rw [readBody, if_pos rfl, if_pos rfl, Option.map_eq_some_iff] at h
      obtain ⟨⟨inner, after⟩, hinner, heq⟩ := h
      obtain ⟨rfl, rfl⟩ := Prod.mk.inj heq
      rw [ih hinner, doubled_cons, if_pos rfl]
      rfl
  | case5 d s hd =>
      rw [readBody, if_pos rfl, if_neg hd] at h
      cases h
      rfl
  | case6 c d s hc ih =>
      rw [readBody, if_neg hc, Option.map_eq_some_iff] at h
      obtain ⟨⟨inner, after⟩, hinner, heq⟩ := h
      obtain ⟨rfl, rfl⟩ := Prod.mk.inj heq
      rw [ih hinner, doubled_cons, if_neg hc]
      rfl

theorem readEnclosed_exact {text body : List Char} (h : readEnclosed q text = some (body, rest)) :
    text = enclose q body ++ rest := by
  cases text with
  | nil => cases h
  | cons c text =>
      rw [readEnclosed] at h
      split at h
      · rename_i hc
        rw [readBody_exact h, enclose, hc]
        simp
      · cases h

end Enclosed

section Replacement

/-- `str::replacen` for the first occurrence. -/
def replaceFirst (pat new : List Char) : List Char → List Char
  | [] => []
  | c :: s => if pat <+: c :: s then new ++ (c :: s).drop pat.length else c :: replaceFirst pat new s

variable {pat new s t : List Char}

theorem replaceFirst_head (hne : pat ≠ []) (s : List Char) : replaceFirst pat new (pat ++ s) = new ++ s := by
  cases pat with
  | nil => exact absurd rfl hne
  | cons c pat =>
      rw [List.cons_append, replaceFirst, if_pos (by rw [← List.cons_append]; exact List.prefix_append _ _), ← List.cons_append,
        List.drop_left]

/-- Characters that the pattern does not start with are passed over. -/
theorem replaceFirst_append (c : Char) (h : pat.head? = some c) (hs : c ∉ s) (t : List Char) :
    replaceFirst pat new (s ++ t) = s ++ replaceFirst pat new t := by
  induction s with
  | nil => rfl
  | cons d s ih =>
      obtain ⟨hd, hs⟩ := List.ne_and_not_mem_of_not_mem_cons hs
      have hnot : ¬pat <+: d :: (s ++ t) := by
        rintro ⟨after, hafter⟩
        cases pat with
        | nil => cases h
        | cons e pat =>
            cases h
            exact hd (List.cons.inj hafter).1
      rw [List.cons_append, replaceFirst, if_neg hnot, ih hs, List.cons_append]

theorem replaceFirst_of_not (h : ¬pat <:+: s) : replaceFirst pat new s = s := by
  induction s with
  | nil => rfl
  | cons c s ih =>
      rw [List.infix_cons_iff, not_or] at h
      rw [replaceFirst, if_neg h.1, ih h.2]

theorem length_replaceFirst (h : pat <:+: s) (hne : pat ≠ []) :
    (replaceFirst pat new s).length + pat.length = s.length + new.length := by
  induction s with
  | nil => exact absurd (List.infix_nil.mp h) hne
  | cons c s ih =>
      rw [replaceFirst]
      split
      · rename_i hpat
        have hle := hpat.length_le
        rw [List.length_append, List.length_drop]
        omega
      · rename_i hpat
        have hrest := ih ((List.infix_cons_iff.mp h).resolve_left hpat)
        rw [List.length_cons, List.length_cons]
        omega

theorem prefix_append_cons {c : Char} (hc : c ∉ pat) : pat <+: s ++ c :: t ↔ pat <+: s := by
  induction s generalizing pat with
  | nil =>
      cases pat with
      | nil => simp
      | cons d pat =>
          rw [List.nil_append, List.cons_prefix_cons, List.prefix_nil]
          constructor
          · rintro ⟨rfl, -⟩
            exact absurd List.mem_cons_self hc
          · intro h
            cases h
  | cons d s ih =>
      cases pat with
      | nil => simp
      | cons e pat =>
          rw [List.cons_append, List.cons_prefix_cons, List.cons_prefix_cons, ih fun h => hc (List.mem_cons_of_mem _ h)]

/-- A pattern does not reach over a character that is not in it. -/
theorem infix_append_cons {c : Char} (hc : c ∉ pat) : pat <:+: s ++ c :: t ↔ pat <:+: s ∨ pat <:+: t := by
  induction s with
  | nil =>
      rw [List.nil_append, List.infix_cons_iff]
      cases pat with
      | nil => simp
      | cons d pat =>
          rw [List.cons_prefix_cons, List.infix_nil]
          constructor
          · rintro (⟨rfl, -⟩ | h)
            · exact absurd List.mem_cons_self hc
            · exact .inr h
          · rintro (h | h)
            · cases h
            · exact .inr h
  | cons d s ih =>
      rw [List.cons_append, List.infix_cons_iff, ih, List.infix_cons_iff, ← List.cons_append, prefix_append_cons hc, or_assoc]

variable {q : Char}

theorem prefix_doubled (hq : q ∉ pat) : pat <+: doubled q s ↔ pat <+: s := by
  induction s generalizing pat with
  | nil => rfl
  | cons c s ih =>
      rw [doubled_cons]
      cases pat with
      | nil => simp
      | cons d pat =>
          obtain ⟨hd, hpat⟩ := List.ne_and_not_mem_of_not_mem_cons hq
          by_cases hc : c = q
          · rw [if_pos hc, List.cons_append, List.cons_prefix_cons, List.cons_prefix_cons, hc]
            constructor
            · rintro ⟨rfl, -⟩
              exact absurd rfl hd
            · rintro ⟨rfl, -⟩
              exact absurd rfl hd
          · rw [if_neg hc, List.cons_append, List.nil_append, List.cons_prefix_cons, List.cons_prefix_cons, ih hpat]

/-- Doubling the quotes adds no occurrence of a pattern without quotes. -/
theorem infix_doubled (hq : q ∉ pat) (hne : pat ≠ []) : pat <:+: doubled q s ↔ pat <:+: s := by
  induction s with
  | nil => rfl
  | cons c s ih =>
      have hnot : ∀ t, ¬pat <+: q :: t := by
        rintro t ⟨after, hafter⟩
        cases pat with
        | nil => exact hne rfl
        | cons d pat => exact (List.ne_and_not_mem_of_not_mem_cons hq).1 (List.cons.inj hafter).1.symm
      rw [List.infix_cons_iff, doubled_cons, ← ih]
      by_cases hc : c = q
      · rw [if_pos hc, List.cons_append, List.cons_append, List.nil_append, List.infix_cons_iff, List.infix_cons_iff,
          hc, or_iff_right (hnot _), or_iff_right (hnot _), or_iff_right (hnot _)]
      · rw [if_neg hc, List.cons_append, List.nil_append, List.infix_cons_iff]
        have hstarts : pat <+: c :: doubled q s ↔ pat <+: c :: s := by
          have h := @prefix_doubled pat (c :: s) q hq
          rwa [doubled_cons, if_neg hc, List.cons_append, List.nil_append] at h
        rw [hstarts]

theorem infix_enclose (hq : q ∉ pat) (hne : pat ≠ []) : pat <:+: enclose q s ↔ pat <:+: s := by
  have hnil : ¬pat <:+: [] := fun h => hne (List.infix_nil.mp h)
  have hsplit : enclose q s = [] ++ q :: (doubled q s ++ q :: []) := rfl
  rw [hsplit, infix_append_cons hq, infix_append_cons hq, infix_doubled hq hne, or_iff_right hnil, or_iff_left hnil]

end Replacement

end Wordflow.Library.Quoting
