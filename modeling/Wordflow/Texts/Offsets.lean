import Wordflow.Library.Sorted
import Wordflow.Segmentation.Segments

namespace Wordflow.Texts

open Library

/-- The characters of a text, each with the offset of its first byte. -/
def charIndices : Nat → List Char → List (Nat × Char)
  | _, [] => []
  | offset, c :: rest => (offset, c) :: charIndices (offset + Sized.size c) rest

/-- Go on to the first character that does not start before a bound. -/
def advance (bound : Nat) : List (Nat × Char) → Nat → List (Nat × Char) × Nat
  | [], charIdx => ([], charIdx)
  | (b, c) :: iter, charIdx => if bound ≤ b then ((b, c) :: iter, charIdx) else advance bound iter (charIdx + 1)

/-- One forward pass serves all spans: each goes on where the one before it ended. -/
def convertSpans : List (Nat × Char) → Nat → List (Nat × Nat) → List (Nat × Nat)
  | _, _, [] => []
  | iter, charIdx, (start, stop) :: spans =>
      let cs := advance start iter charIdx
      let ce := advance stop cs.1 cs.2
      (cs.2, ce.2) :: convertSpans ce.1 ce.2 spans

def byteSpansToCharSpans (text : List Char) (byteSpans : List (Nat × Nat)) : List (Nat × Nat) :=
  convertSpans (charIndices 0 text) 0 byteSpans

/-- The reference; a slice that does not end between characters panics. -/
def byteToCharIdxNaive (text : List Char) (byteIdx : Nat) : Option Nat :=
  (splitAt? text (min byteIdx (extent text))).map fun p => p.1.length

/-- The number of characters that start before an offset. -/
def charsBefore (text : List Char) (offset : Nat) : Nat :=
  ((charIndices 0 text).filter fun p => p.1 < offset).length

section Characters

variable {text before after : List Char} {offset bound : Nat}

@[simp] theorem length_charIndices (offset : Nat) (text : List Char) : (charIndices offset text).length = text.length := by
  induction text generalizing offset with
  | nil => rfl
  | cons c text ih => rw [charIndices, List.length_cons, List.length_cons, ih]

theorem charIndices_append (offset : Nat) (before after : List Char) :
    charIndices offset (before ++ after) = charIndices offset before ++ charIndices (offset + extent before) after := by
  induction before generalizing offset with
  | nil => rfl
  | cons c before ih =>
      rw [List.cons_append, charIndices, charIndices, ih, List.cons_append, extent_cons, Nat.add_assoc]

theorem le_of_mem_charIndices {p : Nat × Char} (h : p ∈ charIndices offset text) : offset ≤ p.1 := by
  induction text generalizing offset with
  | nil => cases h
  | cons c text ih =>
      rcases List.mem_cons.mp h with rfl | h
      · exact Nat.le_refl _
      · exact Nat.le_trans (Nat.le_add_right _ _) (ih h)

theorem lt_of_mem_charIndices {p : Nat × Char} (h : p ∈ charIndices offset text) : p.1 < offset + extent text := by
  induction text generalizing offset with
  | nil => cases h
  | cons c text ih =>
      have hsize := Sized.size_pos c
      rw [extent_cons]
      rcases List.mem_cons.mp h with rfl | h
      · change offset < _
        omega
      · have := ih h
        omega

theorem charIndices_pairwise (offset : Nat) (text : List Char) :
    (charIndices offset text).Pairwise fun a b => a.1 < b.1 := by
  induction text generalizing offset with
  | nil => exact .nil
  | cons c text ih =>
      refine .cons (fun p hp => ?_) (ih _)
      have hsize := Sized.size_pos c
      have := le_of_mem_charIndices hp
      change offset < p.1
      omega

theorem charIndices_prefix (bound : Nat) (text : List Char) :
    (charIndices 0 text).Pairwise fun a b => decide (b.1 < bound) = true → decide (a.1 < bound) = true := by
  apply (charIndices_pairwise 0 text).imp
  intro a b hab hb
  simp only [decide_eq_true_eq] at hb ⊢
  omega

theorem charsBefore_eq (text : List Char) (bound : Nat) :
    charsBefore text bound = ((charIndices 0 text).takeWhile fun p => p.1 < bound).length := by
  rw [charsBefore, takeWhile_eq_filter ( charIndices_prefix bound text)]

theorem charsBefore_mono {first second : Nat} (h : first ≤ second) : charsBefore text first ≤ charsBefore text second := by
  rw [charsBefore_eq, charsBefore_eq]
  apply length_takeWhile_mono
  intro p _ hp
  simp only [decide_eq_true_eq] at hp ⊢
  omega

/-- Between two characters, the characters that start before are those that lie before. -/
theorem charsBefore_extent (before after : List Char) : charsBefore (before ++ after) (extent before) = before.length := by
  rw [charsBefore, charIndices_append, List.filter_append, List.length_append, Nat.zero_add]
  have hbefore : (charIndices 0 before).filter (fun p => p.1 < extent before) = charIndices 0 before := by
    apply List.filter_eq_self.mpr
    intro p hp
    have := lt_of_mem_charIndices hp
    simpa using this
  have hafter : (charIndices (extent before) after).filter (fun p => p.1 < extent before) = [] := by
    apply List.filter_eq_nil_iff.mpr
    intro p hp
    have := le_of_mem_charIndices hp
    simpa using this
  rw [hbefore, hafter, length_charIndices, List.length_nil, Nat.add_zero]

theorem naive_extent (before after : List Char) :
    byteToCharIdxNaive (before ++ after) (extent before) = some before.length := by
  have hmin : min (extent before) (extent (before ++ after)) = extent before := by
    rw [extent_append]
    omega
  have hsplit : splitAt? (before ++ after) (extent before) = some (before, after) := splitAt?_eq_some.mpr ⟨rfl, rfl⟩
  rw [byteToCharIdxNaive, hmin, hsplit, Option.map_some]

/-- An offset between two characters of a text, or at one of its ends. -/
def Boundary (text : List Char) (offset : Nat) : Prop := (splitAt? text offset).isSome

instance : Decidable (Boundary text offset) := inferInstanceAs (Decidable (_ = _))

theorem boundary_iff : Boundary text offset ↔ ∃ before after, text = before ++ after ∧ extent before = offset := by
  rw [Boundary, Option.isSome_iff_exists]
  simp only [Prod.exists, splitAt?_eq_some]

theorem Boundary.naive (h : Boundary text offset) : byteToCharIdxNaive text offset = some (charsBefore text offset) := by
  obtain ⟨before, after, rfl, rfl⟩ := boundary_iff.mp h
  rw [naive_extent, charsBefore_extent]

/-- Offsets between characters are ordered as the numbers of characters before them. -/
theorem Boundary.charsBefore_le_iff (hoffset : Boundary text offset) (hbound : Boundary text bound) :
    charsBefore text offset ≤ charsBefore text bound ↔ offset ≤ bound := by
  refine ⟨fun h => ?_, charsBefore_mono⟩
  by_contra hlt
  obtain ⟨before, rest, rfl, rfl⟩ := boundary_iff.mp hbound
  obtain ⟨longer, after, happ, rfl⟩ := boundary_iff.mp hoffset
  obtain ⟨middle, rfl, -⟩ := between happ (by omega)
  have hne : middle ≠ [] := by
    rintro rfl
    simp at hlt
  have hlength := List.length_pos_of_ne_nil hne
  rw [charsBefore_extent, happ, charsBefore_extent, List.length_append] at h
  omega

end Characters

section Pass

variable {text : List Char} {k : Nat}

theorem advance_eq (bound : Nat) (iter : List (Nat × Char)) (charIdx : Nat) :
    advance bound iter charIdx =
      (iter.drop (iter.takeWhile fun p => p.1 < bound).length, charIdx + (iter.takeWhile fun p => p.1 < bound).length) := by
  induction iter generalizing charIdx with
  | nil => rfl
  | cons p iter ih =>
      obtain ⟨b, c⟩ := p
      rw [advance]
      split
      · rename_i hle
        rw [List.takeWhile_cons_of_neg (by simpa using hle)]
        rfl
      · rename_i hlt
        rw [ih, List.takeWhile_cons_of_pos (by simpa using hlt), List.length_cons, List.drop_succ_cons]
        congr 1
        omega

/-- The pass never goes back: it stands at the bound, or where it stood if that is further on. -/
theorem advance_drop (text : List Char) (k bound : Nat) :
    advance bound ((charIndices 0 text).drop k) k =
      ((charIndices 0 text).drop (max k (charsBefore text bound)), max k (charsBefore text bound)) := by
  have hend : k + (((charIndices 0 text).drop k).takeWhile fun p => p.1 < bound).length = max k (charsBefore text bound) := by
    rw [charsBefore_eq]
    by_cases hk : k ≤ ((charIndices 0 text).takeWhile fun p => p.1 < bound).length
    · rw [length_takeWhile_drop hk, max_eq_right hk]
    · have hnil : ((charIndices 0 text).drop k).takeWhile (fun p => p.1 < bound) = [] := by
        cases hdrop : (charIndices 0 text).drop k with
        | nil => rfl
        | cons p rest =>
            have hlt : k < (charIndices 0 text).length := by
              by_contra hge
              rw [List.drop_eq_nil_of_le (by omega)] at hdrop
              cases hdrop
            rw [List.drop_eq_getElem_cons hlt] at hdrop
            obtain ⟨rfl, -⟩ := List.cons.inj hdrop
            have hfalse := (length_takeWhile_le_iff ( charIndices_prefix bound text) hlt).mp (by omega)
            exact List.takeWhile_cons_of_neg (by simp [hfalse])
      rw [hnil, max_eq_left (by omega)]
      rfl
  rw [advance_eq, List.drop_drop, hend]

theorem convertSpans_cons (text : List Char) (k : Nat) (span : Nat × Nat) (spans : List (Nat × Nat)) (h : span.1 ≤ span.2) :
    convertSpans ((charIndices 0 text).drop k) k (span :: spans) =
      (max k (charsBefore text span.1), max k (charsBefore text span.2)) ::
        convertSpans ((charIndices 0 text).drop (max k (charsBefore text span.2))) (max k (charsBefore text span.2)) spans := by
  have hmax : max (max k (charsBefore text span.1)) (charsBefore text span.2) = max k (charsBefore text span.2) := by
    have := @charsBefore_mono text _ _ h
    omega
  rw [convertSpans]
  simp only [advance_drop, hmax]

/-- From the k-th character on, the pass is right exactly when no span starts
before it and none starts before the end of an earlier one. -/
theorem convertSpans_eq_iff {spans : List (Nat × Nat)} (hspans : ∀ span ∈ spans, span.1 ≤ span.2) :
    convertSpans ((charIndices 0 text).drop k) k spans = spans.map (fun s => (charsBefore text s.1, charsBefore text s.2)) ↔
      (∀ span ∈ spans, k ≤ charsBefore text span.1) ∧
        spans.Pairwise fun a b => charsBefore text a.2 ≤ charsBefore text b.1 := by
  induction spans generalizing k with
  | nil => simp [convertSpans]
  | cons span spans ih =>
      obtain ⟨hspan, hrest⟩ := List.forall_mem_cons.mp hspans
      have hle := @charsBefore_mono text _ _ hspan
      rw [convertSpans_cons text k span spans hspan, List.map_cons, List.cons.injEq, Prod.mk.injEq, ih hrest,
        List.pairwise_cons, List.forall_mem_cons]
      constructor
      · rintro ⟨⟨hstart, -⟩, hbound, hpairs⟩
        have hk : k ≤ charsBefore text span.1 := by omega
        refine ⟨⟨hk, fun s hs => ?_⟩, fun s hs => ?_, hpairs⟩
        · exact Nat.le_trans (Nat.le_max_left _ _) (hbound s hs)
        · exact Nat.le_trans (Nat.le_max_right _ _) (hbound s hs)
      · rintro ⟨⟨hk, hlater⟩, hends, hpairs⟩
        refine ⟨⟨by omega, by omega⟩, fun s hs => ?_, hpairs⟩
        exact Nat.max_le.mpr ⟨hlater s hs, hends s hs⟩

end Pass

/-- The spans that the pass is documented for: they lie between characters, and
are ordered by their start. -/
structure Documented (text : List Char) (spans : List (Nat × Nat)) : Prop where
  boundaries : ∀ span ∈ spans, Boundary text span.1 ∧ Boundary text span.2
  forward : ∀ span ∈ spans, span.1 ≤ span.2
  ordered : spans.Pairwise fun a b => a.1 ≤ b.1

/-- Each span is converted as the reference converts it on its own. -/
def Converted (text : List Char) (spans : List (Nat × Nat)) : Prop :=
  byteSpansToCharSpans text spans = spans.map (fun s => (charsBefore text s.1, charsBefore text s.2)) ∧
    (spans.mapM fun s => do return (← byteToCharIdxNaive text s.1, ← byteToCharIdxNaive text s.2)) =
      some (byteSpansToCharSpans text spans)

theorem naive_spans {text : List Char} {spans : List (Nat × Nat)}
    (h : ∀ span ∈ spans, Boundary text span.1 ∧ Boundary text span.2) :
    (spans.mapM fun s => do return (← byteToCharIdxNaive text s.1, ← byteToCharIdxNaive text s.2)) =
      some (spans.map fun s => (charsBefore text s.1, charsBefore text s.2)) := by
  induction spans with
  | nil => rfl
  | cons span spans ih =>
      obtain ⟨⟨hstart, hstop⟩, hrest⟩ := List.forall_mem_cons.mp h
      rw [List.mapM_cons, ih hrest, hstart.naive, hstop.naive]
      rfl

theorem byteSpans_eq_iff {text : List Char} {spans : List (Nat × Nat)} (h : Documented text spans) :
    byteSpansToCharSpans text spans = spans.map (fun s => (charsBefore text s.1, charsBefore text s.2)) ↔
      spans.Pairwise fun a b => a.2 ≤ b.1 := by
  have hpass := @convertSpans_eq_iff text 0 _ h.forward
  have hordered : spans.Pairwise (fun a b => charsBefore text a.2 ≤ charsBefore text b.1) ↔
      spans.Pairwise fun a b => a.2 ≤ b.1 := by
    apply List.Pairwise.iff_of_mem
    intro a b ha hb
    exact (h.boundaries a ha).2.charsBefore_le_iff (h.boundaries b hb).1
  rw [← hordered]
  constructor
  · intro hconverted
    exact (hpass.mp hconverted).2
  · intro hpairs
    exact hpass.mpr ⟨fun _ _ => Nat.zero_le _, hpairs⟩

/-- The shared cursor converts the spans exactly when each starts no earlier
than those before it end. -/
theorem spans_convert {text : List Char} {spans : List (Nat × Nat)} (h : Documented text spans) :
    Converted text spans ↔ spans.Pairwise fun a b => a.2 ≤ b.1 := by
  rw [Converted, naive_spans h.boundaries, ← byteSpans_eq_iff h]
  constructor
  · intro hconverted
    exact hconverted.1
  · intro hconverted
    exact ⟨hconverted, congrArg some hconverted.symm⟩

/-- Two tokens that share one character of three bytes. -/
theorem shared_character_is_lost : Documented ['猫'] [(0, 3), (0, 3)] ∧
    byteSpansToCharSpans ['猫'] [(0, 3), (0, 3)] = [(0, 1), (1, 1)] ∧ ¬Converted ['猫'] [(0, 3), (0, 3)] := by
  have hdocumented : Documented ['猫'] [(0, 3), (0, 3)] := ⟨by decide, by decide, by decide⟩
  refine ⟨hdocumented, by decide, fun hconverted => ?_⟩
  have hlost : byteSpansToCharSpans ['猫'] [(0, 3), (0, 3)] ≠ [(0, 1), (0, 1)] := by decide
  exact hlost hconverted.1

theorem words_convert : Documented "今日は".toList [(0, 3), (3, 3), (3, 9)] ∧
    (Converted "今日は".toList [(0, 3), (3, 3), (3, 9)] ↔ [(0, 3), (3, 3), (3, 9)].Pairwise fun a b : Nat × Nat => a.2 ≤ b.1) := by
  have hdocumented : Documented "今日は".toList [(0, 3), (3, 3), (3, 9)] := ⟨by decide, by decide, by decide⟩
  exact ⟨hdocumented, spans_convert hdocumented⟩

end Wordflow.Texts
