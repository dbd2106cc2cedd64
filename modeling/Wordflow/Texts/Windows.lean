import Wordflow.Texts.Concordance

namespace Wordflow.Texts

open Library Library.Fallible
open Segmentation (Failure)

section Ends

variable {α : Type} (full part : List α) (n : Nat)

/-- The first of the last n items of two lists. -/
theorem head?_rtake : ((full ++ part).rtake n).head? =
    if n = 0 then none
    else if full.length - (n - min n part.length) < full.length then full[full.length - (n - min n part.length)]?
    else part[part.length - min n part.length]? := by
  rw [List.rtake, List.head?_drop, List.length_append]
  split
  · rename_i hn
    exact List.getElem?_eq_none (by rw [List.length_append]; omega)
  · split
    · rw [List.getElem?_append_left (by omega)]
      congr 1
      omega
    · rw [List.getElem?_append_right (by omega)]
      congr 1
      omega

theorem getLast?_rtake : ((full ++ part).rtake n).getLast? =
    if 0 < min n part.length then part.getLast?
    else if full.length = 0 ∨ n - min n part.length = 0 then none
    else full[full.length - 1]? := by
  rw [List.rtake, List.getLast?_eq_getElem?, List.getLast?_eq_getElem?, List.getElem?_drop, List.length_drop,
    List.length_append]
  split
  · rw [List.getElem?_append_right (by omega)]
    congr 1
    omega
  · split
    · exact List.getElem?_eq_none (by rw [List.length_append]; omega)
    · rw [List.getElem?_append_left (by omega)]
      congr 1
      omega

theorem getLast?_take : ((part ++ full).take n).getLast? =
    if n = 0 then none
    else if 0 < min (n - min n part.length) full.length then full[min (n - min n part.length) full.length - 1]?
    else part[min n part.length - 1]? := by
  by_cases hn : n = 0
  · rw [if_pos hn, hn]
    rfl
  · rw [List.getLast?_eq_getElem?, List.length_take, List.length_append, List.getElem?_take, if_pos (by omega), if_neg hn]
    split
    · rw [List.getElem?_append_right (by omega)]
      congr 1
      omega
    · by_cases hpart : part = []
      · subst hpart
        simp only [List.length_nil, Nat.min_zero, Nat.sub_zero, Nat.zero_add] at *
        rw [List.nil_append, List.getElem?_eq_none (by omega)]
        rfl
      · have := List.length_pos_of_ne_nil hpart
        rw [List.getElem?_append_left (by omega)]
        congr 1
        omega

theorem head?_take : ((part ++ full).take n).head? =
    if 0 < min n part.length then part.head?
    else if n - min n part.length = 0 then none
    else full[0]? := by
  rw [List.head?_eq_getElem?, List.head?_eq_getElem?, List.getElem?_take]
  by_cases hpart : 0 < min n part.length
  · rw [if_pos (by omega), if_pos hpart, List.getElem?_append_left (by omega)]
  · rw [if_neg hpart]
    by_cases hn : n - min n part.length = 0
    · rw [if_neg (by omega), if_pos hn]
    · rw [if_pos (by omega), if_neg hn, List.getElem?_append_right (by omega)]
      congr 1
      omega

end Ends

section Characters

variable {text : List Char} {i j : Nat}

/-- The characters between two positions. -/
def chars (text : List Char) (i j : Nat) : List Char := (text.drop i).take (j - i)

theorem length_chars (hj : j ≤ text.length) : (chars text i j).length = j - i := by
  rw [chars, List.length_take, List.length_drop]
  omega

theorem index_charToByte (h : i ≤ text.length) : index (charToByte text) i = .ok (extent (text.take i)) := by
  have hget : (charToByte text)[i]? = some (extent (text.take i)) := by
    rw [charToByte]
    rcases Nat.lt_or_eq_of_le h with hlt | rfl
    · have hdrop : charIndices 0 text = charIndices 0 (text.take i) ++ charIndices (extent (text.take i)) (text.drop i) := by
        rw [← Nat.zero_add (extent _), ← charIndices_append, List.take_append_drop]
      have hlength : (charIndices 0 (text.take i)).length = i := by
        rw [length_charIndices, List.length_take, Nat.min_eq_left h]
      rw [List.getElem?_append_left (by simpa using hlt), hdrop, List.map_append, List.getElem?_append_right (by simp),
        List.length_map, hlength, Nat.sub_self, List.drop_eq_getElem_cons hlt, charIndices]
      rfl
    · rw [List.getElem?_append_right (by simp), List.take_length]
      simp
  rw [index, hget]

theorem slice_chars (hij : i ≤ j) :
    slice text (extent (text.take i)) (extent (text.take j)) = .ok (chars text i j) := by
  have hj' : text.take j = text.take i ++ chars text i j := by
    rw [chars, ← List.take_add, Nat.add_sub_cancel' hij]
  have hslice : slice? text (extent (text.take i)) (extent (text.take j)) = some (chars text i j) := by
    refine slice?_eq_some.mpr ⟨text.take i, text.drop j, ?_, rfl, ?_⟩
    · rw [← hj', List.take_append_drop]
    · rw [hj', extent_append]
  rw [slice, hslice]

/-- A position between characters is the offset of the characters before it. -/
theorem Boundary.extent_take {offset : Nat} (h : Boundary text offset) :
    charsBefore text offset ≤ text.length ∧ extent (text.take (charsBefore text offset)) = offset := by
  obtain ⟨before, after, rfl, rfl⟩ := boundary_iff.mp h
  rw [charsBefore_extent, List.take_left, List.length_append]
  exact ⟨Nat.le_add_right _ _, rfl⟩

end Characters

/-- What the plain-text tokenizer keeps to: its tokens are not empty, lie in the
text, in order, and do not overlap. -/
structure Lawful (tokenize : Bool → List Char → List Token) : Prop where
  within : ∀ ignorePunctuation text, ∀ t ∈ tokenize ignorePunctuation text,
    0 ≤ t.start ∧ t.start < t.stop ∧ t.stop ≤ (text.length : Int)
  disjoint : ∀ ignorePunctuation text, (tokenize ignorePunctuation text).Pairwise fun a b => a.stop ≤ b.start

/-- Hits lie between characters, in order, and do not overlap; they may be empty. -/
structure Hits (text : List Char) (hits : List Hit) : Prop where
  boundaries : ∀ hit ∈ hits, Boundary text hit.start ∧ Boundary text hit.stop
  forward : ∀ hit ∈ hits, hit.start ≤ hit.stop
  disjoint : hits.Pairwise fun a b => a.stop ≤ b.start

section Scratch

variable (tokenize : Bool → List Char → List Token) (text : List Char) (options : ConcordanceOptions)

/-- The tokens of a part of the text, at their positions in the text. -/
def plainTokens (fragment : List Char) (offset : Nat) : List SourceToken :=
  (tokenize options.ignorePunctuation fragment).map fun t => ⟨t.token, t.start.toNat + offset, t.stop.toNat + offset⟩

/-- What is before a position of the token it lies in, in tokens of its own. -/
def leftPart (position : Nat) : List SourceToken :=
  match (plainTokens tokenize options text 0).find? (SourceToken.cutBy position) with
  | some t => plainTokens tokenize options (chars text t.start position) t.start
  | none => []

def rightPart (position : Nat) : List SourceToken :=
  match (plainTokens tokenize options text 0).find? (SourceToken.cutBy position) with
  | some t => plainTokens tokenize options (chars text position t.stop) position
  | none => []

/-- All tokens to the left of a position: those that end at or before it, and
the part before it of the token it lies in. -/
def leftTokens (position : Nat) : List SourceToken :=
  (plainTokens tokenize options text 0).filter (fun t => t.stop ≤ position) ++ leftPart tokenize text options position

def rightTokens (position : Nat) : List SourceToken :=
  rightPart tokenize text options position ++ (plainTokens tokenize options text 0).filter fun t => position ≤ t.start

/-- A hit with its windows, each found in the text for this hit alone. -/
def recomputed (hit : Hit) : ConcordanceMatch :=
  let startChar := charsBefore text hit.start
  let endChar := charsBefore text hit.stop
  let left := (leftTokens tokenize text options startChar).rtake options.leftTokens
  let right := (rightTokens tokenize text options endChar).take options.rightTokens
  { leftContext := (left.head?.map fun t => chars text t.start startChar).getD []
    matchedText := hit.matched
    rightContext := (right.getLast?.map fun t => chars text endChar t.stop).getD []
    startIdx := startChar
    endIdx := endChar
    l1 := (left.getLast?.map SourceToken.text).getD []
    r1 := (right.head?.map SourceToken.text).getD [] }

end Scratch

section Tokens

/-- Tokens that are not empty, in order, and do not overlap. -/
structure Ordered (tokens : List SourceToken) : Prop where
  positive : ∀ t ∈ tokens, t.start < t.stop
  disjoint : tokens.Pairwise fun a b => a.stop ≤ b.start

variable {tokens : List SourceToken} {position : Nat}

/-- The number of tokens that end at or before a position. -/
def ended (tokens : List SourceToken) (position : Nat) : Nat := (tokens.takeWhile fun t => t.stop ≤ position).length

/-- The number of tokens that start before a position. -/
def started (tokens : List SourceToken) (position : Nat) : Nat := (tokens.takeWhile fun t => t.start < position).length

theorem Ordered.ended_prefix (h : Ordered tokens) (position : Nat) :
    tokens.Pairwise fun a b => decide (b.stop ≤ position) = true → decide (a.stop ≤ position) = true := by
  apply h.disjoint.imp_of_mem
  intro a b _ hb hab hstop
  have := h.positive b hb
  simp only [decide_eq_true_eq] at hstop ⊢
  omega

theorem Ordered.started_prefix (h : Ordered tokens) (position : Nat) :
    tokens.Pairwise fun a b => decide (b.start < position) = true → decide (a.start < position) = true := by
  apply h.disjoint.imp_of_mem
  intro a b ha _ hab hstart
  have := h.positive a ha
  simp only [decide_eq_true_eq] at hstart ⊢
  omega

theorem Ordered.take_ended (h : Ordered tokens) (position : Nat) :
    tokens.take (ended tokens position) = tokens.filter fun t => t.stop ≤ position := by
  rw [← takeWhile_eq_filter (h.ended_prefix position), ended]
  exact (List.prefix_iff_eq_take.mp (List.takeWhile_prefix _)).symm

theorem Ordered.drop_started (h : Ordered tokens) (position : Nat) :
    tokens.drop (started tokens position) = tokens.filter fun t => position ≤ t.start := by
  have hsplit := List.takeWhile_append_dropWhile (p := fun t : SourceToken => decide (t.start < position)) (l := tokens)
  calc
    tokens.drop (started tokens position) = tokens.dropWhile fun t => t.start < position :=
      (congrArg (List.drop _) hsplit).symm.trans List.drop_left
    _ = tokens.filter fun t => position ≤ t.start := by
      rw [dropWhile_eq_filter (h.started_prefix position)]
      apply List.filter_congr
      intro t _
      rw [Bool.eq_iff_iff]
      simp

theorem ended_le_length (tokens : List SourceToken) (position : Nat) : ended tokens position ≤ tokens.length :=
  (List.takeWhile_sublist _).length_le

theorem started_le_length (tokens : List SourceToken) (position : Nat) : started tokens position ≤ tokens.length :=
  (List.takeWhile_sublist _).length_le

theorem find_eq_none_of_ended (h : ∀ t ∈ tokens, t.stop ≤ position) : tokens.find? (SourceToken.cutBy position) = none := by
  apply List.find?_eq_none.mpr
  intro t ht
  have := h t ht
  simp only [SourceToken.cutBy, Bool.and_eq_true, decide_eq_true_eq]
  omega

theorem find_eq_none_of_later (h : ∀ t ∈ tokens, position ≤ t.start) : tokens.find? (SourceToken.cutBy position) = none := by
  apply List.find?_eq_none.mpr
  intro t ht
  have := h t ht
  simp only [SourceToken.cutBy, Bool.and_eq_true, decide_eq_true_eq]
  omega

/-- The token that a position cuts is the first that does not end before it. -/
theorem Ordered.find_left (h : Ordered tokens) (position : Nat) :
    (tokens[ended tokens position]?).filter (SourceToken.cutBy position) = tokens.find? (SourceToken.cutBy position) := by
  have hbefore : (tokens.take (ended tokens position)).find? (SourceToken.cutBy position) = none := by
    apply find_eq_none_of_ended
    intro t ht
    rw [h.take_ended, List.mem_filter] at ht
    simpa using ht.2
  conv_rhs => rw [← List.take_append_drop (ended tokens position) tokens, List.find?_append, hbefore, Option.none_or]
  by_cases hlt : ended tokens position < tokens.length
  · rw [List.getElem?_eq_getElem hlt, List.drop_eq_getElem_cons hlt]
    by_cases hcut : SourceToken.cutBy position tokens[ended tokens position] = true
    · rw [List.find?_cons_of_pos hcut, Option.filter_some, if_pos hcut]
    · have hlast := (length_takeWhile_le_iff (h.ended_prefix position) hlt).mp (Nat.le_refl _)
      have hdrop := h.disjoint.sublist (List.drop_sublist (ended tokens position) tokens)
      rw [List.drop_eq_getElem_cons hlt, List.pairwise_cons] at hdrop
      rw [List.find?_cons_of_neg hcut, Option.filter_some, if_neg hcut, eq_comm]
      apply find_eq_none_of_later
      intro t ht
      have := hdrop.1 t ht
      simp only [decide_eq_false_iff_not] at hlast
      omega
  · rw [List.getElem?_eq_none (by omega), List.drop_eq_nil_of_le (by omega)]
    rfl

/-- It is also the last that starts before it. -/
theorem Ordered.find_right (h : Ordered tokens) (position : Nat) :
    (if started tokens position = 0 then none else tokens[started tokens position - 1]?).filter (SourceToken.cutBy position) =
      tokens.find? (SourceToken.cutBy position) := by
  have hafter : (tokens.drop (started tokens position)).find? (SourceToken.cutBy position) = none := by
    apply find_eq_none_of_later
    intro t ht
    rw [h.drop_started, List.mem_filter] at ht
    simpa using ht.2
  conv_rhs => rw [← List.take_append_drop (started tokens position) tokens, List.find?_append, hafter, Option.or_none]
  have hle := started_le_length tokens position
  cases hcount : started tokens position with
  | zero => rfl
  | succ last =>
      have hlt : last < tokens.length := by omega
      have htake : tokens.take (last + 1) = tokens.take last ++ [tokens[last]] := List.take_succ_eq_append_getElem hlt
      have hstart : tokens[last].start < position := by
        have hmem : tokens[last] ∈ tokens.takeWhile fun t => t.start < position := by
          rw [List.prefix_iff_eq_take.mp (List.takeWhile_prefix _)]
          change tokens[last] ∈ tokens.take (started tokens position)
          rw [hcount, htake]
          exact List.mem_append_right _ (List.mem_singleton_self _)
        simpa using List.mem_takeWhile_imp hmem
      have hbefore : (tokens.take last).find? (SourceToken.cutBy position) = none := by
        apply find_eq_none_of_ended
        intro t ht
        have hpairs := h.disjoint.sublist (List.take_sublist (last + 1) tokens)
        rw [htake, List.pairwise_append] at hpairs
        have := hpairs.2.2 t ht _ (List.mem_singleton_self _)
        omega
      rw [if_neg (Nat.succ_ne_zero last), Nat.add_sub_cancel, List.getElem?_eq_getElem hlt, htake, List.find?_append, hbefore,
        Option.none_or, Option.filter_some, List.find?_singleton]

end Tokens

section Matches

variable {tokenize : Bool → List Char → List Token} {text : List Char} {options : ConcordanceOptions}

theorem Lawful.sourceTokens (h : Lawful tokenize) (fragment : List Char) :
    sourceTokens tokenize fragment options.ignorePunctuation = .ok (plainTokens tokenize options fragment 0) := by
  rw [Texts.sourceTokens, mapM_eq_ok, plainTokens, List.forall₂_map_right_iff, List.forall₂_same]
  intro t ht
  obtain ⟨hstart, hlt, hstop⟩ := h.within _ _ t ht
  rw [sourceToken, if_neg (by omega), if_neg (by omega), if_neg (by omega)]
  rfl

theorem Lawful.offsetFragmentTokens (h : Lawful tokenize) (fragment : List Char) (offset : Nat) :
    offsetFragmentTokens tokenize fragment offset options.ignorePunctuation = .ok (plainTokens tokenize options fragment offset) := by
  rw [Texts.offsetFragmentTokens, h.sourceTokens, Except.map, plainTokens, plainTokens, List.map_map]
  rfl

theorem Lawful.fragmentTokens (h : Lawful tokenize) {first last : Nat} (hle : first ≤ last) (hlast : last ≤ text.length) :
    fragmentTokens tokenize text first last options.ignorePunctuation =
      .ok (plainTokens tokenize options (chars text first last) first) := by
  rw [Texts.fragmentTokens, index_charToByte (hle.trans hlast), index_charToByte hlast]
  change (do
    let fragment ← slice text (extent (text.take first)) (extent (text.take last))
    Texts.offsetFragmentTokens tokenize fragment first options.ignorePunctuation) = _
  rw [slice_chars hle]
  exact h.offsetFragmentTokens _ _

theorem Lawful.plainTokens_within (h : Lawful tokenize) {fragment : List Char} {offset : Nat} {t : SourceToken}
    (ht : t ∈ plainTokens tokenize options fragment offset) :
    offset ≤ t.start ∧ t.start < t.stop ∧ t.stop ≤ offset + fragment.length := by
  obtain ⟨s, hs, rfl⟩ := List.mem_map.mp ht
  have := h.within _ _ s hs
  simp only
  omega

theorem Lawful.ordered (h : Lawful tokenize) : Ordered (plainTokens tokenize options text 0) where
  positive t ht := (h.plainTokens_within ht).2.1
  disjoint := by
    rw [plainTokens, List.pairwise_map]
    apply (h.disjoint options.ignorePunctuation text).imp_of_mem
    intro a b ha hb hab
    have := h.within _ _ a ha
    have := h.within _ _ b hb
    simp only
    omega

theorem Lawful.leftPart_within (h : Lawful tokenize) {position : Nat} {t : SourceToken}
    (ht : t ∈ leftPart tokenize text options position) : t.start ≤ position := by
  rw [leftPart] at ht
  split at ht
  · have hin := h.plainTokens_within ht
    rename_i s hfound
    have hcut := List.find?_some hfound
    have hlength : (chars text s.start position).length ≤ position - s.start := by
      rw [chars, List.length_take]
      exact Nat.min_le_left _ _
    simp only [SourceToken.cutBy, Bool.and_eq_true, decide_eq_true_eq] at hcut
    omega
  · cases ht

theorem Lawful.rightPart_within (h : Lawful tokenize) {position : Nat} {t : SourceToken}
    (ht : t ∈ rightPart tokenize text options position) : position ≤ t.stop ∧ t.stop ≤ text.length := by
  rw [rightPart] at ht
  split at ht
  · have hin := h.plainTokens_within ht
    rename_i s hfound
    have hcut := List.find?_some hfound
    have hs := h.plainTokens_within (List.mem_of_find?_eq_some hfound)
    simp only [SourceToken.cutBy, Bool.and_eq_true, decide_eq_true_eq] at hcut
    rw [length_chars (by omega)] at hin
    omega
  · cases ht

/-- The tokens of a window stay on their side of the position, inside the text. -/
theorem Lawful.leftTokens_within (h : Lawful tokenize) {position : Nat} {t : SourceToken}
    (ht : t ∈ leftTokens tokenize text options position) : t.start ≤ position := by
  rw [leftTokens, List.mem_append, List.mem_filter] at ht
  rcases ht with ⟨hmem, hstop⟩ | ht
  · have := h.plainTokens_within hmem
    simp only [decide_eq_true_eq] at hstop
    omega
  · exact h.leftPart_within ht

theorem Lawful.rightTokens_within (h : Lawful tokenize) {position : Nat} {t : SourceToken}
    (ht : t ∈ rightTokens tokenize text options position) : position ≤ t.stop ∧ t.stop ≤ text.length := by
  rw [rightTokens, List.mem_append, List.mem_filter] at ht
  rcases ht with ht | ⟨hmem, hstart⟩
  · exact h.rightPart_within ht
  · have := h.plainTokens_within hmem
    simp only [decide_eq_true_eq] at hstart
    omega

theorem Lawful.leftFragment (h : Lawful tokenize) {startChar : Nat} (hstart : startChar ≤ text.length) :
    leftFragment tokenize text (plainTokens tokenize options text 0) startChar
      (ended (plainTokens tokenize options text 0) startChar) options.ignorePunctuation =
        .ok (leftPart tokenize text options startChar) := by
  rw [Texts.leftFragment, h.ordered.find_left, leftPart]
  cases hfound : (plainTokens tokenize options text 0).find? (SourceToken.cutBy startChar) with
  | none => rfl
  | some t =>
      have hcut := List.find?_some hfound
      simp only [SourceToken.cutBy, Bool.and_eq_true, decide_eq_true_eq] at hcut
      exact h.fragmentTokens (by omega) hstart

theorem Lawful.rightFragment (h : Lawful tokenize) (endChar : Nat) :
    rightFragment tokenize text (plainTokens tokenize options text 0) endChar
      (started (plainTokens tokenize options text 0) endChar) options.ignorePunctuation =
        .ok (rightPart tokenize text options endChar) := by
  rw [Texts.rightFragment, h.ordered.find_right, rightPart]
  cases hfound : (plainTokens tokenize options text 0).find? (SourceToken.cutBy endChar) with
  | none => rfl
  | some t =>
      have hcut := List.find?_some hfound
      have ht := h.plainTokens_within (List.mem_of_find?_eq_some hfound)
      simp only [SourceToken.cutBy, Bool.and_eq_true, decide_eq_true_eq] at hcut
      exact h.fragmentTokens (by omega) (by omega)

section Take

variable {tokens part : List SourceToken} {n k : Nat}

theorem contextStart_eq (hk : k ≤ tokens.length) :
    contextStart tokens part n k = .ok (((tokens.take k ++ part).rtake n).head?.map SourceToken.start) := by
  rw [head?_rtake, List.length_take, Nat.min_eq_left hk, contextStart]
  split
  · rfl
  · split
    · rename_i hlt
      rw [List.getElem?_take, if_pos hlt, index, List.getElem?_eq_getElem (by omega)]
      rfl
    · rfl

theorem contextEnd_eq (hk : k ≤ tokens.length) :
    contextEnd tokens part n k = .ok (((part ++ tokens.drop k).take n).getLast?.map SourceToken.stop) := by
  rw [getLast?_take, List.length_drop, contextEnd]
  by_cases hn : n = 0
  · rw [if_pos hn, if_pos hn]
    rfl
  · rw [if_neg hn, if_neg hn]
    by_cases hlt : k < min (k + (n - min n part.length)) tokens.length
    · have hat : min (k + (n - min n part.length)) tokens.length - 1 =
          k + (min (n - min n part.length) (tokens.length - k) - 1) := by omega
      rw [if_pos hlt, if_pos (by omega), List.getElem?_drop, ← hat, index, List.getElem?_eq_getElem (by omega)]
      rfl
    · rw [if_neg hlt, if_neg (by omega)]

theorem adjacentLeft_eq (hk : k ≤ tokens.length) :
    adjacentLeft tokens part n k = (((tokens.take k ++ part).rtake n).getLast?.map SourceToken.text).getD [] := by
  rw [getLast?_rtake, List.length_take, Nat.min_eq_left hk, adjacentLeft]
  split
  · rfl
  · split
    · rfl
    · rw [List.getElem?_take, if_pos (by omega)]

theorem adjacentRight_eq :
    adjacentRight tokens part n k = (((part ++ tokens.drop k).take n).head?.map SourceToken.text).getD [] := by
  rw [head?_take, List.getElem?_drop, Nat.add_zero, adjacentRight]
  split
  · rfl
  · split <;> rfl

end Take

/-- With the cursors at the ends of the hit, the window is taken from the tokens on either side. -/
theorem Lawful.rawContextWindow (h : Lawful tokenize) {startChar : Nat} (hstart : startChar ≤ text.length) (endChar : Nat) :
    rawContextWindow tokenize text (plainTokens tokenize options text 0) startChar endChar
      (ended (plainTokens tokenize options text 0) startChar) (started (plainTokens tokenize options text 0) endChar) options =
        .ok {
          contextStart := ((leftTokens tokenize text options startChar).rtake options.leftTokens).head?.map SourceToken.start
          contextEnd := ((rightTokens tokenize text options endChar).take options.rightTokens).getLast?.map SourceToken.stop
          adjacentLeft :=
            (((leftTokens tokenize text options startChar).rtake options.leftTokens).getLast?.map SourceToken.text).getD []
          adjacentRight :=
            (((rightTokens tokenize text options endChar).take options.rightTokens).head?.map SourceToken.text).getD [] } := by
  have hended := ended_le_length (plainTokens tokenize options text 0) startChar
  have hstarted := started_le_length (plainTokens tokenize options text 0) endChar
  rw [leftTokens, rightTokens, ← h.ordered.take_ended, ← h.ordered.drop_started, Texts.rawContextWindow, bind_eq_ok]
  refine ⟨_, h.leftFragment hstart, bind_eq_ok.mpr ⟨_, contextStart_eq hended, bind_eq_ok.mpr ⟨_, h.rightFragment endChar,
    bind_eq_ok.mpr ⟨_, contextEnd_eq hstarted, ?_⟩⟩⟩⟩
  rw [adjacentLeft_eq hended, adjacentRight_eq]
  rfl

theorem seek_eq (p : SourceToken → Bool) (tokens : List SourceToken) (k : Nat) :
    seek p tokens k = k + (tokens.takeWhile p).length := by
  induction tokens generalizing k with
  | nil => rfl
  | cons t tokens ih =>
      rw [seek]
      split
      · rename_i hp
        rw [ih, List.takeWhile_cons_of_pos hp, List.length_cons]
        omega
      · rename_i hp
        rw [List.takeWhile_cons_of_neg hp]
        rfl

theorem seek_drop {p : SourceToken → Bool} {tokens : List SourceToken} {k : Nat} (h : k ≤ (tokens.takeWhile p).length) :
    seek p (tokens.drop k) k = (tokens.takeWhile p).length := by
  rw [seek_eq, length_takeWhile_drop h]

/-- Tokens that end before a hit starts also start before it ends. -/
theorem Ordered.ended_le_started {tokens : List SourceToken} (h : Ordered tokens) {first last : Nat} (hle : first ≤ last) :
    ended tokens first ≤ started tokens last := by
  apply length_takeWhile_mono
  intro t ht hstop
  have := h.positive t ht
  simp only [decide_eq_true_eq] at hstop ⊢
  omega

theorem ended_mono {tokens : List SourceToken} {first last : Nat} (hle : first ≤ last) :
    ended tokens first ≤ ended tokens last := by
  apply length_takeWhile_mono
  intro t _ hstop
  simp only [decide_eq_true_eq] at hstop ⊢
  omega

theorem started_mono {tokens : List SourceToken} {first last : Nat} (hle : first ≤ last) :
    started tokens first ≤ started tokens last := by
  apply length_takeWhile_mono
  intro t _ hstart
  simp only [decide_eq_true_eq] at hstart ⊢
  omega

/-- The contexts lie between the hit and the furthest tokens of its windows. -/
theorem Lawful.leftContext (h : Lawful tokenize) {hit : Hit} (hhit : Boundary text hit.start) {window : ContextWindow}
    (hwindow : window.contextStart =
      ((leftTokens tokenize text options (charsBefore text hit.start)).rtake options.leftTokens).head?.map SourceToken.start) :
    leftContext text hit window = .ok ((((leftTokens tokenize text options (charsBefore text hit.start)).rtake
      options.leftTokens).head?.map fun t => chars text t.start (charsBefore text hit.start)).getD []) := by
  obtain ⟨hle, hextent⟩ := hhit.extent_take
  rw [Texts.leftContext, hwindow]
  cases hhead : ((leftTokens tokenize text options (charsBefore text hit.start)).rtake options.leftTokens).head? with
  | none => rfl
  | some t =>
      have hmem : t ∈ leftTokens tokenize text options (charsBefore text hit.start) :=
        (List.drop_sublist _ _).subset (List.mem_of_head? hhead)
      have hbefore := h.leftTokens_within hmem
      have hslice := @slice_chars text _ _ hbefore
      rw [hextent] at hslice
      refine bind_eq_ok.mpr ⟨_, index_charToByte (hbefore.trans hle), hslice⟩

theorem Lawful.rightContext (h : Lawful tokenize) {hit : Hit} (hhit : Boundary text hit.stop) {window : ContextWindow}
    (hwindow : window.contextEnd =
      ((rightTokens tokenize text options (charsBefore text hit.stop)).take options.rightTokens).getLast?.map SourceToken.stop) :
    rightContext text hit window = .ok ((((rightTokens tokenize text options (charsBefore text hit.stop)).take
      options.rightTokens).getLast?.map fun t => chars text (charsBefore text hit.stop) t.stop).getD []) := by
  obtain ⟨-, hextent⟩ := hhit.extent_take
  rw [Texts.rightContext, hwindow]
  cases hlast : ((rightTokens tokenize text options (charsBefore text hit.stop)).take options.rightTokens).getLast? with
  | none => rfl
  | some t =>
      have hmem : t ∈ rightTokens tokenize text options (charsBefore text hit.stop) :=
        (List.take_sublist _ _).subset (List.mem_of_getLast? hlast)
      obtain ⟨hafter, hwithin⟩ := h.rightTokens_within hmem
      have hslice := @slice_chars text _ _ hafter
      rw [hextent] at hslice
      refine bind_eq_ok.mpr ⟨_, index_charToByte hwithin, hslice⟩

/-- The cursors never pass the hits to come, so that each hit finds them as a scan from the first token would. -/
theorem Lawful.matchHits (h : Lawful tokenize) {hits : List Hit} (hhits : Hits text hits) {leftEnd rightStart : Nat}
    (hleft : ∀ hit ∈ hits, leftEnd ≤ ended (plainTokens tokenize options text 0) (charsBefore text hit.start))
    (hright : ∀ hit ∈ hits, rightStart ≤ started (plainTokens tokenize options text 0) (charsBefore text hit.stop)) :
    matchHits tokenize text (plainTokens tokenize options text 0) options
      (hits.map fun hit => (hit, charsBefore text hit.start, charsBefore text hit.stop)) leftEnd rightStart =
        .ok (hits.map (recomputed tokenize text options)) := by
  induction hits generalizing leftEnd rightStart with
  | nil => rfl
  | cons hit hits ih =>
      obtain ⟨hleftHit, hleftRest⟩ := List.forall_mem_cons.mp hleft
      obtain ⟨hrightHit, hrightRest⟩ := List.forall_mem_cons.mp hright
      obtain ⟨⟨hstart, hstop⟩, hboundaries⟩ := List.forall_mem_cons.mp hhits.boundaries
      obtain ⟨hforward, hforwards⟩ := List.forall_mem_cons.mp hhits.forward
      obtain ⟨hnext, hdisjoint⟩ := List.pairwise_cons.mp hhits.disjoint
      have hspan := @charsBefore_mono text _ _ hforward
      have hseekLeft := seek_drop hleftHit
      have hmax : max rightStart (ended (plainTokens tokenize options text 0) (charsBefore text hit.start)) ≤
          started (plainTokens tokenize options text 0) (charsBefore text hit.stop) :=
        max_le hrightHit (h.ordered.ended_le_started hspan)
      have hseekRight := seek_drop hmax
      have hrest := ih ⟨hboundaries, hforwards, hdisjoint⟩
        (fun later hlater => ended_mono (charsBefore_mono (hforward.trans (hnext later hlater))))
        (fun later hlater => started_mono (charsBefore_mono ((hnext later hlater).trans (hforwards later hlater))))
      change seek _ _ _ = ended (plainTokens tokenize options text 0) (charsBefore text hit.start) at hseekLeft
      change seek _ _ _ = started (plainTokens tokenize options text 0) (charsBefore text hit.stop) at hseekRight
      have hwindow := @Lawful.rawContextWindow _ _ options h _ hstart.extent_take.1 (charsBefore text hit.stop)
      rw [List.map_cons, List.map_cons, Texts.matchHits]
      simp only [hseekLeft, hseekRight]
      refine bind_eq_ok.mpr ⟨_, hwindow, bind_eq_ok.mpr ⟨_, h.leftContext hstart rfl, bind_eq_ok.mpr ⟨_,
        h.rightContext hstop rfl, bind_eq_ok.mpr ⟨_, hrest, rfl⟩⟩⟩⟩

end Matches

theorem zip_map_self {α β : Type} (f : α → β) (xs : List α) : xs.zip (xs.map f) = xs.map fun x => (x, f x) := by
  induction xs with
  | nil => rfl
  | cons x xs ih => rw [List.map_cons, List.zip_cons_cons, List.map_cons, ih]

theorem findMatches_eq {tokenize : Bool → List Char → List Token} {text : List Char} {options : ConcordanceOptions}
    {findIter : List Char → List Hit} (h : Lawful tokenize) (hhits : Hits text (findIter text)) :
    findMatches tokenize text findIter options = .ok ((findIter text).map (recomputed tokenize text options)) := by
  have hspans : byteSpansToCharSpans text ((findIter text).map fun hit => (hit.start, hit.stop)) =
      (findIter text).map fun hit => (charsBefore text hit.start, charsBefore text hit.stop) := by
    have hdisjoint : ((findIter text).map fun hit => (hit.start, hit.stop)).Pairwise fun a b => a.2 ≤ b.1 :=
      List.pairwise_map.mpr hhits.disjoint
    have hdocumented : Documented text ((findIter text).map fun hit => (hit.start, hit.stop)) := by
      refine ⟨List.forall_mem_map.mpr hhits.boundaries, List.forall_mem_map.mpr hhits.forward, ?_⟩
      rw [List.pairwise_map]
      apply hhits.disjoint.imp_of_mem
      intro a b ha _ hab
      exact (hhits.forward a ha).trans hab
    rw [(byteSpans_eq_iff hdocumented).mpr hdisjoint, List.map_map]
    rfl
  rw [findMatches]
  simp only [hspans, zip_map_self]
  refine bind_eq_ok.mpr ⟨_, h.sourceTokens text, ?_⟩
  exact h.matchHits hhits (fun _ _ => Nat.zero_le _) fun _ _ => Nat.zero_le _

namespace TokenConcordance

variable {fold : List Char → List Char} {search : TokenConcordance} {text : List Char} {tokens : List Token}

/-- Tokens of the text in order; they may overlap, be equal or be empty. -/
structure Accepts (text : List Char) (tokens : List Token) : Prop where
  within : ∀ t ∈ tokens, 0 ≤ t.start ∧ t.start ≤ t.stop ∧ t.stop ≤ (text.length : Int)
  ordered : tokens.Pairwise fun a b => a.start ≤ b.start ∧ a.stop ≤ b.stop

/-- The windows of a token are the tokens next to it. -/
def windows (search : TokenConcordance) (text : List Char) (tokens : List Token) (i : Nat) (t : Token) : ConcordanceMatch :=
  let left := (tokens.take i).rtake search.options.leftTokens
  let right := (tokens.drop (i + 1)).take search.options.rightTokens
  { leftContext := (left.head?.map fun first => chars text first.start.toNat t.start.toNat).getD []
    matchedText := t.token
    rightContext := (right.getLast?.map fun last => chars text t.stop.toNat last.stop.toNat).getD []
    startIdx := t.start
    endIdx := t.stop
    l1 := ((tokens.take i).getLast?.map Token.token).getD []
    r1 := ((tokens.drop (i + 1)).head?.map Token.token).getD [] }

theorem chars_self (text : List Char) (i : Nat) : chars text i i = [] := by rw [chars, Nat.sub_self, List.take_zero]

theorem length_charToByte (text : List Char) : (charToByte text).length = text.length + 1 := by simp [charToByte]

theorem checkToken_eq_ok {t : Token} :
    checkToken text t = .ok () ↔ 0 ≤ t.start ∧ t.start ≤ t.stop ∧ t.stop ≤ (text.length : Int) := by
  rw [checkToken, length_charToByte]
  split
  · rename_i h
    refine ⟨fun _ => ⟨h.1, h.2.1, by omega⟩, fun _ => rfl⟩
  · rename_i h
    exact ⟨fun heq => (nomatch heq), fun hin => absurd ⟨hin.1, hin.2.1, by omega⟩ h⟩

theorem sliceChars_eq {a b : Int} (ha : 0 ≤ a) (hab : a ≤ b) (hb : b ≤ (text.length : Int)) :
    sliceChars text a b = .ok (chars text a.toNat b.toNat) := by
  have hstart : a.toNat ≤ text.length := by omega
  have hstop : b.toNat ≤ text.length := by omega
  exact bind_eq_ok.mpr ⟨_, index_charToByte hstart, bind_eq_ok.mpr ⟨_, index_charToByte hstop, slice_chars (by omega)⟩⟩

theorem checkToken_cases (t : Token) :
    checkToken text t = .ok () ∨ checkToken text t = .error (.error "Invalid tokenizer character offsets") := by
  rw [checkToken]
  split
  · exact .inl rfl
  · exact .inr rfl

theorem forM_checkToken (h : ¬∀ t ∈ tokens, checkToken text t = .ok ()) :
    tokens.forM (checkToken text) = .error (.error "Invalid tokenizer character offsets") := by
  induction tokens with
  | nil => exact absurd (fun t ht => nomatch ht) h
  | cons t tokens ih =>
      change (checkToken text t >>= fun _ => tokens.forM (checkToken text)) = _
      rcases @checkToken_cases text t with hok | herror
      · rw [hok]
        exact ih fun hrest => h (List.forall_mem_cons.mpr ⟨hok, hrest⟩)
      · rw [herror]
        rfl

/-- Going back n tokens from the i-th finds the first of its left window, or itself where that is empty. -/
theorem left_start (h : Accepts text tokens) {i n : Nat} {t : Token} (hi : tokens[i]? = some t) :
    ∃ left, tokens[i - n]? = some left ∧ 0 ≤ left.start ∧ left.start ≤ t.start ∧
      chars text left.start.toNat t.start.toNat =
        ((((tokens.take i).rtake n).head?.map fun first => chars text first.start.toNat t.start.toNat).getD []) := by
  obtain ⟨hlt, rfl⟩ := List.getElem?_eq_some_iff.mp hi
  have hback : i - n < tokens.length := by omega
  refine ⟨tokens[i - n], List.getElem?_eq_getElem hback, (h.within _ (List.getElem_mem hback)).1, ?_, ?_⟩
  · rcases Nat.lt_or_eq_of_le (Nat.sub_le i n) with hless | heq
    · exact (List.pairwise_iff_getElem.mp h.ordered _ _ hback hlt hless).1
    · simp only [heq, le_refl]
  · rw [List.rtake, List.head?_drop, List.length_take, Nat.min_eq_left hlt.le, List.getElem?_take]
    by_cases hless : i - n < i
    · rw [if_pos hless, List.getElem?_eq_getElem hback]
      rfl
    · have heq : i - n = i := by omega
      rw [if_neg hless]
      simp only [heq, chars_self]
      rfl

theorem right_stop (h : Accepts text tokens) {i n : Nat} {t : Token} (hi : tokens[i]? = some t) :
    ∃ right, tokens[min (i + n) (tokens.length - 1)]? = some right ∧ t.stop ≤ right.stop ∧
      right.stop ≤ (text.length : Int) ∧
      chars text t.stop.toNat right.stop.toNat =
        ((((tokens.drop (i + 1)).take n).getLast?.map fun last => chars text t.stop.toNat last.stop.toNat).getD []) := by
  obtain ⟨hlt, rfl⟩ := List.getElem?_eq_some_iff.mp hi
  have hahead : min (i + n) (tokens.length - 1) < tokens.length := by omega
  refine ⟨_, List.getElem?_eq_getElem hahead, ?_, (h.within _ (List.getElem_mem hahead)).2.2, ?_⟩
  · rcases Nat.lt_or_eq_of_le (show i ≤ min (i + n) (tokens.length - 1) by omega) with hless | heq
    · exact (List.pairwise_iff_getElem.mp h.ordered _ _ hlt hahead hless).2
    · simp only [← heq, le_refl]
  · rw [List.getLast?_eq_getElem?, List.length_take, List.length_drop, List.getElem?_take, List.getElem?_drop]
    by_cases hnone : min n (tokens.length - (i + 1)) = 0
    · have heq : min (i + n) (tokens.length - 1) = i := by omega
      simp only [heq, chars_self]
      split
      · rw [List.getElem?_eq_none (by omega)]
        rfl
      · rfl
    · have heq : i + 1 + (min n (tokens.length - (i + 1)) - 1) = min (i + n) (tokens.length - 1) := by omega
      rw [if_pos (by omega), heq, List.getElem?_eq_getElem hahead]
      rfl

theorem tokenMatch_eq (h : Accepts text tokens) {i : Nat} {t : Token} (hi : tokens[i]? = some t) :
    tokenMatch search text tokens i t = .ok (windows search text tokens i t) := by
  obtain ⟨left, hleft, hpos, hle, hleftContext⟩ := left_start h (n := search.options.leftTokens) hi
  obtain ⟨right, hright, hge, hwithin, hrightContext⟩ := right_stop h (n := search.options.rightTokens) hi
  obtain ⟨hstart, hspan, hstop⟩ := h.within t (List.mem_of_getElem? hi)
  have hl1 : (if i = 0 then [] else ((tokens[i - 1]?).map Token.token).getD []) =
      ((tokens.take i).getLast?.map Token.token).getD [] := by
    obtain ⟨hlt, -⟩ := List.getElem?_eq_some_iff.mp hi
    rw [List.getLast?_eq_getElem?, List.length_take, Nat.min_eq_left hlt.le, List.getElem?_take]
    by_cases hzero : i = 0
    · simp [hzero]
    · rw [if_neg hzero, if_pos (by omega)]
  have hr1 : ((tokens[i + 1]?).map Token.token).getD [] = ((tokens.drop (i + 1)).head?.map Token.token).getD [] := by
    rw [List.head?_drop]
  have hindexLeft : index tokens (i - search.options.leftTokens) = .ok left := by rw [index, hleft]
  have hindexRight : index tokens (min (i + search.options.rightTokens) (tokens.length - 1)) = .ok right := by
    rw [index, hright]
  refine bind_eq_ok.mpr ⟨left, hindexLeft, bind_eq_ok.mpr ⟨right, hindexRight, bind_eq_ok.mpr
    ⟨_, sliceChars_eq hpos hle (by omega), bind_eq_ok.mpr ⟨_, sliceChars_eq (by omega) hge hwithin, ?_⟩⟩⟩⟩
  rw [hleftContext, hrightContext, hl1, hr1]
  rfl

theorem tokenMatches_eq (h : Accepts text tokens) {rest : List (Token × Nat)}
    (hrest : ∀ p ∈ rest, tokens[p.2]? = some p.1) :
    tokenMatches fold search text tokens rest =
      .ok ((rest.filter fun p => key fold search.options p.1.token ∈ search.alternatives).map fun p =>
        windows search text tokens p.2 p.1) := by
  induction rest with
  | nil => rfl
  | cons p rest ih =>
      obtain ⟨t, i⟩ := p
      obtain ⟨hp, hrest⟩ := List.forall_mem_cons.mp hrest
      rw [tokenMatches]
      by_cases hkey : key fold search.options t.token ∈ search.alternatives
      · rw [if_neg (by simpa using hkey), List.filter_cons_of_pos (by simpa using hkey), List.map_cons]
        exact bind_eq_ok.mpr ⟨_, tokenMatch_eq h hp, bind_eq_ok.mpr ⟨_, ih hrest, rfl⟩⟩
      · rw [if_pos hkey, List.filter_cons_of_neg (by simpa using hkey), ih hrest]

theorem all_adjacent_iff : ((tokens.zip tokens.tail).all fun pair => pair.1.start ≤ pair.2.start && pair.1.stop ≤ pair.2.stop) = true ↔
    tokens.Pairwise fun a b => a.start ≤ b.start ∧ a.stop ≤ b.stop := by
  rw [List.all_eq_true]
  constructor
  · intro h
    refine pairwise_of_adjacent (fun a b c hab hbc => ⟨hab.1.trans hbc.1, hab.2.trans hbc.2⟩) fun p hp => ?_
    simpa using h p hp
  · intro h p hp
    have hadjacent : ∀ xs : List Token, xs.Pairwise (fun a b => a.start ≤ b.start ∧ a.stop ≤ b.stop) →
        ∀ p ∈ xs.zip xs.tail, p.1.start ≤ p.2.start ∧ p.1.stop ≤ p.2.stop := by
      intro xs hxs
      induction xs with
      | nil => exact fun p hp => nomatch hp
      | cons a xs ih =>
          cases xs with
          | nil => exact fun p hp => nomatch hp
          | cons b xs =>
              obtain ⟨hhead, htail⟩ := List.pairwise_cons.mp hxs
              rw [List.tail_cons, List.zip_cons_cons, List.forall_mem_cons]
              exact ⟨hhead b List.mem_cons_self, ih htail⟩
    simpa using hadjacent tokens h p hp

/-- Token lists that are accepted give each alternative with its windows; any other is an error. -/
theorem find_spec : (Accepts text tokens ∧ find fold search text tokens =
      .ok ((tokens.zipIdx.filter fun p => key fold search.options p.1.token ∈ search.alternatives).map fun p =>
        windows search text tokens p.2 p.1)) ∨
    (¬Accepts text tokens ∧ ∃ message, find fold search text tokens = .error (.error message)) := by
  by_cases hwithin : ∀ t ∈ tokens, checkToken text t = .ok ()
  · have hforM := forM_eq_ok.mpr hwithin
    have hin := fun t ht => checkToken_eq_ok.mp (hwithin t ht)
    by_cases hordered : ((tokens.zip tokens.tail).all fun pair => pair.1.start ≤ pair.2.start && pair.1.stop ≤ pair.2.stop) = true
    · have haccepts : Accepts text tokens := ⟨hin, all_adjacent_iff.mp hordered⟩
      refine .inl ⟨haccepts, bind_eq_ok.mpr ⟨(), hforM, ?_⟩⟩
      rw [if_pos hordered]
      exact tokenMatches_eq haccepts fun p hp => List.mk_mem_zipIdx_iff_getElem?.mp hp
    · refine .inr ⟨fun haccepts => hordered (all_adjacent_iff.mpr haccepts.ordered), "Tokenizer offsets are not ordered", ?_⟩
      rw [find, hforM]
      exact if_neg hordered
  · refine .inr ⟨fun haccepts => hwithin fun t ht => checkToken_eq_ok.mpr (haccepts.within t ht),
      "Invalid tokenizer character offsets", ?_⟩
    rw [find, forM_checkToken hwithin]
    rfl

end TokenConcordance

/-- A search fails in neither way, and the windows of its hits are those found
for each hit alone; the tokens that a tokenizer model gives are searched
exactly where they lie in the text in order. -/
theorem concordance_windows {tokenize : Bool → List Char → List Token} (h : Lawful tokenize) (text : List Char)
    {findIter : List Char → List Hit} (hhits : Hits text (findIter text)) (options : ConcordanceOptions)
    (fold : List Char → List Char) (search : TokenConcordance) (tokens : List Token) :
    findMatches tokenize text findIter options = .ok ((findIter text).map (recomputed tokenize text options)) ∧
    ((TokenConcordance.Accepts text tokens ∧ search.find fold text tokens =
        .ok ((tokens.zipIdx.filter fun p => TokenConcordance.key fold search.options p.1.token ∈ search.alternatives).map
          fun p => search.windows text tokens p.2 p.1)) ∨
      (¬TokenConcordance.Accepts text tokens ∧ ∃ message, search.find fold text tokens = .error (.error message))) :=
  ⟨findMatches_eq h hhits, TokenConcordance.find_spec⟩

section Letters

/-- The words of a text as its runs of letters. -/
def letterRuns (start : Nat) (word : List Char) : List Char → List Token
  | [] => if word = [] then [] else [⟨word, start, (start + word.length : Nat)⟩]
  | c :: text =>
      if c.isAlpha then letterRuns start (word ++ [c]) text
      else if word = [] then letterRuns (start + 1) [] text
      else ⟨word, start, (start + word.length : Nat)⟩ :: letterRuns (start + word.length + 1) [] text

theorem letterRuns_within (start : Nat) (word text : List Char) : ∀ t ∈ letterRuns start word text,
    (start : Int) ≤ t.start ∧ t.start < t.stop ∧ t.stop ≤ ((start + word.length + text.length : Nat) : Int) := by
  induction text generalizing start word with
  | nil =>
      intro t ht
      rw [letterRuns] at ht
      split at ht
      · cases ht
      · rename_i hword
        obtain rfl := List.mem_singleton.mp ht
        have := List.length_pos_of_ne_nil hword
        simp only [List.length_nil]
        omega
  | cons c text ih =>
      intro t ht
      rw [letterRuns] at ht
      rw [List.length_cons]
      split at ht
      · have := ih _ _ t ht
        rw [List.length_append, List.length_singleton] at this
        omega
      · split at ht
        · rename_i hword
          have := ih _ _ t ht
          simp only [hword, List.length_nil] at this ⊢
          omega
        · rename_i hword
          have := List.length_pos_of_ne_nil hword
          rcases List.mem_cons.mp ht with rfl | ht
          · simp only
            omega
          · have := ih _ _ t ht
            simp only [List.length_nil] at this
            omega

theorem letterRuns_disjoint (start : Nat) (word text : List Char) :
    (letterRuns start word text).Pairwise fun a b => a.stop ≤ b.start := by
  induction text generalizing start word with
  | nil =>
      rw [letterRuns]
      split
      · exact .nil
      · exact List.pairwise_singleton _ _
  | cons c text ih =>
      rw [letterRuns]
      split
      · exact ih _ _
      · split
        · exact ih _ _
        · apply List.Pairwise.cons _ (ih _ _)
          intro t ht
          have := letterRuns_within _ _ _ t ht
          simp only
          omega

theorem letterRuns_lawful : Lawful fun _ => letterRuns 0 [] where
  within _ text t ht := by
    have := letterRuns_within 0 [] text t ht
    simp only [List.length_nil, Nat.zero_add] at this
    exact_mod_cast this
  disjoint _ text := letterRuns_disjoint 0 [] text

end Letters

/-- A hit inside a word, and an empty one before the next. -/
theorem nap_windows :
    findMatches (fun _ => letterRuns 0 []) "cats nap".toList (fun _ => [⟨1, 3, "at".toList⟩, ⟨5, 5, []⟩]) ⟨1, 1, true, true⟩ =
      .ok [⟨"c".toList, "at".toList, "s".toList, 1, 3, "c".toList, "s".toList⟩,
        ⟨"cats ".toList, [], "nap".toList, 5, 5, "cats".toList, "nap".toList⟩] := by
  have hhits : Hits "cats nap".toList [⟨1, 3, "at".toList⟩, ⟨5, 5, []⟩] := ⟨by decide, by decide, by decide⟩
  have hwindows := @concordance_windows _ letterRuns_lawful "cats nap".toList
    (fun _ => [⟨1, 3, "at".toList⟩, ⟨5, 5, []⟩]) hhits ⟨1, 1, true, true⟩ id ⟨[], ⟨1, 1, true, true⟩⟩ []
  exact hwindows.1.trans rfl

end Wordflow.Texts
