import Wordflow.Library.Sorted
import Wordflow.Segmentation.Segments

namespace Wordflow.Segmentation

open Library Library.Fallible

abbrev IsBlank (text : Document) : Prop := AllBlank Text.isWhitespace text

abbrev IsFramed (text lead body trail : Document) : Prop := Framed Text.isWhitespace text lead body trail

def TopicSegment.span (s : TopicSegment) : Nat × Nat := (s.startByte, s.endByte)

/-- The segments are the parts of a text that starts at `pos`. -/
def Parts (pos : Nat) (text : Document) (segments : List TopicSegment) : Prop :=
  Tiles Text.isWhitespace pos text (segments.map TopicSegment.span)

section Ranges

variable {docIndex i j : Nat} {doc text lead body trail : Document}

theorem trimmedRange_blank (h : slice? doc i j = some text) (hblank : IsBlank text) :
    trimmedRange doc i j = .ok none := by
  have hstart : Text.trimStart text = [] := allBlank_dropWhile.mp hblank
  have hj := slice?_extent h
  simp only [trimmedRange, h, hstart, extent_nil, Nat.sub_zero, ← hj]
  rw [if_neg]
  omega

theorem trimmedRange_framed (h : slice? doc i j = some text) (hframed : IsFramed text lead body trail) :
    trimmedRange doc i j = .ok (some (i + extent lead, i + extent lead + extent body)) := by
  have hstart : Text.trimStart text = body ++ trail := hframed.dropWhile
  have hstop : Text.trimEnd text = lead ++ body := hframed.dropWhile_reverse
  have hj := slice?_extent h
  have hsize := congrArg extent hframed.eq
  have hbody := extent_pos hframed.body.ne_nil
  simp only [extent_append] at hsize
  simp only [trimmedRange, h, hstart, hstop, extent_append]
  have hleading : i + (extent text - (extent body + extent trail)) = i + extent lead := by omega
  have htrailing : j - (extent text - (extent lead + extent body)) = i + extent lead + extent body := by omega
  rw [hleading, htrailing, if_pos (by omega)]

theorem trim_framed (hframed : IsFramed text lead body trail) :
    Text.trimEnd (Text.trimStart text) = body := by
  have hstart : Text.trimStart text = body ++ trail := hframed.dropWhile
  have hbody : IsFramed (body ++ trail) [] body trail := ⟨rfl, allBlank_nil, hframed.trail, hframed.body⟩
  rw [hstart]
  exact hbody.dropWhile_reverse

theorem topicSegment_eq (h : slice? doc i j = some text) :
    topicSegment docIndex doc i j = .ok ⟨docIndex, i, j, text.length⟩ := by
  simp only [topicSegment, h]

theorem framed_slices (h : slice? doc i j = some text) (hframed : IsFramed text lead body trail) :
    slice? doc i (i + extent lead) = some lead ∧
      slice? doc (i + extent lead) (i + extent lead + extent body) = some body ∧
        slice? doc (i + extent lead + extent body) j = some trail := by
  rw [hframed.eq] at h
  obtain ⟨hfirst, htrail⟩ := slice?_split.mp h
  rw [extent_append, ← Nat.add_assoc] at hfirst htrail
  obtain ⟨hlead, hbody⟩ := slice?_split.mp hfirst
  exact ⟨hlead, hbody, htrail⟩

variable (docIndex) in
theorem parts_body (pos : Nat) (hbody : Trimmed Text.isWhitespace body) :
    Parts pos body [⟨docIndex, pos, pos + extent body, body.length⟩] := by
  have hframed : IsFramed body [] body [] := ⟨by simp, allBlank_nil, allBlank_nil, hbody⟩
  have htiles : Tiles Text.isWhitespace pos body _ := Tiles.single hframed
  simpa [Parts, TopicSegment.span] using htiles

theorem parts_framed {pos : Nat} {segments : List TopicSegment} (hframed : IsFramed text lead body trail)
    (h : Parts (pos + extent lead) body segments) : Parts pos text segments := by
  have hbody := h.append (.blank hframed.trail)
  rw [List.append_nil] at hbody
  rw [hframed.eq, List.append_assoc]
  exact Tiles.lead hframed.lead hbody

variable (docIndex) in
/-- A range between two characters gives one segment, or none if it is blank. -/
theorem rangeSegment_parts (h : slice? doc i j = some text) :
    ∃ segments, rangeSegment docIndex doc i j = .ok segments ∧ Parts i text segments := by
  rcases framed_or_blank text with hblank | ⟨lead, body, trail, hframed⟩
  · refine ⟨[], ?_, .blank hblank⟩
    rw [rangeSegment, trimmedRange_blank h hblank]
    rfl
  · obtain ⟨-, hbody, -⟩ := framed_slices h hframed
    refine ⟨_, ?_, parts_framed hframed (parts_body docIndex _ hframed.body)⟩
    rw [rangeSegment, trimmedRange_framed h hframed]
    simp only [bind, Except.bind, topicSegment_eq hbody]
    rfl

variable (docIndex) in
theorem rangeSegment_reversed (h : j < i) : ∃ e, rangeSegment docIndex doc i j = .error e := by
  rw [rangeSegment, trimmedRange, slice?_of_lt h]
  exact ⟨_, rfl⟩

end Ranges

section Pieces

variable {doc : Document}

theorem boundIndices_slices {pieces : List Document} : ∀ {i k : Nat}, slice? doc i k = some pieces.flatten →
    ∀ p ∈ boundIndices i pieces, slice? doc p.1 (p.1 + extent p.2) = some p.2 := by
  induction pieces with
  | nil => simp [boundIndices]
  | cons piece rest ih =>
      intro i k h
      rw [List.flatten_cons] at h
      obtain ⟨hpiece, hrest⟩ := slice?_split.mp h
      rw [boundIndices, List.forall_mem_cons]
      exact ⟨hpiece, ih hrest⟩

/-- Segments piece by piece are the segments of the pieces together. -/
theorem parts_pieces {base i : Nat} {pieces : List Document} {f : Nat × Document → Except Failure (List TopicSegment)}
    {parts : List (List TopicSegment)} (h : (boundIndices i pieces).mapM f = .ok parts)
    (hf : ∀ p ∈ boundIndices i pieces, ∀ segments, f p = .ok segments → Parts (base + p.1) p.2 segments) :
    Parts (base + i) pieces.flatten parts.flatten := by
  rw [mapM_eq_ok] at h
  induction pieces generalizing i parts with
  | nil =>
      cases h
      exact .blank allBlank_nil
  | cons piece rest ih =>
      rw [boundIndices] at h hf
      cases h with
      | cons hhead htail =>
          obtain ⟨hpiece, hrest⟩ := List.forall_mem_cons.mp hf
          have hfirst := hpiece _ hhead
          have hlater := ih htail hrest
          rw [← Nat.add_assoc] at hlater
          rw [List.flatten_cons, List.flatten_cons, Parts, List.map_append]
          exact hfirst.append hlater

theorem splitInclusive_flatten (text : Document) : (splitInclusive text).flatten = text := by
  induction text with
  | nil => rfl
  | cons c cs ih =>
      rw [splitInclusive]
      split
      · rw [List.flatten_cons, ih]
        rfl
      · cases hlines : splitInclusive cs with
        | nil =>
            rw [hlines] at ih
            rw [← ih]
            rfl
        | cons line lines =>
            rw [hlines] at ih
            rw [← ih]
            rfl

/-- Stripping a blank leaves the rest of a line. -/
theorem stripSuffix_blank {c : Char} (hc : Text.isWhitespace c = true) (text : Document) :
    ∃ rest, text = stripSuffix c text ++ rest ∧ IsBlank rest := by
  rw [stripSuffix]
  split
  · rename_i hlast
    obtain ⟨ys, rfl⟩ := List.getLast?_eq_some_iff.mp hlast
    refine ⟨[c], by simp, ?_⟩
    intro x hx
    rw [List.mem_singleton.mp hx]
    exact hc
  · exact ⟨[], by simp, allBlank_nil⟩

theorem mapM_ok_iff {α : Type} {f : α → Except Failure (List TopicSegment)} {items : List α} :
    (∃ parts, items.mapM f = .ok parts) ↔ ∀ a ∈ items, ∃ segments, f a = .ok segments := by
  induction items with
  | nil => simp [pure, Except.pure]
  | cons a items ih =>
      rw [List.forall_mem_cons, ← ih, List.mapM_cons]
      constructor
      · rintro ⟨parts, h⟩
        obtain ⟨segments, hhead, h⟩ := bind_eq_ok.mp h
        obtain ⟨rest, hrest, -⟩ := bind_eq_ok.mp h
        exact ⟨⟨segments, hhead⟩, rest, hrest⟩
      · rintro ⟨⟨segments, hhead⟩, rest, hrest⟩
        exact ⟨segments :: rest, bind_eq_ok.mpr ⟨_, hhead, bind_eq_ok.mpr ⟨_, hrest, rfl⟩⟩⟩

end Pieces

section Tokens

/-- What the checks on the tokenizer's spans ensure. -/
structure Ordered (doc : Document) (tokens : List TokenSpan) : Prop where
  spans : ∀ t ∈ tokens, t.start < t.stop ∧ (splitAt? doc t.start).isSome ∧ (splitAt? doc t.stop).isSome
  starts : tokens.Pairwise fun t u => t.start ≤ u.start
  stops : tokens.Pairwise fun t u => t.stop ≤ u.stop

theorem tokenSpans_ordered {doc : Document} {encoding : Encoding} {tokens : List TokenSpan} {special : Nat}
    (h : tokenSpans doc encoding = .ok (tokens, special)) : Ordered doc tokens := by
  obtain ⟨-, h⟩ := guard_eq_ok.mp h
  obtain ⟨hvalid, h⟩ := guard_eq_ok.mp h
  obtain ⟨-, h⟩ := guard_eq_ok.mp h
  obtain ⟨rfl, -⟩ := Prod.mk.inj (Except.ok.inj h)
  rw [Bool.or_eq_true, not_or] at hvalid
  obtain ⟨hspans, hpairs⟩ := hvalid
  simp only [List.any_eq_true, not_exists, not_and, Bool.or_eq_true, not_or, decide_eq_true_eq, Nat.not_le,
    Nat.not_lt, Bool.not_eq_true', Bool.not_eq_false, isCharBoundary] at hspans hpairs
  refine ⟨fun t ht => ?_, ?_, ?_⟩
  · obtain ⟨⟨⟨hlt, -⟩, hstart⟩, hstop⟩ := hspans t ht
    exact ⟨hlt, hstart, hstop⟩
  · apply pairwise_of_adjacent
    · intro _ _ _ hab hbc
      exact Nat.le_trans hab hbc
    · exact fun p hp => (hpairs p hp).1
  · apply pairwise_of_adjacent
    · intro _ _ _ hab hbc
      exact Nat.le_trans hab hbc
    · exact fun p hp => (hpairs p hp).2

variable {doc : Document} {tokens : List TokenSpan}

theorem tokensInRange_eq (h : Ordered doc tokens) (start stop : Nat) :
    tokensInRange tokens start stop = tokens.filter fun t => start < t.stop && t.start < stop := by
  have htake : tokens.take (tokens.takeWhile fun t => t.start < stop).length = tokens.takeWhile fun t => t.start < stop :=
    (List.prefix_iff_eq_take.mp (List.takeWhile_prefix _)).symm
  have hdrop : ∀ n, (tokens.takeWhile fun t => t.start < stop).drop
      (min n (tokens.takeWhile fun t => t.start < stop).length) =
        (tokens.takeWhile fun t => t.start < stop).drop n := fun n => by
    rcases Nat.le_total n (tokens.takeWhile fun t => decide (t.start < stop)).length with hle | hle
    · rw [Nat.min_eq_left hle]
    · rw [Nat.min_eq_right hle, List.drop_length, List.drop_of_length_le hle]
  have hstarts : tokens.Pairwise fun t u => decide (u.start < stop) = true → decide (t.start < stop) = true :=
    h.starts.imp fun hle hlt => by
      rw [decide_eq_true_eq] at hlt ⊢
      exact Nat.lt_of_le_of_lt hle hlt
  have hstops : (tokens.takeWhile fun t => t.start < stop).Pairwise fun t u =>
      decide (u.stop ≤ start) = true → decide (t.stop ≤ start) = true :=
    (h.stops.sublist (List.takeWhile_sublist _)).imp fun hle hlt => by
      rw [decide_eq_true_eq] at hlt ⊢
      exact Nat.le_trans hle hlt
  simp only [tokensInRange]
  rw [htake, hdrop, drop_takeWhile, dropWhile_eq_filter hstops, takeWhile_eq_filter hstarts, List.filter_filter]
  apply List.filter_congr
  intro t _
  have hafter : (!decide (t.stop ≤ start)) = decide (start < t.stop) := by
    rw [← decide_not, decide_eq_decide]
    exact Nat.not_le
  rw [hafter]

/-- The tokens that start before an offset and end after it. -/
def straddling (tokens : List TokenSpan) (offset : Nat) : List TokenSpan :=
  tokens.filter fun t => t.start < offset && offset < t.stop

theorem straddling_sublist (h : Ordered doc tokens) {offset start stop : Nat} (hstart : start ≤ offset)
    (hstop : offset ≤ stop) : (straddling tokens offset).Sublist (tokensInRange tokens start stop) := by
  rw [tokensInRange_eq h]
  refine List.monotone_filter_right tokens fun t ht => ?_
  simp only [Bool.and_eq_true, decide_eq_true_eq] at ht ⊢
  omega

/-- The first token after a budget of tokens starts inside a range unless more
tokens than the budget straddle its start. -/
theorem straddling_le_iff (h : Ordered doc tokens) {start stop budget : Nat} (hle : start ≤ stop)
    (hlt : budget < (tokensInRange tokens start stop).length) :
    (straddling tokens start).length ≤ budget ↔ start ≤ (tokensInRange tokens start stop)[budget].start := by
  have hsorted : (tokensInRange tokens start stop).Pairwise fun t u =>
      decide (u.start < start) = true → decide (t.start < start) = true := by
    rw [tokensInRange_eq h]
    refine (h.starts.filter _).imp fun hle hstart => ?_
    simp only [decide_eq_true_eq] at hstart ⊢
    omega
  have heq : straddling tokens start = (tokensInRange tokens start stop).takeWhile fun t => t.start < start := by
    rw [takeWhile_eq_filter hsorted, tokensInRange_eq h, List.filter_filter, straddling]
    apply List.filter_congr
    intro t _
    by_cases ht : t.start < start
    · have ht' : t.start < stop := by omega
      simp [ht, ht']
    · simp [ht]
  rw [heq, length_takeWhile_le_iff hsorted hlt, decide_eq_false_iff_not, Nat.not_lt]

end Tokens

end Wordflow.Segmentation
