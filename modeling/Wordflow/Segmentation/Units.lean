import Wordflow.Segmentation.Ranges

namespace Wordflow.Segmentation

open Library Library.Fallible

/-- Where the part of a range that begins with token `k` begins. -/
def partStart (unitTokens : List TokenSpan) (start stop k : Nat) : Nat :=
  if k = 0 then start else (unitTokens[k]?.map TokenSpan.start).getD stop

/-- The tokens of a range, of which one beyond the budget begins inside it. -/
structure Divisible (doc : Document) (start stop budget : Nat) (unit : List TokenSpan) : Prop where
  inside : ∀ t ∈ unit, t.start < stop ∧ (splitAt? doc t.start).isSome
  sorted : unit.Pairwise fun t u => t.start ≤ u.start
  next : ∃ t, unit[budget]? = some t ∧ start ≤ t.start

section Parts

variable {docIndex budget start stop : Nat} {doc : Document} {unit : List TokenSpan}

theorem Divisible.lt (h : Divisible doc start stop budget unit) : budget < unit.length := by
  obtain ⟨t, ht, -⟩ := h.next
  exact (List.getElem?_eq_some_iff.mp ht).1

theorem partStart_zero : partStart unit start stop 0 = start := if_pos rfl

theorem partStart_length (h : unit ≠ []) : partStart unit start stop unit.length = stop := by
  rw [partStart, if_neg (mt List.length_eq_zero_iff.mp h), List.getElem?_eq_none le_rfl]
  rfl

theorem partStart_of_lt {k : Nat} (hk : k ≠ 0) (hlt : k < unit.length) :
    partStart unit start stop k = unit[k].start := by
  rw [partStart, if_neg hk, List.getElem?_eq_getElem hlt]
  rfl

theorem Divisible.later (h : Divisible doc start stop budget unit) (hstop : (splitAt? doc stop).isSome) {k : Nat}
    (hk : k ≠ 0) (hn : k ≤ unit.length) :
    (splitAt? doc (partStart unit start stop k)).isSome ∧ partStart unit start stop k ≤ stop ∧
      ∀ j t, unit[j]? = some t → j ≤ k → t.start ≤ partStart unit start stop k := by
  rcases Nat.lt_or_eq_of_le hn with hlt | rfl
  · rw [partStart_of_lt hk hlt]
    obtain ⟨hin, hsome⟩ := h.inside _ (List.getElem_mem hlt)
    refine ⟨hsome, hin.le, fun j t hj hjk => ?_⟩
    obtain ⟨hj', rfl⟩ := List.getElem?_eq_some_iff.mp hj
    rcases Nat.lt_or_eq_of_le hjk with hjk | rfl
    · exact List.pairwise_iff_getElem.mp h.sorted _ _ hj' hlt hjk
    · exact le_rfl
  · have hne : unit ≠ [] := List.ne_nil_of_length_pos (Nat.zero_lt_of_lt h.lt)
    rw [partStart_length hne]
    exact ⟨hstop, le_rfl, fun j t hj _ => (h.inside t (List.mem_of_getElem? hj)).1.le⟩

/-- Every part begins between two characters, and ends where the next begins. -/
theorem Divisible.cut (h : Divisible doc start stop budget unit) (hbudget : 0 < budget)
    (hstop : (splitAt? doc stop).isSome) {k : Nat} (hk : k = 0 ∨ budget ≤ k) (hn : k ≤ unit.length) :
    (splitAt? doc (partStart unit start stop (min (k + budget) unit.length))).isSome ∧
      partStart unit start stop k ≤ partStart unit start stop (min (k + budget) unit.length) ∧
        partStart unit start stop (min (k + budget) unit.length) ≤ stop := by
  have hlt := h.lt
  obtain ⟨hsome, hin, hlater⟩ := h.later hstop (k := min (k + budget) unit.length) (by omega) (Nat.min_le_right _ _)
  refine ⟨hsome, ?_, hin⟩
  rcases hk with rfl | hk
  · obtain ⟨t, ht, hle⟩ := h.next
    rw [partStart_zero]
    exact hle.trans (hlater budget t ht (by omega))
  · rcases Nat.lt_or_eq_of_le hn with hk' | rfl
    · rw [partStart_of_lt (by omega) hk']
      exact hlater k _ (List.getElem?_eq_getElem hk') (by omega)
    · rw [Nat.min_eq_right (by omega)]

/-- The part that begins with token `k`. -/
def unitPart (docIndex : Nat) (doc : Document) (unit : List TokenSpan) (start stop budget k : Nat) :
    Except Failure (List TopicSegment) :=
  rangeSegment docIndex doc (partStart unit start stop k) (partStart unit start stop (min (k + budget) unit.length))

variable (docIndex) in
/-- The loop over the parts gives the segments of the range. -/
theorem Divisible.parts (h : Divisible doc start stop budget unit) (hbudget : 0 < budget)
    (hstop : (splitAt? doc stop).isSome) (k : Nat) :
    ∀ text, (k = 0 ∨ budget ≤ k) → slice? doc (partStart unit start stop (min k unit.length)) stop = some text →
      ∃ parts, (stepBy unit.length budget k).mapM (unitPart docIndex doc unit start stop budget) = .ok parts ∧
        Parts (partStart unit start stop (min k unit.length)) text parts.flatten := by
  induction k using stepBy.induct unit.length budget with
  | case1 k hmore ih =>
      intro text hk htext
      have hlt' := hmore.2
      rw [Nat.min_eq_left hlt'.le] at htext ⊢
      obtain ⟨hsome, hle, hin⟩ := h.cut hbudget hstop hk hlt'.le
      obtain ⟨x, y, rfl, hx, hy⟩ := slice?_cut htext hsome hle hin
      obtain ⟨segments, hsegments, hfirst⟩ := rangeSegment_parts docIndex hx
      obtain ⟨parts, hparts, hrest⟩ := ih y (.inr (by omega)) hy
      refine ⟨segments :: parts, ?_, ?_⟩
      · rw [stepBy, if_pos hmore, List.mapM_cons]
        exact bind_eq_ok.mpr ⟨_, hsegments, bind_eq_ok.mpr ⟨_, hparts, rfl⟩⟩
      · rw [List.flatten_cons, Parts, List.map_append]
        have hnext := slice?_extent hx
        rw [hnext] at hrest
        exact hfirst.append hrest
  | case2 k hdone =>
      intro text _ htext
      have hge : unit.length ≤ k := by
        by_contra hk
        exact hdone ⟨hbudget, by omega⟩
      have hne : unit ≠ [] := List.ne_nil_of_length_pos (Nat.zero_lt_of_lt h.lt)
      rw [Nat.min_eq_right hge, partStart_length hne] at htext ⊢
      have hempty := slice?_extent htext
      obtain rfl : text = [] := extent_eq_zero.mp (by omega)
      refine ⟨[], ?_, .blank allBlank_nil⟩
      rw [stepBy, if_neg hdone]
      rfl

end Parts

theorem mem_stepBy {n m k : Nat} : ∀ j ∈ stepBy n m k, j < n := by
  induction k using stepBy.induct n m with
  | case1 k hmore ih =>
      rw [stepBy, if_pos hmore, List.forall_mem_cons]
      exact ⟨hmore.2, ih⟩
  | case2 k hdone =>
      rw [stepBy, if_neg hdone]
      simp

section Split

variable {docIndex budget i j : Nat} {doc text lead body trail : Document} {tokens : List TokenSpan}

theorem splitRangeByTokens_blank (h : slice? doc i j = some text) (hblank : IsBlank text) :
    splitRangeByTokens docIndex doc tokens i j budget = .ok [] := by
  rw [splitRangeByTokens, trimmedRange_blank h hblank]
  rfl

theorem splitRangeByTokens_short (h : slice? doc i j = some text) (hframed : IsFramed text lead body trail)
    (hshort : (tokensInRange tokens (i + extent lead) (i + extent lead + extent body)).length ≤ budget) :
    splitRangeByTokens docIndex doc tokens i j budget =
      .ok [⟨docIndex, i + extent lead, i + extent lead + extent body, body.length⟩] := by
  obtain ⟨-, hbody, -⟩ := framed_slices h hframed
  rw [splitRangeByTokens, trimmedRange_framed h hframed]
  simp only [bind, Except.bind, hshort, true_or, if_true, topicSegment_eq hbody]
  rfl

/-- The loop of `split_range_by_tokens` goes over the parts. -/
theorem splitRangeByTokens_long (h : slice? doc i j = some text) (hframed : IsFramed text lead body trail)
    (hbudget : 0 < budget)
    (hlong : budget < (tokensInRange tokens (i + extent lead) (i + extent lead + extent body)).length) :
    splitRangeByTokens docIndex doc tokens i j budget = (do
      let unit := tokensInRange tokens (i + extent lead) (i + extent lead + extent body)
      let parts ← (stepBy unit.length budget 0).mapM
        (unitPart docIndex doc unit (i + extent lead) (i + extent lead + extent body) budget)
      return parts.flatten) := by
  have hne : tokensInRange tokens (i + extent lead) (i + extent lead + extent body) ≠ [] :=
    List.ne_nil_of_length_pos (by omega)
  rw [splitRangeByTokens, trimmedRange_framed h hframed]
  simp only [bind, Except.bind]
  rw [if_neg (not_or.mpr ⟨Nat.not_le.mpr hlong, hne⟩)]
  generalize tokensInRange tokens (i + extent lead) (i + extent lead + extent body) = unit at hlong hne
  congr 1
  refine mapM_congr fun k hk => ?_
  have hlt := mem_stepBy k hk
  have hstop : ((unit[min (k + budget) unit.length]?).map TokenSpan.start).getD (i + extent lead + extent body) =
      partStart unit (i + extent lead) (i + extent lead + extent body) (min (k + budget) unit.length) := by
    rw [partStart, if_neg (by omega)]
  rw [unitPart, ← hstop]
  by_cases hk0 : k = 0
  · simp only [hk0, if_true, partStart_zero]
  · simp only [if_neg hk0, List.getElem?_eq_getElem hlt, partStart_of_lt hk0 hlt]

end Split

/-- Where the text of a piece begins. -/
def contentStart (start : Nat) (piece : Document) : Nat := start + (extent piece - extent (Text.trimStart piece))

/-- No more tokens than the budget run into the text of a piece from before it. -/
def Separable (tokens : List TokenSpan) (budget start : Nat) (piece : Document) : Prop :=
  Text.trimStart piece ≠ [] → (straddling tokens (contentStart start piece)).length ≤ budget

section Split

variable {docIndex budget i j : Nat} {doc text lead body trail : Document} {tokens : List TokenSpan}

theorem contentStart_framed (hframed : IsFramed text lead body trail) : contentStart i text = i + extent lead := by
  have hstart : Text.trimStart text = body ++ trail := hframed.dropWhile
  rw [contentStart, hstart, hframed.eq]
  simp only [extent_append]
  omega

theorem separable_blank (hblank : IsBlank text) : Separable tokens budget i text :=
  fun hne => absurd (allBlank_dropWhile.mp hblank) hne

theorem separable_framed (hframed : IsFramed text lead body trail) :
    Separable tokens budget i text ↔ (straddling tokens (i + extent lead)).length ≤ budget := by
  have hne : Text.trimStart text ≠ [] := by
    have hstart : Text.trimStart text = body ++ trail := hframed.dropWhile
    rw [hstart]
    exact List.append_ne_nil_of_left_ne_nil hframed.body.ne_nil _
  rw [Separable, contentStart_framed hframed]
  exact ⟨fun h => h hne, fun h _ => h⟩

theorem separable_short (hordered : Ordered doc tokens) {start stop : Nat} (hstart : start ≤ i)
    (hstop : i + extent text ≤ stop) (hshort : (tokensInRange tokens start stop).length ≤ budget) :
    Separable tokens budget i text := by
  rcases framed_or_blank text with hblank | ⟨lead, body, trail, hframed⟩
  · exact separable_blank hblank
  · rw [separable_framed hframed]
    have hsize := congrArg extent hframed.eq
    simp only [extent_append] at hsize
    exact (straddling_sublist hordered (by omega) (by omega)).length_le.trans hshort

/-- A unit is split without a loss, and can be split exactly when it is
separable. -/
theorem splitRangeByTokens_spec (hordered : Ordered doc tokens) (hbudget : 0 < budget)
    (h : slice? doc i j = some text) :
    (∀ segments, splitRangeByTokens docIndex doc tokens i j budget = .ok segments → Parts i text segments) ∧
      ((∃ segments, splitRangeByTokens docIndex doc tokens i j budget = .ok segments) ↔
        Separable tokens budget i text) := by
  rcases framed_or_blank text with hblank | ⟨lead, body, trail, hframed⟩
  · rw [splitRangeByTokens_blank h hblank]
    refine ⟨fun segments hok => ?_, fun _ => separable_blank hblank, fun _ => ⟨_, rfl⟩⟩
    cases hok
    exact .blank hblank
  obtain ⟨-, hbody, -⟩ := framed_slices h hframed
  rcases Nat.lt_or_ge budget (tokensInRange tokens (i + extent lead) (i + extent lead + extent body)).length with
    hlong | hshort
  · rw [splitRangeByTokens_long h hframed hbudget hlong, separable_framed hframed,
      straddling_le_iff hordered (Nat.le_add_right _ _) hlong]
    have hinside : ∀ t ∈ tokensInRange tokens (i + extent lead) (i + extent lead + extent body),
        t.start < i + extent lead + extent body ∧ (splitAt? doc t.start).isSome := by
      intro t ht
      rw [tokensInRange_eq hordered] at ht
      obtain ⟨ht, hrange⟩ := List.mem_filter.mp ht
      simp only [Bool.and_eq_true, decide_eq_true_eq] at hrange
      exact ⟨hrange.2, (hordered.spans t ht).2.1⟩
    have hsorted : (tokensInRange tokens (i + extent lead) (i + extent lead + extent body)).Pairwise
        fun t u => t.start ≤ u.start := by
      rw [tokensInRange_eq hordered]
      exact hordered.starts.filter _
    generalize tokensInRange tokens (i + extent lead) (i + extent lead + extent body) = unit at *
    by_cases hnext : i + extent lead ≤ unit[budget].start
    · have hdivisible : Divisible doc (i + extent lead) (i + extent lead + extent body) budget unit :=
        ⟨hinside, hsorted, _, List.getElem?_eq_getElem hlong, hnext⟩
      have hstart : slice? doc (partStart unit (i + extent lead) (i + extent lead + extent body)
          (min 0 unit.length)) (i + extent lead + extent body) = some body := by
        rw [Nat.zero_min, partStart_zero]
        exact hbody
      obtain ⟨parts, hparts, htiles⟩ :=
        hdivisible.parts docIndex hbudget (splitAt?_of_slice hbody).2 0 body (.inl rfl) hstart
      rw [Nat.zero_min, partStart_zero] at htiles
      simp only [hparts, bind, Except.bind]
      refine ⟨fun segments hok => ?_, fun _ => hnext, fun _ => ⟨_, rfl⟩⟩
      cases hok
      exact parts_framed hframed htiles
    · have hfirst : partStart unit (i + extent lead) (i + extent lead + extent body) (min (0 + budget) unit.length) <
          partStart unit (i + extent lead) (i + extent lead + extent body) 0 := by
        rw [Nat.zero_add, Nat.min_eq_left hlong.le, partStart_of_lt (by omega) hlong, partStart_zero]
        exact Nat.lt_of_not_le hnext
      obtain ⟨e, he⟩ := @rangeSegment_reversed docIndex _ _ doc hfirst
      have hloop : (stepBy unit.length budget 0).mapM
          (unitPart docIndex doc unit (i + extent lead) (i + extent lead + extent body) budget) = .error e := by
        rw [stepBy, if_pos ⟨hbudget, by omega⟩, List.mapM_cons, unitPart, he]
        rfl
      simp only [hloop, bind, Except.bind]
      refine ⟨fun segments hok => ?_, fun hok => ?_, fun hle => absurd hle hnext⟩
      · cases hok
      · obtain ⟨segments, hok⟩ := hok
        cases hok
  · rw [splitRangeByTokens_short h hframed hshort]
    refine ⟨fun segments hok => ?_, fun _ => ?_, fun _ => ⟨_, rfl⟩⟩
    · cases hok
      exact parts_framed hframed (parts_body docIndex _ hframed.body)
    · have hsize := congrArg extent hframed.eq
      rw [separable_framed hframed]
      exact (straddling_sublist hordered le_rfl (Nat.le_add_right _ _)).length_le.trans hshort

end Split

section Methods

variable {u : TextBounds} {docIndex budget i j : Nat} {doc text : Document} {tokens : List TokenSpan}

variable (docIndex) in
/-- The sentences of a slice, each a unit. -/
theorem sentences_spec (hu : u.Partition) (hordered : Ordered doc tokens) (hbudget : 0 < budget)
    (h : slice? doc i j = some text) :
    (∀ parts, ((boundIndices 0 (u.splitSentenceBounds text)).mapM fun p =>
        splitRangeByTokens docIndex doc tokens (i + p.1) (i + p.1 + extent p.2) budget) = .ok parts →
          Parts i text parts.flatten) ∧
      ((∃ parts, ((boundIndices 0 (u.splitSentenceBounds text)).mapM fun p =>
        splitRangeByTokens docIndex doc tokens (i + p.1) (i + p.1 + extent p.2) budget) = .ok parts) ↔
          ∀ p ∈ boundIndices 0 (u.splitSentenceBounds text), Separable tokens budget (i + p.1) p.2) := by
  have htext : slice? text 0 (extent text) = some (u.splitSentenceBounds text).flatten := by
    rw [hu.sentences]
    exact slice?_all text
  have hslice : ∀ p ∈ boundIndices 0 (u.splitSentenceBounds text),
      slice? doc (i + p.1) (i + p.1 + extent p.2) = some p.2 := fun p hp => by
    rw [Nat.add_assoc]
    exact slice?_slice h (boundIndices_slices htext p hp)
  constructor
  · intro parts hparts
    have htiles : Parts (i + 0) (u.splitSentenceBounds text).flatten parts.flatten :=
      parts_pieces hparts fun p hp => (splitRangeByTokens_spec hordered hbudget (hslice p hp)).1
    rw [hu.sentences] at htiles
    exact htiles
  · rw [mapM_ok_iff]
    exact forall₂_congr fun p hp => (splitRangeByTokens_spec hordered hbudget (hslice p hp)).2

def LineSeparable (u : TextBounds) (tokens : List TokenSpan) (budget start : Nat) (line : Document) : Prop :=
  ∀ p ∈ boundIndices 0 (u.splitSentenceBounds (Text.trimEnd (Text.trimStart line))),
    Separable tokens budget (contentStart start line + p.1) p.2

theorem lineSeparable_blank (hu : u.Partition) (hblank : IsBlank text) : LineSeparable u tokens budget i text := by
  have hstart : Text.trimStart text = [] := allBlank_dropWhile.mp hblank
  intro p hp
  rw [hstart] at hp
  have hslices : slice? ([] : Document) 0 0 = some (u.splitSentenceBounds []).flatten := by
    rw [hu.sentences]
    exact slice?_all []
  have hpiece := boundIndices_slices hslices p hp
  obtain ⟨a, b, hnil, -, -⟩ := slice?_eq_some.mp hpiece
  simp only [List.nil_eq, List.append_eq_nil_iff] at hnil
  rw [hnil.1.2]
  exact separable_blank allBlank_nil

theorem segmentLine_spec (hu : u.Partition) (hordered : Ordered doc tokens) (hbudget : 0 < budget)
    (h : slice? doc i j = some text) :
    (∀ segments, segmentLine u docIndex doc tokens i j budget = .ok segments → Parts i text segments) ∧
      ((∃ segments, segmentLine u docIndex doc tokens i j budget = .ok segments) ↔
        LineSeparable u tokens budget i text) := by
  rcases framed_or_blank text with hblank | ⟨lead, body, trail, hframed⟩
  · rw [segmentLine, trimmedRange_blank h hblank]
    refine ⟨fun segments hok => ?_, fun _ => lineSeparable_blank hu hblank, fun _ => ⟨_, rfl⟩⟩
    cases hok
    exact .blank hblank
  obtain ⟨-, hbody, -⟩ := framed_slices h hframed
  rw [segmentLine, trimmedRange_framed h hframed, LineSeparable, trim_framed hframed, contentStart_framed hframed]
  simp only [bind, Except.bind, hbody]
  by_cases hshort : (tokensInRange tokens (i + extent lead) (i + extent lead + extent body)).length ≤ budget
  · rw [if_pos hshort, topicSegment_eq hbody]
    refine ⟨fun segments hok => ?_, fun _ p hp => ?_, fun _ => ⟨_, rfl⟩⟩
    · cases hok
      exact parts_framed hframed (parts_body docIndex _ hframed.body)
    · have hslices : slice? body 0 (extent body) = some (u.splitSentenceBounds body).flatten := by
        rw [hu.sentences]
        exact slice?_all body
      obtain ⟨a, b, hsplit, hstart, -⟩ := slice?_eq_some.mp (boundIndices_slices hslices p hp)
      have hsize := congrArg extent hsplit
      simp only [extent_append] at hsize
      exact separable_short hordered (by omega) (by omega) hshort
  · obtain ⟨hparts, hok⟩ := sentences_spec docIndex hu hordered hbudget hbody
    rw [if_neg hshort, ← hok]
    generalize hloop : ((boundIndices 0 (u.splitSentenceBounds body)).mapM fun p =>
      splitRangeByTokens docIndex doc tokens (i + extent lead + p.1) (i + extent lead + p.1 + extent p.2) budget) =
        loop at hparts ⊢
    cases loop with
    | error e => simp
    | ok parts =>
        refine ⟨fun segments hsegments => ?_, fun _ => ⟨parts, rfl⟩, fun _ => ⟨parts.flatten, rfl⟩⟩
        cases hsegments
        exact parts_framed hframed (hparts parts rfl)

variable (docIndex) in
/-- Every line is a unit. -/
theorem lines_spec (hu : u.Partition) (hordered : Ordered doc tokens) (hbudget : 0 < budget) :
    (∀ parts, ((lineRanges doc).mapM fun r => segmentLine u docIndex doc tokens r.1 r.2 budget) = .ok parts →
        Parts 0 doc parts.flatten) ∧
      ((∃ parts, ((lineRanges doc).mapM fun r => segmentLine u docIndex doc tokens r.1 r.2 budget) = .ok parts) ↔
        ∀ p ∈ boundIndices 0 (splitInclusive doc), LineSeparable u tokens budget p.1 (stripSuffix '\n' p.2)) := by
  have hdoc : slice? doc 0 (extent doc) = some (splitInclusive doc).flatten := by
    rw [splitInclusive_flatten]
    exact slice?_all doc
  have hline : ∀ p ∈ boundIndices 0 (splitInclusive doc),
      slice? doc p.1 (p.1 + extent (stripSuffix '\n' p.2)) = some (stripSuffix '\n' p.2) := fun p hp => by
    obtain ⟨rest, hrest, -⟩ := @stripSuffix_blank '\n' (by decide) p.2
    have hslice := boundIndices_slices hdoc p hp
    rw [hrest] at hslice
    exact (slice?_split.mp hslice).1
  rw [lineRanges, List.mapM_map]
  constructor
  · intro parts hparts
    have htiles : Parts (0 + 0) (splitInclusive doc).flatten parts.flatten := by
      refine parts_pieces hparts fun p hp segments hsegments => ?_
      obtain ⟨rest, hrest, hblank⟩ := @stripSuffix_blank '\n' (by decide) p.2
      have hcontent := (segmentLine_spec hu hordered hbudget (hline p hp)).1 segments hsegments
      have htiles := hcontent.append (.blank hblank)
      rw [← hrest, List.append_nil] at htiles
      rw [Nat.zero_add]
      exact htiles
    rw [splitInclusive_flatten] at htiles
    exact htiles
  · rw [mapM_ok_iff]
    exact forall₂_congr fun p hp => (segmentLine_spec hu hordered hbudget (hline p hp)).2

end Methods

end Wordflow.Segmentation
