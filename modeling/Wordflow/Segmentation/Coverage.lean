import Wordflow.Segmentation.Paragraphs
import Wordflow.Segmentation.Units
import Wordflow.Segmentation.Windows

namespace Wordflow.Segmentation

open Library Library.Fallible

section Bounds

variable {u : TextBounds} {text : Document} {tokens : List TokenSpan} {ends : List Nat}

theorem endsOf_index (hsorted : ends.Pairwise (· ≤ ·)) (hcuts : ∀ e ∈ ends, (splitAt? text e).isSome)
    (hle : ∀ e ∈ ends, e ≤ extent text) (hfinal : extent text ∈ ends) :
    EndsOf text tokens (indexBoundaries tokens ends) := by
  have hindexed := @indexBoundaries_indexed tokens ends hsorted
  refine ⟨hindexed.sorted, fun b hb => ?_, hindexed.final hle hfinal⟩
  obtain ⟨hmem, hcount, -⟩ := hindexed.entry b hb
  exact ⟨hcount, hle _ hmem, hcuts _ hmem⟩

theorem boundEnds_ge {pieces : List Document} : ∀ {i : Nat}, ∀ p ∈ boundIndices i pieces, i ≤ p.1 := by
  induction pieces with
  | nil => simp [boundIndices]
  | cons piece rest ih =>
      intro i
      rw [boundIndices, List.forall_mem_cons]
      refine ⟨le_rfl, fun p hp => ?_⟩
      have hge := ih p hp
      omega

theorem boundEnds_sorted {pieces : List Document} : ∀ {i : Nat},
    ((boundIndices i pieces).map fun p => p.1 + extent p.2).Pairwise (· ≤ ·) := by
  induction pieces with
  | nil => simp [boundIndices]
  | cons piece rest ih =>
      intro i
      rw [boundIndices, List.map_cons]
      refine .cons (fun e he => ?_) ih
      obtain ⟨p, hp, rfl⟩ := List.mem_map.mp he
      have hge := boundEnds_ge p hp
      dsimp only
      omega

theorem boundEnds_final {pieces : List Document} (hne : pieces ≠ []) : ∀ {i : Nat},
    i + extent pieces.flatten ∈ (boundIndices i pieces).map fun p => p.1 + extent p.2 := by
  induction pieces with
  | nil => exact absurd rfl hne
  | cons piece rest ih =>
      intro i
      rw [boundIndices, List.map_cons, List.flatten_cons, extent_append]
      cases rest with
      | nil => simp
      | cons next rest =>
          rw [← Nat.add_assoc]
          exact List.mem_cons_of_mem _ (ih (by simp))

theorem endsOf_pieces {pieces : List Document} (hpieces : pieces.flatten = text) (hne : text ≠ []) :
    EndsOf text tokens (indexBoundaries tokens (boundEnds pieces)) := by
  have hslices : slice? text 0 (extent text) = some pieces.flatten := by
    rw [hpieces]
    exact slice?_all text
  have hpiece : ∀ e ∈ boundEnds pieces, (splitAt? text e).isSome := by
    intro e he
    obtain ⟨p, hp, rfl⟩ := List.mem_map.mp he
    exact (splitAt?_of_slice (boundIndices_slices hslices p hp)).2
  refine endsOf_index boundEnds_sorted hpiece ?_ ?_
  · intro e he
    obtain ⟨⟨a, b⟩, hsplit⟩ := Option.isSome_iff_exists.mp (hpiece e he)
    obtain ⟨rfl, rfl⟩ := splitAt?_eq_some.mp hsplit
    rw [extent_append]
    omega
  · have hfinal := @boundEnds_final pieces (by rintro rfl; exact hne hpieces.symm) 0
    rw [hpieces, Nat.zero_add] at hfinal
    exact hfinal

/-- The ends of the paragraphs, sentences and words of a text. -/
def paragraphBounds (u : TextBounds) (text : Document) (tokens : List TokenSpan) : Bounds where
  paragraph := indexBoundaries tokens (paragraphEndOffsets text)
  sentence := indexBoundaries tokens (boundEnds (u.splitSentenceBounds text))
  word := indexBoundaries tokens (boundEnds (u.splitWordBounds text))

theorem paragraphBounds_of (hu : u.Partition) (hfull : EndsFull text) : (paragraphBounds u text tokens).Of text tokens := by
  have hne : text ≠ [] := by
    rintro rfl
    obtain ⟨c, hc, -⟩ := hfull
    cases hc
  have hchain := paragraphs_last hfull
  refine ⟨endsOf_index hchain.sorted hchain.cuts hchain.ends_le ?_, endsOf_pieces (hu.sentences text) hne,
    endsOf_pieces (hu.words text) hne⟩
  rcases hchain.last_mem with hzero | hmem
  · exact absurd (extent_eq_zero.mp hzero) hne
  · exact hmem

end Bounds

section Oversized

variable {u : TextBounds} {docIndex budget : Nat} {text lead body : Document} {tokens : List TokenSpan}

variable (docIndex) in
/-- An oversized paragraph is split without a loss, and can be split exactly
when it can be cut. -/
theorem segmentOversizedParagraph_spec (hu : u.Partition) (hbudget : 0 < budget) (hlong : budget < tokens.length)
    (htokens : Overlapping text tokens) (hframed : IsFramed text lead body []) :
    (∀ segments, segmentOversizedParagraph u docIndex text tokens budget = .ok segments → Parts 0 text segments) ∧
      ((∃ segments, segmentOversizedParagraph u docIndex text tokens budget = .ok segments) ↔
        Cuttable text tokens (paragraphBounds u text tokens) budget (contentStart 0 text)) := by
  have hfull : EndsFull text := by
    rw [hframed.eq, List.append_nil]
    exact EndsFull.prepend hframed.body.last
  have hbounds := @paragraphBounds_of u text tokens hu hfull
  have hslice := slice?_all text
  obtain ⟨-, hbody, -⟩ := framed_slices hslice hframed
  have hsize : 0 + extent lead + extent body = extent text := by
    rw [hframed.eq, List.append_nil, extent_append]
    omega
  have hne : tokens ≠ [] := List.ne_nil_of_length_pos (Nat.zero_lt_of_lt hlong)
  have hover : (⟨.new (paragraphBounds u text tokens).paragraph, .new (paragraphBounds u text tokens).sentence,
      .new (paragraphBounds u text tokens).word⟩ : Cursors).Over (paragraphBounds u text tokens)
        (min (0 + budget) tokens.length) :=
    ⟨BoundaryCursor.over_new _ _, BoundaryCursor.over_new _ _, BoundaryCursor.over_new _ _⟩
  have heq : segmentOversizedParagraph u docIndex text tokens budget =
      splitWindows docIndex text tokens budget (extent text) ⟨.new (paragraphBounds u text tokens).paragraph,
        .new (paragraphBounds u text tokens).sentence, .new (paragraphBounds u text tokens).word⟩ 0
          (contentStart 0 text) := by
    rw [segmentOversizedParagraph, trimmedRange_framed hslice hframed, contentStart_framed hframed]
    simp only [bind, Except.bind, hsize]
    rw [if_neg (not_or.mpr ⟨hne, Nat.not_le.mpr hlong⟩)]
    rfl
  have hparts : Cuttable text tokens (paragraphBounds u text tokens) budget (contentStart 0 text) →
      ∃ segments, segmentOversizedParagraph u docIndex text tokens budget = .ok segments ∧ Parts 0 text segments := by
    intro hcut
    rw [contentStart_framed hframed] at hcut
    rw [heq, contentStart_framed hframed]
    rw [hsize] at hbody
    obtain ⟨segments, hsegments, htiles⟩ :=
      hcut.parts docIndex htokens hbounds hbudget .first (Nat.zero_lt_of_lt hlong) hover hbody hcut.first
    exact ⟨segments, hsegments, parts_framed hframed htiles⟩
  have hcuttable : ∀ segments, segmentOversizedParagraph u docIndex text tokens budget = .ok segments →
      Cuttable text tokens (paragraphBounds u text tokens) budget (contentStart 0 text) := by
    intro segments hok
    rw [heq] at hok
    exact Succeeds.cuttable htokens hbounds hbudget hlong ⟨_, segments, hover, hok⟩
  constructor
  · intro segments hok
    obtain ⟨segments', hok', htiles⟩ := hparts (hcuttable segments hok)
    obtain rfl := Except.ok.inj (hok.symm.trans hok')
    exact htiles
  · exact ⟨fun ⟨segments, hok⟩ => hcuttable segments hok, fun hcut => by
      obtain ⟨segments, hok, -⟩ := hparts hcut
      exact ⟨segments, hok⟩⟩

end Oversized

section Packing

variable {u : TextBounds} {docIndex budget start stop last : Nat} {doc part : Document} {tokens : List TokenSpan}
  {ends : List Nat} {s : Packing}

def shifted (start : Nat) (tokens : List TokenSpan) : List TokenSpan :=
  tokens.map fun t => ⟨t.start - start, t.stop - start⟩

theorem rebase_eq_ok {moved : List TokenSpan} : rebase start tokens = .ok moved ↔
    (∀ t ∈ tokens, start ≤ t.start ∧ start ≤ t.stop) ∧ moved = shifted start tokens := by
  rw [rebase, mapM_guard_eq_ok]
  simp only [not_or, Nat.not_lt]
  rfl

/-- Tokens can be moved to a paragraph when none of them starts before it. -/
theorem straddling_eq_nil (hordered : Ordered doc tokens) (hle : start ≤ stop) :
    straddling tokens start = [] ↔ ∀ t ∈ tokensInRange tokens start stop, start ≤ t.start ∧ start ≤ t.stop := by
  rw [tokensInRange_eq hordered, straddling, List.filter_eq_nil_iff]
  constructor
  · intro hnone t ht
    obtain ⟨ht, hrange⟩ := List.mem_filter.mp ht
    have hnot := hnone t ht
    simp only [Bool.and_eq_true, decide_eq_true_eq] at hrange hnot
    omega
  · intro hall t ht hstraddle
    simp only [Bool.and_eq_true, decide_eq_true_eq] at hstraddle
    have hin := hall t (List.mem_filter.mpr ⟨ht, by simp only [Bool.and_eq_true, decide_eq_true_eq]; omega⟩)
    omega

theorem overlapping_shifted (hordered : Ordered doc tokens) (hslice : slice? doc start stop = some part) :
    Overlapping part (shifted start (tokensInRange tokens start stop)) := by
  have hstop := slice?_extent hslice
  rw [tokensInRange_eq hordered]
  constructor
  · rw [shifted, List.pairwise_map]
    refine (hordered.stops.filter _).imp fun hle => ?_
    dsimp only
    omega
  · intro t ht hinside
    obtain ⟨token, htoken, rfl⟩ := List.mem_map.mp ht
    obtain ⟨hmem, hrange⟩ := List.mem_filter.mp htoken
    simp only [Bool.and_eq_true, decide_eq_true_eq] at hrange
    dsimp only at hinside ⊢
    obtain ⟨-, -, hcut⟩ := hordered.spans token hmem
    obtain ⟨x, y, rfl, hx, -⟩ := slice?_cut hslice hcut (by omega) (by omega)
    have hsize := slice?_extent hx
    refine Option.isSome_iff_exists.mpr ⟨_, splitAt?_eq_some.mpr ⟨rfl, ?_⟩⟩
    omega

/-- The paragraphs read so far are the segments and the pending one. -/
def Packed (doc : Document) (s : Packing) : Prop :=
  match s.pending with
  | none => ∃ head, slice? doc 0 s.start = some head ∧ Parts 0 head s.segments
  | some p => ∃ head body tail, slice? doc 0 p.start = some head ∧ Parts 0 head s.segments ∧
      slice? doc p.start p.stop = some body ∧ Trimmed Text.isWhitespace body ∧
        slice? doc p.stop s.start = some tail ∧ IsBlank tail

variable (docIndex) in
theorem Packed.flush (h : Packed doc s) : ∃ done head, flush docIndex doc s.pending = .ok done ∧
    slice? doc 0 s.start = some head ∧ Parts 0 head (s.segments ++ done) := by
  rw [Packed] at h
  cases hpending : s.pending with
  | none =>
      rw [hpending] at h
      obtain ⟨head, hhead, hparts⟩ := h
      exact ⟨[], head, rfl, hhead, by rwa [List.append_nil]⟩
  | some p =>
      rw [hpending] at h
      obtain ⟨head, body, tail, hhead, hparts, hbody, htrimmed, htail, hblank⟩ := h
      refine ⟨[⟨docIndex, p.start, p.stop, body.length⟩], head ++ body ++ tail, ?_, slice?_join (slice?_join hhead hbody) htail, ?_⟩
      · rw [Segmentation.flush, topicSegment_eq hbody]
        rfl
      · have hstart := slice?_extent hhead
        have hstop := slice?_extent hbody
        have hone := (parts_body docIndex p.start htrimmed).append (.blank hblank)
        rw [List.append_nil] at hone
        rw [Parts, List.map_append, List.append_assoc]
        rw [hstart] at hone
        rw [hstop, hstart]
        exact hparts.append hone

/-- A paragraph that can be packed: no token runs into it, and if it has more
tokens than the budget it can be cut. -/
def ParagraphOk (u : TextBounds) (doc : Document) (tokens : List TokenSpan) (budget : Nat) (r : Nat × Nat) : Prop :=
  straddling tokens r.1 = [] ∧
    ∀ part, slice? doc r.1 r.2 = some part → budget < (tokensInRange tokens r.1 r.2).length →
      Cuttable part (shifted r.1 (tokensInRange tokens r.1 r.2))
        (paragraphBounds u part (shifted r.1 (tokensInRange tokens r.1 r.2))) budget (contentStart 0 part)

theorem EndsFull.framed (h : EndsFull part) : ∃ lead body, IsFramed part lead body [] := by
  obtain ⟨c, hlast, hfull⟩ := h
  rcases @framed_or_blank _ Text.isWhitespace part with hblank | ⟨lead, body, trail, hframed⟩
  · have hc := hblank c (List.mem_of_getLast? hlast)
    rw [hfull] at hc
    cases hc
  · refine ⟨lead, body, ?_⟩
    cases htrail : trail.getLast? with
    | none =>
        rw [List.getLast?_eq_none_iff.mp htrail] at hframed
        exact hframed
    | some d =>
        have hd := hframed.trail d (List.mem_of_getLast? htrail)
        rw [hframed.eq, List.getLast?_append, htrail, Option.some_or] at hlast
        obtain rfl := Option.some.inj hlast
        rw [hfull] at hd
        cases hd

variable (u docIndex) in
/-- A paragraph that is not oversized is always packed. -/
theorem packParagraph_short {lead body : Document} (hpacked : Packed doc s) (hslice : slice? doc s.start stop = some part)
    (hframed : IsFramed part lead body [])
    (hmoved : rebase s.start (tokensInRange tokens s.start stop) = .ok (shifted s.start (tokensInRange tokens s.start stop)))
    (hshort : (tokensInRange tokens s.start stop).length ≤ budget) :
    ∃ s', packParagraph u docIndex doc tokens budget s stop = .ok s' ∧ Packed doc s' ∧ s'.start = stop := by
  obtain ⟨hlead, hbody, htrail⟩ := framed_slices hslice hframed
  have hstop := slice?_extent htrail
  rw [extent_nil, Nat.add_zero] at hstop
  have hlength : (shifted s.start (tokensInRange tokens s.start stop)).length ≤ budget := by
    rw [shifted, List.length_map]
    exact hshort
  obtain ⟨done, head, hdone, hhead, hparts⟩ := hpacked.flush docIndex
  have halone : Packed doc ⟨s.segments ++ done, stop,
      some ⟨s.start + extent lead, s.start + extent lead + extent body,
        (shifted s.start (tokensInRange tokens s.start stop)).length⟩⟩ := by
    refine ⟨head ++ lead, body, [], slice?_join hhead hlead, ?_, hbody, hframed.body, htrail, allBlank_nil⟩
    have htiles := hparts.append (.blank hframed.lead)
    rwa [List.append_nil] at htiles
  rw [packParagraph, hslice]
  simp only [bind, Except.bind, hmoved, trimmedRange_framed hslice hframed, hlength, if_true, hdone]
  cases hpending : s.pending with
  | none => exact ⟨_, rfl, halone, rfl⟩
  | some p =>
      dsimp only
      by_cases hfits : p.count + (shifted s.start (tokensInRange tokens s.start stop)).length ≤ budget
      · rw [if_pos hfits]
        refine ⟨_, rfl, ?_, rfl⟩
        rw [Packed, hpending] at hpacked
        obtain ⟨head, before, tail, hhead, hparts, hbefore, htrimmed, htail, -⟩ := hpacked
        have hjoin := slice?_join (slice?_join (slice?_join hbefore htail) hlead) hbody
        refine ⟨head, before ++ tail ++ lead ++ body, [], hhead, hparts, hjoin, ?_, htrail, allBlank_nil⟩
        rw [List.append_assoc before]
        exact htrimmed.join _ hframed.body
      · rw [if_neg hfits]
        exact ⟨_, rfl, halone, rfl⟩

variable (docIndex) in
/-- One paragraph. -/
theorem packParagraph_spec (hu : u.Partition) (hordered : Ordered doc tokens) (hbudget : 0 < budget)
    (hpacked : Packed doc s) (hslice : slice? doc s.start stop = some part) (hfull : EndsFull part) :
    (∀ s', packParagraph u docIndex doc tokens budget s stop = .ok s' → Packed doc s' ∧ s'.start = stop) ∧
      ((∃ s', packParagraph u docIndex doc tokens budget s stop = .ok s') ↔
        ParagraphOk u doc tokens budget (s.start, stop)) := by
  obtain ⟨lead, body, hframed⟩ := hfull.framed
  have hle : s.start ≤ stop := by
    have hstop := slice?_extent hslice
    omega
  by_cases hstraddling : straddling tokens s.start = []
  swap
  · have hfails : ∀ s', packParagraph u docIndex doc tokens budget s stop ≠ .ok s' := by
      intro s' hok
      cases hmoved : rebase s.start (tokensInRange tokens s.start stop) with
      | ok moved => exact hstraddling ((straddling_eq_nil hordered hle).mpr (rebase_eq_ok.mp hmoved).1)
      | error e =>
          rw [packParagraph, hslice] at hok
          simp only [bind, Except.bind, hmoved] at hok
          cases hok
    exact ⟨fun s' hok => absurd hok (hfails s'), fun ⟨s', hok⟩ => absurd hok (hfails s'),
      fun hparagraph => absurd hparagraph.1 hstraddling⟩
  have hmoved := rebase_eq_ok.mpr ⟨(straddling_eq_nil hordered hle).mp hstraddling, rfl⟩
  rcases Nat.lt_or_ge budget (tokensInRange tokens s.start stop).length with hlong | hshort
  swap
  · obtain ⟨s', hok, hpacked', hstart⟩ := packParagraph_short u docIndex hpacked hslice hframed hmoved hshort
    refine ⟨fun s'' hok' => ?_, fun _ => ⟨hstraddling, fun _ _ hlong => ?_⟩, fun _ => ⟨s', hok⟩⟩
    · obtain rfl := Except.ok.inj (hok.symm.trans hok')
      exact ⟨hpacked', hstart⟩
    · exact absurd hlong (Nat.not_lt.mpr hshort)
  have hlength : ¬(shifted s.start (tokensInRange tokens s.start stop)).length ≤ budget := by
    rw [shifted, List.length_map]
    exact Nat.not_le.mpr hlong
  obtain ⟨done, head, hdone, hhead, hparts⟩ := hpacked.flush docIndex
  obtain ⟨hall, hok⟩ := segmentOversizedParagraph_spec docIndex hu hbudget (Nat.not_le.mp hlength)
    (overlapping_shifted hordered hslice) hframed
  have hparagraph : ParagraphOk u doc tokens budget (s.start, stop) ↔
      Cuttable part (shifted s.start (tokensInRange tokens s.start stop))
        (paragraphBounds u part (shifted s.start (tokensInRange tokens s.start stop))) budget (contentStart 0 part) := by
    refine ⟨fun h => h.2 part hslice hlong, fun h => ⟨hstraddling, fun part' hpart' _ => ?_⟩⟩
    obtain rfl := Option.some.inj (hslice.symm.trans hpart')
    exact h
  rw [hparagraph, ← hok, packParagraph, hslice]
  simp only [bind, Except.bind, hmoved, trimmedRange_framed hslice hframed, hlength, if_false, hdone]
  cases hsegments : segmentOversizedParagraph u docIndex part
      (shifted s.start (tokensInRange tokens s.start stop)) budget with
  | error e => simp
  | ok segments =>
      refine ⟨fun s' hs' => ?_, fun _ => ⟨segments, rfl⟩, fun _ => ⟨_, rfl⟩⟩
      cases hs'
      have hmovedParts := (hall segments hsegments).shift s.start
      refine ⟨⟨head ++ part, slice?_join hhead hslice, ?_⟩, rfl⟩
      have hstart := slice?_extent hhead
      rw [Nat.zero_add] at hstart
      rw [Parts, List.map_append, List.map_map]
      rw [List.map_map, Nat.zero_add] at hmovedParts
      rw [hstart] at hmovedParts ⊢
      refine hparts.append ?_
      rw [Nat.zero_add]
      exact hmovedParts

/-- The paragraphs that end at the given offsets. -/
def ranges : Nat → List Nat → List (Nat × Nat)
  | _, [] => []
  | start, stop :: ends => (start, stop) :: ranges stop ends

variable (docIndex) in
/-- Paragraph by paragraph, from any one of them on. -/
theorem packParagraphs_spec (hu : u.Partition) (hordered : Ordered doc tokens) (hbudget : 0 < budget)
    (hchain : Chain doc start ends last) (hpacked : Packed doc s) (hstart : s.start = start) :
    (∀ s', ends.foldlM (packParagraph u docIndex doc tokens budget) s = .ok s' → Packed doc s' ∧ s'.start = last) ∧
      ((∃ s', ends.foldlM (packParagraph u docIndex doc tokens budget) s = .ok s') ↔
        ∀ r ∈ ranges start ends, ParagraphOk u doc tokens budget r) := by
  induction hchain generalizing s with
  | nil =>
      refine ⟨fun s' hok => ?_, fun _ => by simp [ranges], fun _ => ⟨s, rfl⟩⟩
      cases hok
      exact ⟨hpacked, hstart⟩
  | cons hslice hfull _ ih =>
      subst hstart
      obtain ⟨hnext, hok⟩ := packParagraph_spec docIndex hu hordered hbudget hpacked hslice hfull
      rw [List.foldlM_cons, ranges, List.forall_mem_cons]
      constructor
      · intro s' hs'
        obtain ⟨middle, hmiddle, hs'⟩ := bind_eq_ok.mp hs'
        obtain ⟨hpacked', hstart'⟩ := hnext middle hmiddle
        exact (ih hpacked' hstart').1 s' hs'
      · constructor
        · rintro ⟨s', hs'⟩
          obtain ⟨middle, hmiddle, hs'⟩ := bind_eq_ok.mp hs'
          obtain ⟨hpacked', hstart'⟩ := hnext middle hmiddle
          exact ⟨hok.mp ⟨middle, hmiddle⟩, (ih hpacked' hstart').2.mp ⟨s', hs'⟩⟩
        · rintro ⟨hfirst, hrest⟩
          obtain ⟨middle, hmiddle⟩ := hok.mpr hfirst
          obtain ⟨hpacked', hstart'⟩ := hnext middle hmiddle
          obtain ⟨s', hs'⟩ := (ih hpacked' hstart').2.mpr hrest
          exact ⟨s', bind_eq_ok.mpr ⟨middle, hmiddle, hs'⟩⟩

theorem segmentDocumentAutomatic_spec (hu : u.Partition) (hordered : Ordered doc tokens) (hbudget : 0 < budget) :
    (∀ segments, segmentDocumentAutomatic u docIndex doc tokens budget = .ok segments → Parts 0 doc segments) ∧
      ((∃ segments, segmentDocumentAutomatic u docIndex doc tokens budget = .ok segments) ↔
        ∀ r ∈ ranges 0 (paragraphEndOffsets doc), ParagraphOk u doc tokens budget r) := by
  obtain ⟨last, hchain, tail, htail, hblank⟩ := paragraphs_chain doc
  have hempty : slice? doc 0 0 = some [] := slice?_eq_some.mpr ⟨[], doc, rfl, rfl, rfl⟩
  have hpacked : Packed doc ⟨[], 0, none⟩ := ⟨[], hempty, .blank allBlank_nil⟩
  obtain ⟨hnext, hok⟩ := packParagraphs_spec docIndex hu hordered hbudget hchain hpacked rfl
  rw [← hok, segmentDocumentAutomatic]
  constructor
  · intro segments hsegments
    obtain ⟨packed, hpacked, hsegments⟩ := bind_eq_ok.mp hsegments
    obtain ⟨hpacked', rfl⟩ := hnext packed hpacked
    obtain ⟨done, head, hdone, hhead, hparts⟩ := hpacked'.flush docIndex
    rw [hdone] at hsegments
    cases hsegments
    have htiles := hparts.append (.blank hblank)
    have hdoc := Option.some.inj ((slice?_all doc).symm.trans (slice?_join hhead htail))
    rw [List.append_nil] at htiles
    rw [hdoc]
    exact htiles
  · constructor
    · rintro ⟨segments, hsegments⟩
      obtain ⟨packed, hpacked, -⟩ := bind_eq_ok.mp hsegments
      exact ⟨packed, hpacked⟩
    · rintro ⟨packed, hpacked⟩
      obtain ⟨done, -, hdone, -⟩ := (hnext packed hpacked).1.flush docIndex
      exact ⟨_, bind_eq_ok.mpr ⟨packed, hpacked, bind_eq_ok.mpr ⟨done, hdone, rfl⟩⟩⟩

end Packing

/-- The inputs that a document's segmentation gets through. -/
def Segmentable (u : TextBounds) (doc : Document) (tokens : List TokenSpan) (budget : Nat) :
    SegmentationMethod → Prop
  | .automatic => ∀ r ∈ ranges 0 (paragraphEndOffsets doc), ParagraphOk u doc tokens budget r
  | .line => ∀ p ∈ boundIndices 0 (splitInclusive doc), LineSeparable u tokens budget p.1 (stripSuffix '\n' p.2)
  | .sentence => ∀ p ∈ boundIndices 0 (u.splitSentenceBounds doc), Separable tokens budget p.1 p.2

/-- Segments that lose and repeat nothing of a document. -/
structure Proper (doc : Document) (segments : List TopicSegment) : Prop where
  ordered : segments.Pairwise fun s t => s.endByte ≤ t.startByte
  trimmed : ∀ s ∈ segments, ∃ text, slice? doc s.startByte s.endByte = some text ∧ Trimmed Text.isWhitespace text
  covers : ∀ before c after, doc = before ++ c :: after → Text.isWhitespace c = false →
    ∃! s, s ∈ segments ∧ s.startByte ≤ extent before ∧ extent before + c.utf8Size ≤ s.endByte

section Document

variable {u : TextBounds} {docIndex : Nat} {doc : Document} {segments : List TopicSegment}

theorem Parts.proper (h : Parts 0 doc segments) : Proper doc segments := by
  have hordered : segments.Pairwise fun s t => s.endByte ≤ t.startByte := List.pairwise_map.mp h.ordered
  refine ⟨hordered, fun s hs => ?_, fun before c after hdoc hfull => ?_⟩
  · obtain ⟨a, body, b, hdoc, hbody, hspan⟩ := h.trimmed s.span (List.mem_map_of_mem hs)
    obtain ⟨hstart, hstop⟩ := Prod.mk.inj hspan
    rw [Nat.zero_add] at hstart hstop
    exact ⟨body, by rw [hdoc, hstart, hstop]; exact slice?_append a body b, hbody⟩
  · obtain ⟨span, hspan, hstart, hstop⟩ := h.covers hdoc hfull
    obtain ⟨s, hs, rfl⟩ := List.mem_map.mp hspan
    rw [Nat.zero_add] at hstart hstop
    refine ⟨s, ⟨hs, hstart, hstop⟩, ?_⟩
    rintro t ⟨ht, hstart', hstop'⟩
    have hsize := Char.utf8Size_pos c
    have happart : s = t ∨ s.endByte ≤ t.startByte ∨ t.endByte ≤ s.startByte := by
      obtain ⟨i, hi, rfl⟩ := List.getElem_of_mem hs
      obtain ⟨j, hj, rfl⟩ := List.getElem_of_mem ht
      rcases Nat.lt_trichotomy i j with hlt | rfl | hgt
      · exact .inr (.inl (List.pairwise_iff_getElem.mp hordered i j hi hj hlt))
      · exact .inl rfl
      · exact .inr (.inr (List.pairwise_iff_getElem.mp hordered j i hj hi hgt))
    change extent before + c.utf8Size ≤ s.endByte at hstop
    change s.startByte ≤ extent before at hstart
    rcases happart with heq | hst | hts
    · exact heq.symm
    · omega
    · omega

/-- A loop whose parts are put together. -/
theorem flatten_spec {loop : Except Failure (List (List TopicSegment))} {P : List TopicSegment → Prop} {C : Prop}
    (hparts : ∀ parts, loop = .ok parts → P parts.flatten) (hok : (∃ parts, loop = .ok parts) ↔ C) :
    (∀ segments, (loop >>= fun parts => .ok parts.flatten) = .ok segments → P segments) ∧
      ((∃ segments, (loop >>= fun parts => .ok parts.flatten) = .ok segments) ↔ C) := by
  rw [← hok]
  cases loop with
  | error e => simp [bind, Except.bind]
  | ok parts =>
      refine ⟨fun segments hsegments => ?_, fun _ => ⟨parts, rfl⟩, fun _ => ⟨parts.flatten, rfl⟩⟩
      cases hsegments
      exact hparts parts rfl

/-- Segmentation loses and repeats nothing, on exactly the inputs that it gets
through. -/
theorem segmentation_proper (hu : u.Partition) {encoding : Encoding} {cfg : SegmentationConfig} {tokens : List TokenSpan}
    {special : Nat} (htokens : tokenSpans doc encoding = .ok (tokens, special)) (hbudget : special < cfg.maxTokens) :
    (∃ segments, segmentDocument u docIndex doc encoding cfg = .ok segments ∧ Proper doc segments) ↔
      Segmentable u doc tokens (cfg.maxTokens - special) cfg.method := by
  have hordered := tokenSpans_ordered htokens
  have hpos : 0 < cfg.maxTokens - special := Nat.sub_pos_of_lt hbudget
  suffices (∀ segments, segmentDocument u docIndex doc encoding cfg = .ok segments → Parts 0 doc segments) ∧
      ((∃ segments, segmentDocument u docIndex doc encoding cfg = .ok segments) ↔
        Segmentable u doc tokens (cfg.maxTokens - special) cfg.method) by
    rw [← this.2]
    exact exists_congr fun segments => and_iff_left_of_imp fun hok => (this.1 segments hok).proper
  rw [segmentDocument, htokens]
  simp only [bind, Except.bind, if_neg (Nat.not_le.mpr hbudget)]
  cases cfg.method with
  | automatic => exact segmentDocumentAutomatic_spec hu hordered hpos
  | line =>
      obtain ⟨hparts, hok⟩ := lines_spec docIndex hu hordered hpos
      exact flatten_spec hparts hok
  | sentence =>
      obtain ⟨hparts, hok⟩ := sentences_spec docIndex hu hordered hpos (slice?_all doc)
      simp only [Nat.zero_add] at hparts hok
      exact flatten_spec hparts hok

end Document

/-- Bounds of texts of one-letter words, with a sentence on every line. -/
def letterBounds : TextBounds where
  splitSentenceBounds := splitInclusive
  splitWordBounds text := text.map fun c => [c]

theorem letterBounds_partition : letterBounds.Partition where
  sentences := splitInclusive_flatten
  words text := by
    induction text with
    | nil => rfl
    | cons c cs ih => exact congrArg (c :: ·) ih

theorem two_paragraphs_are_segmented : ∃ segments,
    segmentDocument letterBounds 0 "a\n\nb".toList ⟨[(0, 1), (3, 4)], [0, 0], [1, 2]⟩ ⟨.automatic, 1⟩ = .ok segments ∧
      Proper "a\n\nb".toList segments := by
  have htokens : tokenSpans "a\n\nb".toList ⟨[(0, 1), (3, 4)], [0, 0], [1, 2]⟩ = .ok ([⟨0, 1⟩, ⟨3, 4⟩], 0) := by decide
  refine (segmentation_proper letterBounds_partition htokens (by decide)).mpr ?_
  have hranges : ranges 0 (paragraphEndOffsets "a\n\nb".toList) = [(0, 1), (1, 4)] := by decide
  simp only [Segmentable, hranges, List.forall_mem_cons]
  refine ⟨⟨by decide, fun _ _ hlong => absurd hlong (by decide)⟩, ⟨by decide, fun _ _ hlong => absurd hlong (by decide)⟩, ?_⟩
  simp

/-- A token goes over the end of the first paragraph. -/
theorem straddling_token_fails :
    tokenSpans "a.\n\nb".toList ⟨[(0, 1), (1, 4), (4, 5)], [0, 0, 0], [1, 2, 3]⟩ =
        .ok ([⟨0, 1⟩, ⟨1, 4⟩, ⟨4, 5⟩], 0) ∧
      segmentDocument letterBounds 0 "a.\n\nb".toList ⟨[(0, 1), (1, 4), (4, 5)], [0, 0, 0], [1, 2, 3]⟩
        ⟨.automatic, 3⟩ = .error (.panic "attempt to subtract with overflow") := by
  decide

end Wordflow.Segmentation
