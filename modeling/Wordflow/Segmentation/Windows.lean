import Mathlib.Data.List.Nodup
import Wordflow.Segmentation.Boundaries
import Wordflow.Segmentation.Ranges

namespace Wordflow.Segmentation

open Library Library.Fallible

/-- The boundary that a window of an oversized paragraph ends at. -/
def window (tokens : List TokenSpan) (b : Bounds) (maxTokens trimmedEnd tokenStart : Nat) : Boundary :=
  let tokenLimit := min (tokenStart + maxTokens) tokens.length
  let boundary := (b.latest tokenStart tokenLimit).getD
    ⟨tokenLimit, (tokens[tokenLimit - 1]?.map TokenSpan.stop).getD 0⟩
  if boundary.tokenEnd = tokens.length then { boundary with byteEnd := trimmedEnd } else boundary

/-- The tokens that windows start with. -/
inductive Reached (tokens : List TokenSpan) (b : Bounds) (maxTokens trimmedEnd : Nat) : Nat → Prop
  | first : Reached tokens b maxTokens trimmedEnd 0
  | next {tokenStart : Nat} (h : Reached tokens b maxTokens trimmedEnd tokenStart) (hlt : tokenStart < tokens.length) :
      Reached tokens b maxTokens trimmedEnd (window tokens b maxTokens trimmedEnd tokenStart).tokenEnd

/-- No token goes on after the paragraph, the first window ends in its text,
and where a window that no paragraph, sentence or word ends in is cut at its
last token, the next window ends further on. -/
structure Cuttable (text : Document) (tokens : List TokenSpan) (b : Bounds) (maxTokens trimmedStart : Nat) : Prop where
  inside : ∀ t ∈ tokens, t.stop ≤ extent text
  first : trimmedStart < (window tokens b maxTokens (extent text) 0).byteEnd
  apart : ∀ tokenStart token, Reached tokens b maxTokens (extent text) tokenStart →
    tokenStart + maxTokens < tokens.length → b.latest tokenStart (tokenStart + maxTokens) = none →
      tokens[tokenStart + maxTokens - 1]? = some token →
        token.stop < (window tokens b maxTokens (extent text) (tokenStart + maxTokens)).byteEnd

/-- The tokens of a paragraph; the last ones may go on after it. -/
structure Overlapping (text : Document) (tokens : List TokenSpan) : Prop where
  stops : tokens.Pairwise fun t u => t.stop ≤ u.stop
  cuts : ∀ t ∈ tokens, t.stop ≤ extent text → (splitAt? text t.stop).isSome

/-- Boundaries that lie in a text and end with its end. -/
structure EndsOf (text : Document) (tokens : List TokenSpan) (bs : List Boundary) : Prop where
  sorted : bs.Pairwise fun a b => a.tokenEnd < b.tokenEnd
  entry : ∀ b ∈ bs, endedBy tokens b.byteEnd = b.tokenEnd ∧ b.byteEnd ≤ extent text ∧ (splitAt? text b.byteEnd).isSome
  final : 0 < endedBy tokens (extent text) → ⟨endedBy tokens (extent text), extent text⟩ ∈ bs

structure Bounds.Of (b : Bounds) (text : Document) (tokens : List TokenSpan) : Prop where
  paragraph : EndsOf text tokens b.paragraph
  sentence : EndsOf text tokens b.sentence
  word : EndsOf text tokens b.word

section Window

variable {text : Document} {tokens : List TokenSpan} {b : Bounds} {maxTokens tokenStart tokenLimit : Nat}

theorem Bounds.Of.latest (h : b.Of text tokens) {w : Boundary} (hw : b.latest tokenStart tokenLimit = some w) :
    tokenStart < w.tokenEnd ∧ w.tokenEnd ≤ tokenLimit ∧ endedBy tokens w.byteEnd = w.tokenEnd ∧
      w.byteEnd ≤ extent text ∧ (splitAt? text w.byteEnd).isSome := by
  have hone : ∀ {bs}, EndsOf text tokens bs → lastBoundary bs tokenStart tokenLimit = some w →
      tokenStart < w.tokenEnd ∧ w.tokenEnd ≤ tokenLimit ∧ endedBy tokens w.byteEnd = w.tokenEnd ∧
        w.byteEnd ≤ extent text ∧ (splitAt? text w.byteEnd).isSome := by
    intro bs hbs hlast
    obtain ⟨hmem, hstart, hlimit, -⟩ := lastBoundary_some hbs.sorted hlast
    exact ⟨hstart, hlimit, hbs.entry w hmem⟩
  rcases Option.or_eq_some_iff.mp hw with hw | ⟨-, hw⟩
  · exact hone h.paragraph hw
  · rcases Option.or_eq_some_iff.mp hw with hw | ⟨-, hw⟩
    · exact hone h.sentence hw
    · exact hone h.word hw

theorem window_boundary {w : Boundary} (trimmedEnd : Nat)
    (hlatest : b.latest tokenStart (min (tokenStart + maxTokens) tokens.length) = some w)
    (hne : w.tokenEnd ≠ tokens.length) : window tokens b maxTokens trimmedEnd tokenStart = w := by
  simp only [window, hlatest, Option.getD_some, if_neg hne]

theorem window_unbroken {token : TokenSpan} (trimmedEnd : Nat) (hmore : tokenStart + maxTokens < tokens.length)
    (hlatest : b.latest tokenStart (tokenStart + maxTokens) = none)
    (htoken : tokens[tokenStart + maxTokens - 1]? = some token) :
    window tokens b maxTokens trimmedEnd tokenStart = ⟨tokenStart + maxTokens, token.stop⟩ := by
  simp only [window, Nat.min_eq_left hmore.le, hlatest, Option.getD_none, htoken, Option.map_some, Option.getD_some,
    if_neg hmore.ne]

/-- A window ends at a boundary within the budget, or at its last token; the
last window ends with the text. -/
theorem window_cases (hbudget : 0 < maxTokens) (trimmedEnd : Nat) :
    (∃ w, b.latest tokenStart (min (tokenStart + maxTokens) tokens.length) = some w ∧ w.tokenEnd ≠ tokens.length ∧
        window tokens b maxTokens trimmedEnd tokenStart = w) ∨
      (∃ token, b.latest tokenStart (tokenStart + maxTokens) = none ∧ tokenStart + maxTokens < tokens.length ∧
        tokens[tokenStart + maxTokens - 1]? = some token ∧
          window tokens b maxTokens trimmedEnd tokenStart = ⟨tokenStart + maxTokens, token.stop⟩) ∨
      window tokens b maxTokens trimmedEnd tokenStart = ⟨tokens.length, trimmedEnd⟩ := by
  cases hlatest : b.latest tokenStart (min (tokenStart + maxTokens) tokens.length) with
  | some w =>
      by_cases hend : w.tokenEnd = tokens.length
      · right
        right
        simp only [window, hlatest, Option.getD_some, hend, if_true]
      · exact .inl ⟨w, rfl, hend, window_boundary trimmedEnd hlatest hend⟩
  | none =>
      right
      rcases Nat.lt_or_ge (tokenStart + maxTokens) tokens.length with hmore | hdone
      · rw [Nat.min_eq_left hmore.le] at hlatest
        have htoken : tokens[tokenStart + maxTokens - 1]? = some tokens[tokenStart + maxTokens - 1] :=
          List.getElem?_eq_getElem (by omega)
        exact .inl ⟨_, hlatest, hmore, htoken, window_unbroken trimmedEnd hmore hlatest htoken⟩
      · right
        rw [Nat.min_eq_right hdone] at hlatest
        simp only [window, Nat.min_eq_right hdone, hlatest, Option.getD_none, if_true]

theorem window_tokenEnd (h : b.Of text tokens) (hbudget : 0 < maxTokens) (hlt : tokenStart < tokens.length)
    (trimmedEnd : Nat) : tokenStart < (window tokens b maxTokens trimmedEnd tokenStart).tokenEnd ∧
      (window tokens b maxTokens trimmedEnd tokenStart).tokenEnd ≤ min (tokenStart + maxTokens) tokens.length := by
  have htokenEnd : (window tokens b maxTokens trimmedEnd tokenStart).tokenEnd =
      ((b.latest tokenStart (min (tokenStart + maxTokens) tokens.length)).map Boundary.tokenEnd).getD
        (min (tokenStart + maxTokens) tokens.length) := by
    simp only [window]
    cases b.latest tokenStart (min (tokenStart + maxTokens) tokens.length) <;> split <;> rfl
  rw [htokenEnd]
  cases hlatest : b.latest tokenStart (min (tokenStart + maxTokens) tokens.length) with
  | some w =>
      obtain ⟨hstart, hlimit, -⟩ := h.latest hlatest
      exact ⟨hstart, hlimit⟩
  | none =>
      rw [Option.map_none, Option.getD_none]
      omega

theorem window_last (hbudget : 0 < maxTokens) {trimmedEnd : Nat}
    (hlast : (window tokens b maxTokens trimmedEnd tokenStart).tokenEnd = tokens.length) :
    (window tokens b maxTokens trimmedEnd tokenStart).byteEnd = trimmedEnd := by
  rcases @window_cases tokens b maxTokens tokenStart hbudget trimmedEnd with
    ⟨w, -, hne, hw⟩ | ⟨token, -, hmore, -, hw⟩ | hw
  · rw [hw] at hlast
    exact absurd hlast hne
  · rw [hw] at hlast
    exact absurd hlast hmore.ne
  · rw [hw]

/-- Windows of tokens inside the paragraph end in the paragraph. -/
theorem window_byteEnd (htokens : Overlapping text tokens) (h : b.Of text tokens) (hbudget : 0 < maxTokens)
    (hinside : ∀ t ∈ tokens, t.stop ≤ extent text) :
    (window tokens b maxTokens (extent text) tokenStart).byteEnd ≤ extent text ∧
      (splitAt? text (window tokens b maxTokens (extent text) tokenStart).byteEnd).isSome := by
  rcases @window_cases tokens b maxTokens tokenStart hbudget (extent text) with
    ⟨w, hlatest, -, hw⟩ | ⟨token, -, -, htoken, hw⟩ | hw
  · obtain ⟨-, -, -, hle, hsome⟩ := h.latest hlatest
    rw [hw]
    exact ⟨hle, hsome⟩
  · have hmem := List.mem_of_getElem? htoken
    rw [hw]
    exact ⟨hinside token hmem, htokens.cuts token hmem (hinside token hmem)⟩
  · rw [hw]
    exact ⟨le_rfl, (splitAt?_of_slice (slice?_all text)).2⟩

/-- A window that ends after the tokens an offset ends ends after the offset. -/
theorem window_after (htokens : Overlapping text tokens) (h : b.Of text tokens) (hbudget : 0 < maxTokens)
    (hlt : tokenStart < tokens.length) (hinside : ∀ t ∈ tokens, t.stop ≤ extent text) {offset : Nat}
    (hcount : endedBy tokens offset = tokenStart) :
    offset < (window tokens b maxTokens (extent text) tokenStart).byteEnd := by
  have hall : endedBy tokens (extent text) = tokens.length := by
    refine Nat.le_antisymm (endedBy_le _) (Nat.not_lt.mp fun hless => ?_)
    have hstop := (endedBy_le_iff htokens.stops hless).mp le_rfl
    exact absurd (hinside _ (List.getElem_mem hless)) (Nat.not_le.mpr hstop)
  rcases @window_cases tokens b maxTokens tokenStart hbudget (extent text) with
    ⟨w, hlatest, -, hw⟩ | ⟨token, -, hmore, htoken, hw⟩ | hw
  · obtain ⟨hstart, -, hended, -⟩ := h.latest hlatest
    rw [hw]
    exact @lt_of_endedBy tokens _ _ (by omega)
  · obtain ⟨hbound, rfl⟩ := List.getElem?_eq_some_iff.mp htoken
    rw [hw]
    exact (endedBy_le_iff htokens.stops hbound).mp (by omega)
  · rw [hw]
    have hless : endedBy tokens offset < endedBy tokens (extent text) := by omega
    exact lt_of_endedBy hless

/-- Windows end further and further on. -/
theorem Cuttable.progress {trimmedStart : Nat} (hcut : Cuttable text tokens b maxTokens trimmedStart)
    (htokens : Overlapping text tokens) (h : b.Of text tokens) (hbudget : 0 < maxTokens)
    (hreached : Reached tokens b maxTokens (extent text) tokenStart)
    (hmore : (window tokens b maxTokens (extent text) tokenStart).tokenEnd < tokens.length) :
    (window tokens b maxTokens (extent text) tokenStart).byteEnd <
      (window tokens b maxTokens (extent text)
        (window tokens b maxTokens (extent text) tokenStart).tokenEnd).byteEnd := by
  rcases @window_cases tokens b maxTokens tokenStart hbudget (extent text) with
    ⟨w, hlatest, -, hw⟩ | ⟨token, hnone, hlimit, htoken, hw⟩ | hw
  · obtain ⟨-, -, hended, -⟩ := h.latest hlatest
    rw [hw] at hmore ⊢
    exact window_after htokens h hbudget hmore hcut.inside hended
  · rw [hw]
    exact hcut.apart tokenStart token hreached hlimit hnone htoken
  · rw [hw] at hmore
    exact absurd hmore (lt_irrefl _)

end Window

section Loop

variable {docIndex maxTokens tokenStart byteStart trimmedStart : Nat} {text : Document} {tokens : List TokenSpan}
  {b : Bounds} {cursors : Cursors}

/-- One round of the loop. -/
theorem splitWindows_eq (trimmedEnd : Nat) (hlt : tokenStart < tokens.length)
    (hover : cursors.Over b (min (tokenStart + maxTokens) tokens.length)) :
    splitWindows docIndex text tokens maxTokens trimmedEnd cursors tokenStart byteStart =
      (let w := window tokens b maxTokens trimmedEnd tokenStart
      if w.tokenEnd ≤ tokenStart ∨ w.byteEnd ≤ byteStart ∨ extent text < w.byteEnd ∨
          isCharBoundary text w.byteEnd = false then
        .error (.error s!"automatic segmentation could not make progress at token {tokenStart}")
      else do
        let segments ← rangeSegment docIndex text byteStart w.byteEnd
        if w.tokenEnd = tokens.length then return segments
        else
          return segments ++ (← splitWindows docIndex text tokens maxTokens trimmedEnd
            (cursors.latest tokenStart (min (tokenStart + maxTokens) tokens.length)).2 w.tokenEnd w.byteEnd)) := by
  have htoken : tokens[min (tokenStart + maxTokens) tokens.length - 1]? =
      some tokens[min (tokenStart + maxTokens) tokens.length - 1] := List.getElem?_eq_getElem (by omega)
  obtain ⟨hlatest, -⟩ := Cursors.latest_eq tokenStart hover
  rw [splitWindows, if_pos hlt]
  simp only [htoken, hlatest, window, Option.map_some, Option.getD_some]
  by_cases hend : ((b.latest tokenStart (min (tokenStart + maxTokens) tokens.length)).getD
      ⟨min (tokenStart + maxTokens) tokens.length,
        tokens[min (tokenStart + maxTokens) tokens.length - 1].stop⟩).tokenEnd = tokens.length
  · simp only [if_pos hend]
  · simp only [if_neg hend]

/-- The cursors still serve the next window. -/
theorem Cursors.Over.after (h : b.Of text tokens) (hbudget : 0 < maxTokens) (hlt : tokenStart < tokens.length)
    (hover : cursors.Over b (min (tokenStart + maxTokens) tokens.length)) (trimmedEnd : Nat) :
    (cursors.latest tokenStart (min (tokenStart + maxTokens) tokens.length)).2.Over b
      (min ((window tokens b maxTokens trimmedEnd tokenStart).tokenEnd + maxTokens) tokens.length) := by
  obtain ⟨hstart, -⟩ := window_tokenEnd h hbudget hlt trimmedEnd
  obtain ⟨-, hafter⟩ := Cursors.latest_eq tokenStart hover
  exact hafter.mono (by omega)

variable (docIndex) in
/-- The loop gives the rest of a paragraph that can be cut. -/
theorem Cuttable.parts (hcut : Cuttable text tokens b maxTokens trimmedStart) (htokens : Overlapping text tokens)
    (h : b.Of text tokens) (hbudget : 0 < maxTokens) {rest : Document}
    (hreached : Reached tokens b maxTokens (extent text) tokenStart) (hlt : tokenStart < tokens.length)
    (hover : cursors.Over b (min (tokenStart + maxTokens) tokens.length))
    (hrest : slice? text byteStart (extent text) = some rest)
    (hbyte : byteStart < (window tokens b maxTokens (extent text) tokenStart).byteEnd) :
    ∃ segments, splitWindows docIndex text tokens maxTokens (extent text) cursors tokenStart byteStart = .ok segments ∧
      Parts byteStart rest segments := by
  induction hleft : tokens.length - tokenStart using Nat.strong_induction_on generalizing tokenStart byteStart cursors
      rest with
  | _ left ih =>
      obtain ⟨hstart, hend⟩ := window_tokenEnd h hbudget hlt (extent text)
      obtain ⟨hle, hsome⟩ := window_byteEnd htokens h hbudget hcut.inside
      obtain ⟨x, y, rfl, hx, hy⟩ := slice?_cut hrest hsome hbyte.le hle
      obtain ⟨segments, hsegments, hfirst⟩ := rangeSegment_parts docIndex hx
      have hnext := hover.after h hbudget hlt (extent text)
      rw [splitWindows_eq (extent text) hlt hover]
      dsimp only
      have hgoes : ¬((window tokens b maxTokens (extent text) tokenStart).tokenEnd ≤ tokenStart ∨
          (window tokens b maxTokens (extent text) tokenStart).byteEnd ≤ byteStart ∨
            extent text < (window tokens b maxTokens (extent text) tokenStart).byteEnd ∨
              isCharBoundary text (window tokens b maxTokens (extent text) tokenStart).byteEnd = false) := by
        rw [isCharBoundary, hsome]
        simp only [Bool.true_eq_false, or_false]
        omega
      rw [if_neg hgoes, hsegments]
      simp only [bind, Except.bind]
      by_cases hlast : (window tokens b maxTokens (extent text) tokenStart).tokenEnd = tokens.length
      · rw [window_last hbudget hlast] at hy
        have hempty := slice?_extent hy
        obtain rfl : y = [] := extent_eq_zero.mp (by omega)
        rw [if_pos hlast, List.append_nil]
        exact ⟨segments, rfl, hfirst⟩
      · rw [if_neg hlast]
        have hmore : (window tokens b maxTokens (extent text) tokenStart).tokenEnd < tokens.length := by omega
        have hprogress := hcut.progress htokens h hbudget hreached hmore
        obtain ⟨later, hlater, htiles⟩ :=
          ih _ (by omega) (.next hreached hlt) hmore hnext hy hprogress rfl
        rw [hlater]
        refine ⟨segments ++ later, rfl, ?_⟩
        rw [slice?_extent hx] at htiles
        rw [Parts, List.map_append]
        exact hfirst.append htiles

/-- The loop goes on from a token and a byte, with the cursors anywhere they
may be, to its end. -/
def Succeeds (docIndex : Nat) (text : Document) (tokens : List TokenSpan) (b : Bounds)
    (maxTokens tokenStart byteStart : Nat) : Prop :=
  ∃ cursors segments, cursors.Over b (min (tokenStart + maxTokens) tokens.length) ∧
    splitWindows docIndex text tokens maxTokens (extent text) cursors tokenStart byteStart = .ok segments

theorem Succeeds.next (h : b.Of text tokens) (hbudget : 0 < maxTokens) (hlt : tokenStart < tokens.length)
    (hok : Succeeds docIndex text tokens b maxTokens tokenStart byteStart) :
    byteStart < (window tokens b maxTokens (extent text) tokenStart).byteEnd ∧
      (window tokens b maxTokens (extent text) tokenStart).byteEnd ≤ extent text ∧
        ((window tokens b maxTokens (extent text) tokenStart).tokenEnd ≠ tokens.length →
          Succeeds docIndex text tokens b maxTokens (window tokens b maxTokens (extent text) tokenStart).tokenEnd
            (window tokens b maxTokens (extent text) tokenStart).byteEnd) := by
  obtain ⟨cursors, segments, hover, hok⟩ := hok
  rw [splitWindows_eq (extent text) hlt hover] at hok
  obtain ⟨hgoes, hok⟩ := guard_eq_ok.mp hok
  rw [not_or, not_or, not_or] at hgoes
  obtain ⟨-, hbyte, hle, -⟩ := hgoes
  refine ⟨Nat.not_le.mp hbyte, Nat.not_lt.mp hle, fun hmore => ?_⟩
  obtain ⟨first, -, hok⟩ := bind_eq_ok.mp hok
  rw [if_neg hmore] at hok
  obtain ⟨later, hlater, -⟩ := bind_eq_ok.mp hok
  exact ⟨_, later, hover.after h hbudget hlt (extent text), hlater⟩

theorem Succeeds.reached (h : b.Of text tokens) (hbudget : 0 < maxTokens)
    (hok : Succeeds docIndex text tokens b maxTokens 0 byteStart)
    (hreached : Reached tokens b maxTokens (extent text) tokenStart) :
    tokenStart < tokens.length → ∃ byte, Succeeds docIndex text tokens b maxTokens tokenStart byte := by
  induction hreached with
  | first => exact fun _ => ⟨byteStart, hok⟩
  | next _ hlt ih =>
      intro hmore
      obtain ⟨byte, hbyte⟩ := ih hlt
      obtain ⟨-, -, hnext⟩ := hbyte.next h hbudget hlt
      exact ⟨_, hnext hmore.ne⟩

theorem EndsOf.unique {bs : List Boundary} (h : EndsOf text tokens bs) {v w : Boundary} (hv : v ∈ bs) (hw : w ∈ bs)
    (heq : v.tokenEnd = w.tokenEnd) : v = w := by
  have hnodup : (bs.map Boundary.tokenEnd).Nodup := by
    rw [List.Nodup, List.pairwise_map]
    exact h.sorted.imp fun hlt => hlt.ne
  exact List.inj_on_of_nodup_map hnodup hv hw heq

/-- The window in which the tokens of the text run out ends with the text. -/
theorem Bounds.Of.latest_final (h : b.Of text tokens) {tokenLimit : Nat}
    (hstart : tokenStart < endedBy tokens (extent text)) (hlimit : endedBy tokens (extent text) ≤ tokenLimit) :
    b.latest tokenStart tokenLimit = some ⟨endedBy tokens (extent text), extent text⟩ := by
  have hfinal := h.paragraph.final (Nat.zero_lt_of_lt hstart)
  cases hlast : lastBoundary b.paragraph tokenStart tokenLimit with
  | none =>
      have hle := lastBoundary_none h.paragraph.sorted hlast hfinal hlimit
      exact absurd hstart (Nat.not_lt.mpr hle)
  | some w =>
      obtain ⟨hmem, -, -, hmax⟩ := lastBoundary_some h.paragraph.sorted hlast
      obtain ⟨hcount, hle, -⟩ := h.paragraph.entry w hmem
      have hge := hmax _ hfinal hlimit
      have hmono := @endedBy_mono tokens _ _ hle
      obtain rfl := h.paragraph.unique hmem hfinal (by dsimp only at hge ⊢; omega)
      rw [Bounds.latest, hlast, Option.some_or]

/-- Where a token goes on after the text, the loop does not come to its end. -/
theorem not_succeeds (h : b.Of text tokens) (hbudget : 0 < maxTokens)
    (houtside : endedBy tokens (extent text) < tokens.length) (hlt : tokenStart < tokens.length)
    (hstate : extent text ≤ byteStart ∨ tokenStart < endedBy tokens (extent text)) :
    ¬Succeeds docIndex text tokens b maxTokens tokenStart byteStart := by
  induction hleft : tokens.length - tokenStart using Nat.strong_induction_on generalizing tokenStart byteStart with
  | _ left ih =>
      intro hok
      obtain ⟨hbyte, hle, hnext⟩ := hok.next h hbudget hlt
      obtain ⟨hstart, hlimit⟩ := window_tokenEnd h hbudget hlt (extent text)
      rcases hstate with hdone | hbefore
      · omega
      by_cases hwithin : endedBy tokens (extent text) ≤ min (tokenStart + maxTokens) tokens.length
      · have hlatest := h.latest_final hbefore hwithin
        rw [window_boundary (extent text) hlatest houtside.ne] at hnext
        exact ih _ (by omega) houtside (.inl le_rfl) rfl (hnext houtside.ne)
      · exact ih _ (by omega) (by omega) (.inr (by omega)) rfl (hnext (by omega))

/-- A paragraph that the loop cuts can be cut. -/
theorem Succeeds.cuttable (htokens : Overlapping text tokens) (h : b.Of text tokens) (hbudget : 0 < maxTokens)
    (hlong : maxTokens < tokens.length) (hok : Succeeds docIndex text tokens b maxTokens 0 trimmedStart) :
    Cuttable text tokens b maxTokens trimmedStart where
  inside := by
    by_contra hnot
    have houtside : endedBy tokens (extent text) < tokens.length := by
      refine Nat.lt_of_le_of_ne (endedBy_le _) fun hall => hnot fun t ht => ?_
      obtain ⟨k, hk, rfl⟩ := List.getElem_of_mem ht
      by_contra hgt
      have hcount := (endedBy_le_iff htokens.stops hk).mpr (Nat.not_le.mp hgt)
      omega
    rcases Nat.eq_zero_or_pos (endedBy tokens (extent text)) with hzero | hpos
    · have hnone : b.latest 0 (0 + maxTokens) = none := by
        cases hlatest : b.latest 0 (0 + maxTokens) with
        | none => rfl
        | some w =>
            obtain ⟨hstart, -, hcount, hle, -⟩ := h.latest hlatest
            have hmono := @endedBy_mono tokens _ _ hle
            omega
      have htoken : tokens[0 + maxTokens - 1]? = some tokens[0 + maxTokens - 1] :=
        List.getElem?_eq_getElem (by omega)
      have hwindow := window_unbroken (extent text) (by omega) hnone htoken
      obtain ⟨-, hle, -⟩ := hok.next h hbudget (by omega)
      have hlate := (endedBy_le_iff htokens.stops (show 0 + maxTokens - 1 < tokens.length by omega)).mp
        (show endedBy tokens (extent text) ≤ 0 + maxTokens - 1 by omega)
      rw [hwindow] at hle
      exact absurd hlate (Nat.not_lt.mpr hle)
    · exact not_succeeds h hbudget houtside (by omega) (.inr hpos) hok
  first := (hok.next h hbudget (by omega)).1
  apart tokenStart token hreached hmore hnone htoken := by
    obtain ⟨byte, hbyte⟩ := hok.reached h hbudget hreached (by omega)
    obtain ⟨-, -, hnext⟩ := hbyte.next h hbudget (by omega)
    rw [window_unbroken (extent text) hmore hnone htoken] at hnext
    exact ((hnext hmore.ne).next h hbudget hmore).1

end Loop

end Wordflow.Segmentation
