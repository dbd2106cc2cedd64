import Wordflow.Library.Sorted
import Wordflow.Segmentation.Segments

namespace Wordflow.Segmentation

open Library

/-- How many tokens end by an offset. -/
def endedBy (tokens : List TokenSpan) (offset : Nat) : Nat := (tokens.takeWhile fun t => t.stop ≤ offset).length

section Index

variable {tokens : List TokenSpan} {ends : List Nat} {bs : List Boundary}

theorem endedBy_le (offset : Nat) : endedBy tokens offset ≤ tokens.length := (List.takeWhile_sublist _).length_le

theorem endedBy_mono {a b : Nat} (h : a ≤ b) : endedBy tokens a ≤ endedBy tokens b := by
  apply length_takeWhile_mono
  intro t _ ht
  rw [decide_eq_true_eq] at ht ⊢
  omega

theorem lt_of_endedBy {a b : Nat} (h : endedBy tokens a < endedBy tokens b) : a < b := by
  by_contra hle
  have hmono := @endedBy_mono tokens b a (Nat.not_lt.mp hle)
  omega

theorem endedBy_le_iff (hsorted : tokens.Pairwise fun t u => t.stop ≤ u.stop) {k offset : Nat}
    (hk : k < tokens.length) : endedBy tokens offset ≤ k ↔ offset < tokens[k].stop := by
  rw [endedBy, length_takeWhile_le_iff _ hk, decide_eq_false_iff_not, Nat.not_le]
  refine hsorted.imp fun hle hlt => ?_
  rw [decide_eq_true_eq] at hlt ⊢
  exact Nat.le_trans hle hlt

/-- Boundaries in order, the latest offset for every number of tokens. -/
structure Indexed (tokens : List TokenSpan) (ends : List Nat) (bs : List Boundary) : Prop where
  entry : ∀ b ∈ bs, b.byteEnd ∈ ends ∧ endedBy tokens b.byteEnd = b.tokenEnd ∧ 0 < b.tokenEnd
  sorted : bs.Pairwise fun a b => a.tokenEnd < b.tokenEnd
  latest : ∀ e ∈ ends, 0 < endedBy tokens e → ∃ b ∈ bs, b.tokenEnd = endedBy tokens e ∧ e ≤ b.byteEnd

theorem indexed_nil : Indexed tokens [] [] := ⟨by simp, .nil, by simp⟩

theorem Indexed.keep {e : Nat} (h : Indexed tokens ends bs) (hzero : endedBy tokens e = 0) :
    Indexed tokens (ends ++ [e]) bs where
  entry b hb := by
    obtain ⟨hmem, hcount⟩ := h.entry b hb
    exact ⟨List.mem_append_left _ hmem, hcount⟩
  sorted := h.sorted
  latest e' he' hpos := by
    rcases List.mem_append.mp he' with he' | he'
    · exact h.latest e' he' hpos
    · rw [List.mem_singleton.mp he', hzero] at hpos
      cases hpos

theorem Indexed.push {e : Nat} (h : Indexed tokens ends bs) (hpos : 0 < endedBy tokens e)
    (hlt : ∀ b ∈ bs, b.tokenEnd < endedBy tokens e) :
    Indexed tokens (ends ++ [e]) (bs ++ [⟨endedBy tokens e, e⟩]) where
  entry b hb := by
    rcases List.mem_append.mp hb with hb | hb
    · obtain ⟨hmem, hcount⟩ := h.entry b hb
      exact ⟨List.mem_append_left _ hmem, hcount⟩
    · obtain rfl := List.mem_singleton.mp hb
      exact ⟨by simp, rfl, hpos⟩
  sorted := by
    rw [List.pairwise_append]
    refine ⟨h.sorted, List.pairwise_singleton _ _, fun a ha b hb => ?_⟩
    obtain rfl := List.mem_singleton.mp hb
    exact hlt a ha
  latest e' he' hpos' := by
    rcases List.mem_append.mp he' with he' | he'
    · obtain ⟨b, hb, hcount⟩ := h.latest e' he' hpos'
      exact ⟨b, List.mem_append_left _ hb, hcount⟩
    · obtain rfl := List.mem_singleton.mp he'
      exact ⟨_, List.mem_append_right _ (List.mem_singleton_self _), rfl, le_rfl⟩

theorem Indexed.replace {e : Nat} {init : List Boundary} {previous : Boundary}
    (h : Indexed tokens ends (init ++ [previous])) (hle : ∀ e' ∈ ends, e' ≤ e)
    (hcount : previous.tokenEnd = endedBy tokens e) :
    Indexed tokens (ends ++ [e]) (init ++ [{ previous with byteEnd := e }]) where
  entry b hb := by
    rcases List.mem_append.mp hb with hb | hb
    · obtain ⟨hmem, hentry⟩ := h.entry b (List.mem_append_left _ hb)
      exact ⟨List.mem_append_left _ hmem, hentry⟩
    · obtain rfl := List.mem_singleton.mp hb
      obtain ⟨-, -, hpos⟩ := h.entry previous (by simp)
      exact ⟨by simp, hcount.symm, hpos⟩
  sorted := by
    have hsorted := h.sorted
    rw [List.pairwise_append] at hsorted ⊢
    refine ⟨hsorted.1, List.pairwise_singleton _ _, fun a ha b hb => ?_⟩
    obtain rfl := List.mem_singleton.mp hb
    exact hsorted.2.2 a ha previous (List.mem_singleton_self _)
  latest e' he' hpos := by
    rcases List.mem_append.mp he' with he' | he'
    · obtain ⟨b, hb, heq, hle'⟩ := h.latest e' he' hpos
      rcases List.mem_append.mp hb with hb | hb
      · exact ⟨b, List.mem_append_left _ hb, heq, hle'⟩
      · obtain rfl := List.mem_singleton.mp hb
        exact ⟨_, List.mem_append_right _ (List.mem_singleton_self _), heq, hle e' he'⟩
    · obtain rfl := List.mem_singleton.mp he'
      exact ⟨_, List.mem_append_right _ (List.mem_singleton_self _), hcount, le_rfl⟩

/-- One more end. -/
theorem Indexed.step {e k : Nat} (h : Indexed tokens ends bs) (hle : ∀ e' ∈ ends, e' ≤ e)
    (hk : k ≤ endedBy tokens e) :
    (indexBoundary tokens (bs, k) e).2 = endedBy tokens e ∧
      Indexed tokens (ends ++ [e]) (indexBoundary tokens (bs, k) e).1 := by
  have hcount : k + ((tokens.drop k).takeWhile fun t => t.stop ≤ e).length = endedBy tokens e := length_takeWhile_drop hk
  simp only [indexBoundary, hcount]
  by_cases hzero : endedBy tokens e = 0
  · rw [if_pos hzero]
    exact ⟨rfl, h.keep hzero⟩
  · rw [if_neg hzero]
    cases hlast : bs.getLast? with
    | none =>
        obtain rfl := List.getLast?_eq_none_iff.mp hlast
        exact ⟨rfl, h.push (Nat.pos_of_ne_zero hzero) (by simp)⟩
    | some previous =>
        obtain ⟨init, rfl⟩ := List.getLast?_eq_some_iff.mp hlast
        simp only
        by_cases heq : previous.tokenEnd = endedBy tokens e
        · rw [if_pos heq, List.dropLast_concat]
          exact ⟨rfl, h.replace hle heq⟩
        · rw [if_neg heq]
          refine ⟨rfl, h.push (Nat.pos_of_ne_zero hzero) fun b hb => ?_⟩
          obtain ⟨hmem, hentry, -⟩ := h.entry b hb
          have hmono := @endedBy_mono tokens _ _ (hle _ hmem)
          rcases List.mem_append.mp hb with hb | hb
          · obtain ⟨hmem', hentry', -⟩ := h.entry previous (by simp)
            have hmono' := @endedBy_mono tokens _ _ (hle _ hmem')
            have hbefore := (List.pairwise_append.mp h.sorted).2.2 b hb previous (List.mem_singleton_self _)
            omega
          · obtain rfl := List.mem_singleton.mp hb
            omega

theorem indexBoundaries_indexed (hends : ends.Pairwise (· ≤ ·)) : Indexed tokens ends (indexBoundaries tokens ends) := by
  suffices Indexed tokens ends (ends.foldl (indexBoundary tokens) ([], 0)).1 ∧
      ((ends.foldl (indexBoundary tokens) ([], 0)).2 = 0 ∨
        ∃ e ∈ ends, (ends.foldl (indexBoundary tokens) ([], 0)).2 = endedBy tokens e) from this.1
  induction ends using List.reverseRecOn with
  | nil => exact ⟨indexed_nil, .inl rfl⟩
  | append_singleton ends e ih =>
      obtain ⟨hbefore, -, hle⟩ := List.pairwise_append.mp hends
      have hle' : ∀ e' ∈ ends, e' ≤ e := fun e' he' => hle e' he' e (List.mem_singleton_self e)
      obtain ⟨hindexed, hlast⟩ := ih hbefore
      rw [List.foldl_append]
      have hk : (ends.foldl (indexBoundary tokens) ([], 0)).2 ≤ endedBy tokens e := by
        rcases hlast with hzero | ⟨e', he', heq⟩
        · omega
        · rw [heq]
          exact endedBy_mono (hle' e' he')
      obtain ⟨hcount, hnext⟩ := hindexed.step hle' hk
      exact ⟨hnext, .inr ⟨e, by simp, hcount⟩⟩

/-- The text's own end is a boundary with all the tokens that end by it. -/
theorem Indexed.final {stop : Nat} (h : Indexed tokens ends bs) (hle : ∀ e ∈ ends, e ≤ stop) (hstop : stop ∈ ends)
    (hpos : 0 < endedBy tokens stop) : ⟨endedBy tokens stop, stop⟩ ∈ bs := by
  obtain ⟨⟨tokenEnd, byteEnd⟩, hb, hcount, hge⟩ := h.latest stop hstop hpos
  have hend := hle byteEnd (h.entry _ hb).1
  have hcount' : tokenEnd = endedBy tokens stop := hcount
  obtain rfl : byteEnd = stop := Nat.le_antisymm hend hge
  rw [← hcount']
  exact hb

end Index

/-- The last boundary within a limit, if it lies beyond the token a window
starts with. -/
def lastBoundary (bs : List Boundary) (tokenStart tokenLimit : Nat) : Option Boundary :=
  ((bs.takeWhile fun b => b.tokenEnd ≤ tokenLimit).getLast?).filter fun b => tokenStart < b.tokenEnd

section Cursor

variable {tokens : List TokenSpan} {ends : List Nat} {bs : List Boundary} {tokenStart tokenLimit : Nat}

theorem limit_of_sorted (tokenLimit : Nat) (hsorted : bs.Pairwise fun a b => a.tokenEnd < b.tokenEnd) :
    bs.Pairwise fun a b => decide (b.tokenEnd ≤ tokenLimit) = true → decide (a.tokenEnd ≤ tokenLimit) = true :=
  hsorted.imp fun hlt hle => by
    rw [decide_eq_true_eq] at hle ⊢
    omega

theorem lastBoundary_some {b : Boundary} (hsorted : bs.Pairwise fun a b => a.tokenEnd < b.tokenEnd)
    (h : lastBoundary bs tokenStart tokenLimit = some b) :
    b ∈ bs ∧ tokenStart < b.tokenEnd ∧ b.tokenEnd ≤ tokenLimit ∧
      ∀ b' ∈ bs, b'.tokenEnd ≤ tokenLimit → b'.tokenEnd ≤ b.tokenEnd := by
  obtain ⟨hlast, hstart⟩ := Option.filter_eq_some_iff.mp h
  obtain ⟨init, hinit⟩ := List.getLast?_eq_some_iff.mp hlast
  have hmem : b ∈ bs.takeWhile fun b => b.tokenEnd ≤ tokenLimit := List.mem_of_getLast? hlast
  refine ⟨(List.takeWhile_sublist _).subset hmem, by simpa using hstart, by simpa using List.mem_takeWhile_imp hmem, ?_⟩
  intro b' hb' hlimit
  have hmem' : b' ∈ init ++ [b] := by
    rw [← hinit, takeWhile_eq_filter (limit_of_sorted tokenLimit hsorted)]
    exact List.mem_filter.mpr ⟨hb', by simpa using hlimit⟩
  have hsorted' := hsorted.sublist (List.takeWhile_sublist fun b => decide (b.tokenEnd ≤ tokenLimit))
  rw [hinit] at hsorted'
  rcases List.mem_append.mp hmem' with hmem' | hmem'
  · exact ((List.pairwise_append.mp hsorted').2.2 b' hmem' b (List.mem_singleton_self b)).le
  · rw [List.mem_singleton.mp hmem']

theorem lastBoundary_none (hsorted : bs.Pairwise fun a b => a.tokenEnd < b.tokenEnd)
    (h : lastBoundary bs tokenStart tokenLimit = none) {b : Boundary} (hb : b ∈ bs) (hlimit : b.tokenEnd ≤ tokenLimit) :
    b.tokenEnd ≤ tokenStart := by
  have hmem : b ∈ bs.takeWhile fun b => b.tokenEnd ≤ tokenLimit := by
    rw [takeWhile_eq_filter (limit_of_sorted tokenLimit hsorted)]
    exact List.mem_filter.mpr ⟨hb, by simpa using hlimit⟩
  cases hlast : (bs.takeWhile fun b => b.tokenEnd ≤ tokenLimit).getLast? with
  | none =>
      rw [List.getLast?_eq_none_iff.mp hlast] at hmem
      cases hmem
  | some last =>
      have hstart : ¬tokenStart < last.tokenEnd := by
        intro hlt
        rw [lastBoundary, hlast, Option.filter_some, if_pos (by simpa using hlt)] at h
        cases h
      obtain ⟨init, hinit⟩ := List.getLast?_eq_some_iff.mp hlast
      have hsorted' := hsorted.sublist (List.takeWhile_sublist fun b => decide (b.tokenEnd ≤ tokenLimit))
      rw [hinit] at hmem hsorted'
      rcases List.mem_append.mp hmem with hmem | hmem
      · have hbefore := (List.pairwise_append.mp hsorted').2.2 b hmem last (List.mem_singleton_self last)
        omega
      · rw [List.mem_singleton.mp hmem]
        omega

/-- A cursor has not gone beyond the boundaries within a limit. -/
def BoundaryCursor.Over (c : BoundaryCursor) (bs : List Boundary) (tokenLimit : Nat) : Prop :=
  c.boundaries = bs ∧ c.next ≤ (bs.takeWhile fun b => b.tokenEnd ≤ tokenLimit).length

theorem BoundaryCursor.over_new (bs : List Boundary) (tokenLimit : Nat) : (BoundaryCursor.new bs).Over bs tokenLimit :=
  ⟨rfl, Nat.zero_le _⟩

theorem BoundaryCursor.Over.mono {c : BoundaryCursor} {limit : Nat} (h : c.Over bs tokenLimit)
    (hle : tokenLimit ≤ limit) : c.Over bs limit := by
  refine ⟨h.1, h.2.trans (length_takeWhile_mono fun b _ hb => ?_)⟩
  rw [decide_eq_true_eq] at hb ⊢
  omega

variable (tokenStart) in
/-- The cursor's answer does not depend on where it stands. -/
theorem BoundaryCursor.latest_eq {c : BoundaryCursor} (h : c.Over bs tokenLimit) :
    (c.latest tokenStart tokenLimit).1 = lastBoundary bs tokenStart tokenLimit ∧
      (c.latest tokenStart tokenLimit).2.Over bs tokenLimit := by
  obtain ⟨rfl, hnext⟩ := h
  have hcount := length_takeWhile_drop hnext
  simp only [BoundaryCursor.latest, hcount]
  refine ⟨?_, rfl, le_rfl⟩
  rw [lastBoundary]
  congr 1
  have htake : c.boundaries.takeWhile (fun b => decide (b.tokenEnd ≤ tokenLimit)) =
      c.boundaries.take (c.boundaries.takeWhile fun b => decide (b.tokenEnd ≤ tokenLimit)).length :=
    List.prefix_iff_eq_take.mp (List.takeWhile_prefix _)
  have hlen : (c.boundaries.takeWhile fun b => decide (b.tokenEnd ≤ tokenLimit)).length ≤ c.boundaries.length :=
    (List.takeWhile_sublist _).length_le
  generalize (c.boundaries.takeWhile fun b => decide (b.tokenEnd ≤ tokenLimit)).length = n at htake hlen
  rw [htake]
  by_cases hn : n = 0
  · simp [hn]
  · rw [if_neg hn, List.getLast?_eq_getElem?, List.length_take, Nat.min_eq_left hlen, List.getElem?_take,
      if_pos (by omega)]

/-- The ends of paragraphs, sentences and words, in the order a window asks
for them. -/
structure Bounds where
  paragraph : List Boundary
  sentence : List Boundary
  word : List Boundary

def Bounds.latest (b : Bounds) (tokenStart tokenLimit : Nat) : Option Boundary :=
  (lastBoundary b.paragraph tokenStart tokenLimit).or
    ((lastBoundary b.sentence tokenStart tokenLimit).or (lastBoundary b.word tokenStart tokenLimit))

structure Cursors.Over (c : Cursors) (b : Bounds) (tokenLimit : Nat) : Prop where
  paragraph : c.paragraph.Over b.paragraph tokenLimit
  sentence : c.sentence.Over b.sentence tokenLimit
  word : c.word.Over b.word tokenLimit

theorem Cursors.Over.mono {c : Cursors} {b : Bounds} {limit : Nat} (h : c.Over b tokenLimit)
    (hle : tokenLimit ≤ limit) : c.Over b limit :=
  ⟨h.paragraph.mono hle, h.sentence.mono hle, h.word.mono hle⟩

variable (tokenStart) in
theorem Cursors.latest_eq {c : Cursors} {b : Bounds} (h : c.Over b tokenLimit) :
    (c.latest tokenStart tokenLimit).1 = b.latest tokenStart tokenLimit ∧
      (c.latest tokenStart tokenLimit).2.Over b tokenLimit := by
  obtain ⟨hparagraph, hparagraph'⟩ := BoundaryCursor.latest_eq tokenStart h.paragraph
  obtain ⟨hsentence, hsentence'⟩ := BoundaryCursor.latest_eq tokenStart h.sentence
  obtain ⟨hword, hword'⟩ := BoundaryCursor.latest_eq tokenStart h.word
  simp only [Cursors.latest, Bounds.latest, ← hparagraph, ← hsentence, ← hword]
  generalize c.paragraph.latest tokenStart tokenLimit = p at hparagraph' ⊢
  generalize c.sentence.latest tokenStart tokenLimit = s at hsentence' ⊢
  generalize c.word.latest tokenStart tokenLimit = w at hword' ⊢
  rcases p with ⟨_ | b, p⟩
  · rcases s with ⟨_ | b, s⟩
    · exact ⟨rfl, hparagraph', hsentence', hword'⟩
    · exact ⟨rfl, hparagraph', hsentence', h.word⟩
  · exact ⟨rfl, hparagraph', h.sentence, h.word⟩

end Cursor

end Wordflow.Segmentation
