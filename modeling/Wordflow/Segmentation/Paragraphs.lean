import Wordflow.Segmentation.Ranges

namespace Wordflow.Segmentation

open Library

/-- A text that ends with a character that is not blank. -/
def EndsFull (text : Document) : Prop := ∃ c, text.getLast? = some c ∧ Text.isWhitespace c = false

/-- Offsets that cut a text, from `start` to `stop`, into parts that end with a
character that is not blank. -/
inductive Chain (doc : Document) : Nat → List Nat → Nat → Prop
  | nil {start : Nat} (h : (splitAt? doc start).isSome) : Chain doc start [] start
  | cons {start stop last : Nat} {part : Document} {ends : List Nat} (hslice : slice? doc start stop = some part)
      (hfull : EndsFull part) (hrest : Chain doc stop ends last) : Chain doc start (stop :: ends) last

section Chain

variable {doc part : Document} {start stop last : Nat} {ends : List Nat}

theorem Chain.snoc (h : Chain doc start ends last) (hslice : slice? doc last stop = some part) (hfull : EndsFull part) :
    Chain doc start (ends ++ [stop]) stop := by
  induction h with
  | nil => exact .cons hslice hfull (.nil (splitAt?_of_slice hslice).2)
  | cons hfirst hfull' _ ih => exact .cons hfirst hfull' (ih hslice)

theorem Chain.le (h : Chain doc start ends last) : start ≤ last := by
  induction h with
  | nil => exact le_rfl
  | cons hslice _ _ ih =>
      have hstop := slice?_extent hslice
      omega

theorem Chain.ends_le (h : Chain doc start ends last) : ∀ e ∈ ends, e ≤ last := by
  induction h with
  | nil => simp
  | cons _ _ hrest ih =>
      rw [List.forall_mem_cons]
      exact ⟨hrest.le, ih⟩

theorem Chain.ends_ge (h : Chain doc start ends last) : ∀ e ∈ ends, start ≤ e := by
  induction h with
  | nil => simp
  | cons hslice _ _ ih =>
      have hstop := slice?_extent hslice
      rw [List.forall_mem_cons]
      refine ⟨by omega, fun e he => ?_⟩
      have hge := ih e he
      omega

theorem Chain.sorted (h : Chain doc start ends last) : ends.Pairwise (· ≤ ·) := by
  induction h with
  | nil => exact .nil
  | cons _ _ hrest ih => exact .cons hrest.ends_ge ih

theorem Chain.cuts (h : Chain doc start ends last) : ∀ e ∈ ends, (splitAt? doc e).isSome := by
  induction h with
  | nil => simp
  | cons hslice _ _ ih =>
      rw [List.forall_mem_cons]
      exact ⟨(splitAt?_of_slice hslice).2, ih⟩

theorem Chain.last_mem (h : Chain doc start ends last) : last = start ∨ last ∈ ends := by
  induction h with
  | nil => exact .inl rfl
  | cons _ _ _ ih =>
      right
      rcases ih with rfl | hmem
      · exact List.mem_cons_self
      · exact List.mem_cons_of_mem _ hmem

end Chain

section Lines

variable {line lead body trail : Document}

/-- The content of a line is the line without blanks at its end. -/
theorem line_content (line : Document) :
    ∃ rest, line = stripSuffix '\r' (stripSuffix '\n' line) ++ rest ∧ IsBlank rest := by
  obtain ⟨newline, hnewline, hblank⟩ := @stripSuffix_blank '\n' (by decide) line
  obtain ⟨return_, hreturn, hblank'⟩ := @stripSuffix_blank '\r' (by decide) (stripSuffix '\n' line)
  refine ⟨return_ ++ newline, ?_, hblank'.append hblank⟩
  rw [← List.append_assoc, ← hreturn]
  exact hnewline

theorem content_blank (h : IsBlank line) :
    Text.trimEnd (Text.trimStart (stripSuffix '\r' (stripSuffix '\n' line))) = [] := by
  obtain ⟨rest, hrest, -⟩ := line_content line
  have hcontent : IsBlank (stripSuffix '\r' (stripSuffix '\n' line)) := fun c hc =>
    h c (by rw [hrest]; exact List.mem_append_left _ hc)
  have hstart : Text.trimStart (stripSuffix '\r' (stripSuffix '\n' line)) = [] := allBlank_dropWhile.mp hcontent
  rw [hstart]
  rfl

/-- The content of a line with text in it ends where the text ends. -/
theorem content_framed (h : IsFramed line lead body trail) :
    Text.trimEnd (Text.trimStart (stripSuffix '\r' (stripSuffix '\n' line))) ≠ [] ∧
      Text.trimEnd (stripSuffix '\r' (stripSuffix '\n' line)) = lead ++ body := by
  obtain ⟨rest, hrest, hblank⟩ := line_content line
  generalize stripSuffix '\r' (stripSuffix '\n' line) = content at hrest ⊢
  rcases framed_or_blank content with hcontent | ⟨lead', body', trail', hframed⟩
  · have hline : IsBlank line := by
      rw [hrest]
      exact hcontent.append hblank
    refine absurd (fun c hc => hline c ?_) h.body.not_allBlank
    rw [h.eq]
    exact List.mem_append_left _ (List.mem_append_right _ hc)
  · have hline : IsFramed line lead' body' (trail' ++ rest) :=
      ⟨by rw [hrest, hframed.eq]; simp, hframed.lead, hframed.trail.append hblank, hframed.body⟩
    refine ⟨?_, ?_⟩
    · rw [trim_framed hframed]
      exact hframed.body.ne_nil
    · have hend : Text.trimEnd content = lead' ++ body' := hframed.dropWhile_reverse
      rw [hend, ← hline.dropWhile_reverse, h.dropWhile_reverse]

end Lines

/-- What the scan knows of the lines read so far. -/
structure Scanned (doc : Document) (read : Nat) (s : ParagraphScan) : Prop where
  offset : s.byteOffset = read
  chain : ∃ last, Chain doc 0 s.ends last ∧
    if s.paragraphOpen then
      ∃ part tail, slice? doc last s.paragraphEnd = some part ∧ EndsFull part ∧
        slice? doc s.paragraphEnd read = some tail ∧ IsBlank tail
    else ∃ tail, slice? doc last read = some tail ∧ IsBlank tail

section Scan

variable {doc line part : Document} {read stop last : Nat} {s : ParagraphScan}

theorem EndsFull.prepend {a b : Document} (h : EndsFull b) : EndsFull (a ++ b) := by
  obtain ⟨c, hlast, hfull⟩ := h
  exact ⟨c, by rw [List.getLast?_append, hlast, Option.some_or], hfull⟩

theorem Scanned.close (h : Scanned doc read s) : ∃ last, Chain doc 0 s.finish last ∧
    ∃ tail, slice? doc last read = some tail ∧ IsBlank tail := by
  obtain ⟨last, hchain, hstate⟩ := h.chain
  rw [ParagraphScan.finish]
  split at hstate
  · rename_i hopen
    obtain ⟨part, tail, hslice, hfull, htail⟩ := hstate
    rw [if_pos hopen]
    exact ⟨_, hchain.snoc hslice hfull, tail, htail⟩
  · rename_i hopen
    rw [if_neg hopen]
    exact ⟨last, hchain, hstate⟩

theorem Scanned.next (h : Scanned doc read s) (hline : slice? doc read stop = some line) :
    Scanned doc stop (s.line line) := by
  have hoffset := h.offset
  have hstop := slice?_extent hline
  rcases framed_or_blank line with hblank | ⟨lead, body, trail, hframed⟩
  · simp only [ParagraphScan.line]
    rw [if_pos (content_blank hblank)]
    refine ⟨by rw [hoffset, hstop], ?_⟩
    obtain ⟨last, hchain, tail, htail, hblank'⟩ := h.close
    exact ⟨last, hchain, tail ++ line, slice?_join htail hline, hblank'.append hblank⟩
  · obtain ⟨hne, hcontent⟩ := content_framed hframed
    obtain ⟨hlead, hbody, htrail⟩ := framed_slices hline hframed
    have htext := slice?_join hlead hbody
    simp only [ParagraphScan.line]
    rw [if_neg hne, hcontent, hoffset, extent_append, ← Nat.add_assoc]
    refine ⟨hstop.symm, ?_⟩
    obtain ⟨last, hchain, hstate⟩ := h.chain
    refine ⟨last, hchain, ?_⟩
    have hfull : EndsFull (lead ++ body) := EndsFull.prepend hframed.body.last
    split at hstate
    · obtain ⟨part, tail, hslice, -, htail, -⟩ := hstate
      exact ⟨_, trail, slice?_join (slice?_join hslice htail) htext, hfull.prepend, htrail, hframed.trail⟩
    · obtain ⟨tail, htail, -⟩ := hstate
      exact ⟨_, trail, slice?_join htail htext, hfull.prepend, htrail, hframed.trail⟩

theorem Scanned.lines {lines : List Document} (h : Scanned doc read s) (hlines : slice? doc read stop = some lines.flatten) :
    Scanned doc stop (lines.foldl ParagraphScan.line s) := by
  induction lines generalizing read s with
  | nil =>
      have hstop := slice?_extent hlines
      rw [List.flatten_nil, extent_nil, Nat.add_zero] at hstop
      rw [hstop]
      exact h
  | cons line rest ih =>
      rw [List.flatten_cons] at hlines
      obtain ⟨hline, hrest⟩ := slice?_split.mp hlines
      exact ih (h.next hline) hrest

/-- Paragraphs follow one another, and nothing but blanks follows the last. -/
theorem paragraphs_chain (doc : Document) : ∃ last, Chain doc 0 (paragraphEndOffsets doc) last ∧
    ∃ tail, slice? doc last (extent doc) = some tail ∧ IsBlank tail := by
  have hempty : slice? doc 0 0 = some [] := slice?_eq_some.mpr ⟨[], doc, rfl, rfl, rfl⟩
  have hstart : Scanned doc 0 ⟨[], 0, false, 0⟩ :=
    ⟨rfl, 0, .nil (splitAt?_of_slice hempty).1, [], hempty, allBlank_nil⟩
  refine (hstart.lines ?_).close
  rw [splitInclusive_flatten]
  exact slice?_all doc

/-- The last paragraph of a text that ends with no blank ends with it. -/
theorem paragraphs_last (hfull : EndsFull doc) : Chain doc 0 (paragraphEndOffsets doc) (extent doc) := by
  obtain ⟨last, hchain, tail, htail, hblank⟩ := paragraphs_chain doc
  have hsize := slice?_extent htail
  rcases List.eq_nil_or_concat tail with rfl | ⟨init, c, rfl⟩
  · rw [extent_nil, Nat.add_zero] at hsize
    rw [hsize]
    exact hchain
  · obtain ⟨a, b, hdoc, hstart, hstop⟩ := slice?_eq_some.mp htail
    have hdoc' := congrArg extent hdoc
    simp only [extent_append] at hdoc' hstop
    obtain rfl : b = [] := extent_eq_zero.mp (by omega)
    obtain ⟨d, hlast, hd⟩ := hfull
    rw [hdoc, List.append_nil, List.concat_eq_append, ← List.append_assoc, List.getLast?_concat] at hlast
    have hd' := hblank c (by simp)
    obtain rfl := Option.some.inj hlast
    rw [hd] at hd'
    cases hd'

end Scan

end Wordflow.Segmentation
