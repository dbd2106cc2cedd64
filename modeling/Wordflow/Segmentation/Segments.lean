import Wordflow.Library.Fallible
import Wordflow.Library.Text
import Wordflow.Library.Tiling

namespace Wordflow.Segmentation

open Library

abbrev Document := List Char

inductive SegmentationMethod
  | automatic
  | line
  | sentence
  deriving DecidableEq

structure TopicSegment where
  docIndex : Nat
  startByte : Nat
  endByte : Nat
  ownedCharacterCount : Nat
  deriving DecidableEq

structure SegmentationConfig where
  method : SegmentationMethod
  maxTokens : Nat

structure TokenSpan where
  start : Nat
  stop : Nat
  deriving DecidableEq

structure Boundary where
  tokenEnd : Nat
  byteEnd : Nat
  deriving DecidableEq

inductive Failure
  | panic (message : String)
  | error (message : String)
  deriving DecidableEq

/-- What the tokenizer says of a text. -/
structure Encoding where
  offsets : List (Nat × Nat)
  specialTokensMask : List Nat
  ids : List Nat

/-- The sentences and words of a text. -/
structure TextBounds where
  splitSentenceBounds : Document → List Document
  splitWordBounds : Document → List Document

structure TextBounds.Partition (u : TextBounds) : Prop where
  sentences : ∀ text, (u.splitSentenceBounds text).flatten = text
  words : ∀ text, (u.splitWordBounds text).flatten = text

/-- Pieces of a text with the offsets they start at. -/
def boundIndices : Nat → List Document → List (Nat × Document)
  | _, [] => []
  | start, piece :: rest => (start, piece) :: boundIndices (start + extent piece) rest

def boundEnds (pieces : List Document) : List Nat := (boundIndices 0 pieces).map fun p => p.1 + extent p.2

def isCharBoundary (text : Document) (offset : Nat) : Bool := (splitAt? text offset).isSome

def tokenSpans (text : Document) (encoding : Encoding) : Except Failure (List TokenSpan × Nat) :=
  if encoding.offsets.length ≠ encoding.specialTokensMask.length then
    .error (.error "segment tokenizer returned inconsistent offsets and special-token mask")
  else
    let specialTokenCount := (encoding.specialTokensMask.filter fun special => special ≠ 0).length
    let tokens := (encoding.offsets.zip encoding.specialTokensMask).filterMap fun p =>
      if p.2 = 0 then some ⟨p.1.1, p.1.2⟩ else none
    if (tokens.any fun token => token.stop ≤ token.start || extent text < token.stop ||
          !isCharBoundary text token.start || !isCharBoundary text token.stop) ||
        (tokens.zip tokens.tail).any fun pair => pair.2.start < pair.1.start || pair.2.stop < pair.1.stop then
      .error (.error "segment tokenizer returned invalid or unordered byte offsets")
    else if tokens.length + specialTokenCount ≠ encoding.ids.length then
      .error (.error "segment tokenizer returned a non-special token without a source span")
    else .ok (tokens, specialTokenCount)

section Ranges

/-- The tokens that overlap a range; both conditions hold of a prefix. -/
def tokensInRange (tokens : List TokenSpan) (start stop : Nat) : List TokenSpan :=
  let first := (tokens.takeWhile fun token => token.stop ≤ start).length
  let last := (tokens.takeWhile fun token => token.start < stop).length
  (tokens.take last).drop (min first last)

def trimmedRange (text : Document) (start stop : Nat) : Except Failure (Option (Nat × Nat)) :=
  match slice? text start stop with
  | none => .error (.error s!"invalid source byte range {start}..{stop}")
  | some value =>
      let leading := extent value - extent (Text.trimStart value)
      let trailing := extent value - extent (Text.trimEnd value)
      .ok (if start + leading < stop - trailing then some (start + leading, stop - trailing) else none)

def topicSegment (docIndex : Nat) (doc : Document) (startByte endByte : Nat) : Except Failure TopicSegment :=
  match slice? doc startByte endByte with
  | none => .error (.error "Topic Segment received an invalid source range")
  | some text => .ok ⟨docIndex, startByte, endByte, text.length⟩

/-- The segment of a range, if it is not blank. -/
def rangeSegment (docIndex : Nat) (doc : Document) (start stop : Nat) : Except Failure (List TopicSegment) := do
  match ← trimmedRange doc start stop with
  | some range => return [← topicSegment docIndex doc range.1 range.2]
  | none => return []

end Ranges

section Paragraphs

def splitInclusive : Document → List Document
  | [] => []
  | c :: cs =>
      if c = '\n' then [c] :: splitInclusive cs
      else
        match splitInclusive cs with
        | [] => [[c]]
        | line :: lines => (c :: line) :: lines

def stripSuffix (c : Char) (text : Document) : Document := if text.getLast? = some c then text.dropLast else text

structure ParagraphScan where
  ends : List Nat
  byteOffset : Nat
  paragraphOpen : Bool
  paragraphEnd : Nat

def ParagraphScan.line (s : ParagraphScan) (line : Document) : ParagraphScan :=
  let content := stripSuffix '\r' (stripSuffix '\n' line)
  if Text.trimEnd (Text.trimStart content) = [] then
    { s with
      ends := if s.paragraphOpen then s.ends ++ [s.paragraphEnd] else s.ends
      byteOffset := s.byteOffset + extent line
      paragraphOpen := false }
  else
    { s with
      byteOffset := s.byteOffset + extent line
      paragraphOpen := true
      paragraphEnd := s.byteOffset + extent (Text.trimEnd content) }

def ParagraphScan.finish (s : ParagraphScan) : List Nat :=
  if s.paragraphOpen then s.ends ++ [s.paragraphEnd] else s.ends

def paragraphEndOffsets (text : Document) : List Nat :=
  ((splitInclusive text).foldl ParagraphScan.line ⟨[], 0, false, 0⟩).finish

end Paragraphs

section Boundaries

/-- Advance over the tokens that end by `byteEnd`. -/
def indexBoundary (tokens : List TokenSpan) (s : List Boundary × Nat) (byteEnd : Nat) : List Boundary × Nat :=
  let tokenEnd := s.2 + ((tokens.drop s.2).takeWhile fun token => token.stop ≤ byteEnd).length
  if tokenEnd = 0 then (s.1, tokenEnd)
  else
    match s.1.getLast? with
    | none => (s.1 ++ [⟨tokenEnd, byteEnd⟩], tokenEnd)
    | some previous =>
        if previous.tokenEnd = tokenEnd then (s.1.dropLast ++ [{ previous with byteEnd := byteEnd }], tokenEnd)
        else (s.1 ++ [⟨tokenEnd, byteEnd⟩], tokenEnd)

def indexBoundaries (tokens : List TokenSpan) (byteEnds : List Nat) : List Boundary :=
  (byteEnds.foldl (indexBoundary tokens) ([], 0)).1

structure BoundaryCursor where
  boundaries : List Boundary
  next : Nat

def BoundaryCursor.new (boundaries : List Boundary) : BoundaryCursor := ⟨boundaries, 0⟩

def BoundaryCursor.latest (c : BoundaryCursor) (tokenStart tokenLimit : Nat) : Option Boundary × BoundaryCursor :=
  let next := c.next + ((c.boundaries.drop c.next).takeWhile fun b => b.tokenEnd ≤ tokenLimit).length
  let latest := if next = 0 then none else c.boundaries[next - 1]?
  (latest.filter fun b => tokenStart < b.tokenEnd, { c with next := next })

structure Cursors where
  paragraph : BoundaryCursor
  sentence : BoundaryCursor
  word : BoundaryCursor

def Cursors.latest (c : Cursors) (tokenStart tokenLimit : Nat) : Option Boundary × Cursors :=
  match c.paragraph.latest tokenStart tokenLimit with
  | (some b, paragraph) => (some b, { c with paragraph := paragraph })
  | (none, paragraph) =>
      match c.sentence.latest tokenStart tokenLimit with
      | (some b, sentence) => (some b, { c with paragraph := paragraph, sentence := sentence })
      | (none, sentence) =>
          match c.word.latest tokenStart tokenLimit with
          | (found, word) => (found, ⟨paragraph, sentence, word⟩)

end Boundaries

section Automatic

/-- The loop over the windows of an oversized paragraph. -/
def splitWindows (docIndex : Nat) (doc : Document) (tokens : List TokenSpan) (maxTokens trimmedEnd : Nat)
    (cursors : Cursors) (tokenStart byteStart : Nat) : Except Failure (List TopicSegment) :=
  if tokenStart < tokens.length then
    let tokenLimit := min (tokenStart + maxTokens) tokens.length
    match tokens[tokenLimit - 1]? with
    | none => .error (.panic "index out of bounds")
    | some token =>
        let latest := cursors.latest tokenStart tokenLimit
        let boundary := latest.1.getD ⟨tokenLimit, token.stop⟩
        let byteEnd := if boundary.tokenEnd = tokens.length then trimmedEnd else boundary.byteEnd
        if boundary.tokenEnd ≤ tokenStart ∨ byteEnd ≤ byteStart ∨ extent doc < byteEnd ∨
            isCharBoundary doc byteEnd = false then
          .error (.error s!"automatic segmentation could not make progress at token {tokenStart}")
        else do
          let segments ← rangeSegment docIndex doc byteStart byteEnd
          if boundary.tokenEnd = tokens.length then return segments
          else
            return segments ++
              (← splitWindows docIndex doc tokens maxTokens trimmedEnd latest.2 boundary.tokenEnd byteEnd)
  else .ok []
termination_by tokens.length - tokenStart
decreasing_by
  apply Nat.sub_lt_sub_left
  · assumption
  · rename_i hprogress _
    obtain ⟨hend, -⟩ := not_or.mp hprogress
    exact Nat.lt_of_not_le hend

def segmentOversizedParagraph (u : TextBounds) (docIndex : Nat) (doc : Document) (tokens : List TokenSpan)
    (maxTokens : Nat) : Except Failure (List TopicSegment) := do
  match ← trimmedRange doc 0 (extent doc) with
  | none => return []
  | some (trimmedStart, trimmedEnd) =>
      if tokens = [] ∨ tokens.length ≤ maxTokens then
        return [← topicSegment docIndex doc trimmedStart trimmedEnd]
      else
        let cursors : Cursors := {
          paragraph := .new (indexBoundaries tokens (paragraphEndOffsets doc))
          sentence := .new (indexBoundaries tokens (boundEnds (u.splitSentenceBounds doc)))
          word := .new (indexBoundaries tokens (boundEnds (u.splitWordBounds doc))) }
        splitWindows docIndex doc tokens maxTokens trimmedEnd cursors 0 trimmedStart

/-- Neighbouring paragraphs not yet made a segment, with their token count. -/
structure Pending where
  start : Nat
  stop : Nat
  count : Nat

structure Packing where
  segments : List TopicSegment
  start : Nat
  pending : Option Pending

def flush (docIndex : Nat) (doc : Document) : Option Pending → Except Failure (List TopicSegment)
  | none => .ok []
  | some p => (topicSegment docIndex doc p.start p.stop).map fun segment => [segment]

/-- Move tokens to the offsets of a paragraph that starts at `start`. -/
def rebase (start : Nat) (tokens : List TokenSpan) : Except Failure (List TokenSpan) :=
  tokens.mapM fun token =>
    if token.start < start ∨ token.stop < start then .error (.panic "attempt to subtract with overflow")
    else .ok ⟨token.start - start, token.stop - start⟩

def packParagraph (u : TextBounds) (docIndex : Nat) (doc : Document) (tokens : List TokenSpan) (maxTokens : Nat)
    (s : Packing) (stop : Nat) : Except Failure Packing := do
  let paragraph ← match slice? doc s.start stop with
    | some text => .ok text
    | none => .error (.error "invalid paragraph range")
  let paragraphTokens ← rebase s.start (tokensInRange tokens s.start stop)
  match ← trimmedRange doc s.start stop with
  | none => return { s with start := stop }
  | some (trimmedStart, trimmedEnd) =>
      let count := paragraphTokens.length
      let alone : Except Failure Packing := do
        let done ← flush docIndex doc s.pending
        return ⟨s.segments ++ done, stop, some ⟨trimmedStart, trimmedEnd, count⟩⟩
      if count ≤ maxTokens then
        match s.pending with
        | some pending =>
            if pending.count + count ≤ maxTokens then
              return { s with start := stop, pending := some ⟨pending.start, trimmedEnd, pending.count + count⟩ }
            else alone
        | none => alone
      else
        let done ← flush docIndex doc s.pending
        let segments ← segmentOversizedParagraph u docIndex paragraph paragraphTokens maxTokens
        let moved := segments.map fun segment =>
          { segment with startByte := segment.startByte + s.start, endByte := segment.endByte + s.start }
        return ⟨s.segments ++ done ++ moved, stop, none⟩

def segmentDocumentAutomatic (u : TextBounds) (docIndex : Nat) (doc : Document) (tokens : List TokenSpan)
    (maxTokens : Nat) : Except Failure (List TopicSegment) := do
  let packed ← (paragraphEndOffsets doc).foldlM (packParagraph u docIndex doc tokens maxTokens) ⟨[], 0, none⟩
  return packed.segments ++ (← flush docIndex doc packed.pending)

end Automatic

section Units

/-- `(0..n).step_by(m)` from `k` on. -/
def stepBy (n m k : Nat) : List Nat := if 0 < m ∧ k < n then k :: stepBy n m (k + m) else []
termination_by n - k

def splitRangeByTokens (docIndex : Nat) (doc : Document) (tokens : List TokenSpan) (start stop maxTokens : Nat) :
    Except Failure (List TopicSegment) := do
  match ← trimmedRange doc start stop with
  | none => return []
  | some (start, stop) =>
      let unitTokens := tokensInRange tokens start stop
      if unitTokens.length ≤ maxTokens ∨ unitTokens = [] then
        return [← topicSegment docIndex doc start stop]
      else
        let parts ← (stepBy unitTokens.length maxTokens 0).mapM fun tokenStart => do
          let tokenEnd := min (tokenStart + maxTokens) unitTokens.length
          let spanStart ←
            if tokenStart = 0 then .ok start
            else
              match unitTokens[tokenStart]? with
              | some token => .ok token.start
              | none => .error (.panic "index out of bounds")
          let spanEnd := (unitTokens[tokenEnd]?.map TokenSpan.start).getD stop
          rangeSegment docIndex doc spanStart spanEnd
        return parts.flatten

def segmentLine (u : TextBounds) (docIndex : Nat) (doc : Document) (tokens : List TokenSpan)
    (start stop maxTokens : Nat) : Except Failure (List TopicSegment) := do
  match ← trimmedRange doc start stop with
  | none => return []
  | some (start, stop) =>
      if (tokensInRange tokens start stop).length ≤ maxTokens then
        return [← topicSegment docIndex doc start stop]
      else
        let line ← match slice? doc start stop with
          | some text => .ok text
          | none => .error (.error "line segmentation received an invalid source range")
        let parts ← (boundIndices 0 (u.splitSentenceBounds line)).mapM fun p =>
          splitRangeByTokens docIndex doc tokens (start + p.1) (start + p.1 + extent p.2) maxTokens
        return parts.flatten

/-- The lines of a text without their ends. -/
def lineRanges (text : Document) : List (Nat × Nat) :=
  (boundIndices 0 (splitInclusive text)).map fun p => (p.1, p.1 + extent (stripSuffix '\n' p.2))

end Units

def segmentDocument (u : TextBounds) (docIndex : Nat) (doc : Document) (encoding : Encoding)
    (cfg : SegmentationConfig) : Except Failure (List TopicSegment) := do
  let (tokens, specialTokenCount) ← tokenSpans doc encoding
  if cfg.maxTokens ≤ specialTokenCount then
    throw (.error ("segmentation max_tokens " ++ toString cfg.maxTokens ++ " cannot fit the model's " ++
      toString specialTokenCount ++ " special tokens"))
  else
    let budget := cfg.maxTokens - specialTokenCount
    match cfg.method with
    | .automatic => segmentDocumentAutomatic u docIndex doc tokens budget
    | .line =>
        let parts ← (lineRanges doc).mapM fun r => segmentLine u docIndex doc tokens r.1 r.2 budget
        return parts.flatten
    | .sentence =>
        let parts ← (boundIndices 0 (u.splitSentenceBounds doc)).mapM fun p =>
          splitRangeByTokens docIndex doc tokens p.1 (p.1 + extent p.2) budget
        return parts.flatten

end Wordflow.Segmentation
