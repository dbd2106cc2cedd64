import Mathlib.Data.List.DropRight
import Wordflow.Library.Identifier
import Wordflow.Texts.Offsets

namespace Wordflow.Texts

open Library Library.Fallible
open Segmentation (Failure)

structure ConcordanceOptions where
  leftTokens : Nat
  rightTokens : Nat
  caseSensitive : Bool
  ignorePunctuation : Bool

structure ConcordanceMatch where
  leftContext : List Char
  matchedText : List Char
  rightContext : List Char
  startIdx : Int
  endIdx : Int
  l1 : List Char
  r1 : List Char
  deriving DecidableEq

/-- A token with the character offsets its tokenizer gives. -/
structure Token where
  token : List Char
  start : Int
  stop : Int
  deriving DecidableEq

structure SourceToken where
  text : List Char
  start : Nat
  stop : Nat
  deriving DecidableEq

/-- A hit of the query, with byte offsets. -/
structure Hit where
  start : Nat
  stop : Nat
  matched : List Char

section Fallible

def index {α : Type} (items : List α) (i : Nat) : Except Failure α :=
  match items[i]? with
  | some a => .ok a
  | none => .error (.panic "index out of bounds")

def slice (text : List Char) (start stop : Nat) : Except Failure (List Char) :=
  match slice? text start stop with
  | some part => .ok part
  | none => .error (.panic "byte range is not of this text")

end Fallible

/-- `char_to_byte`: the offset of each character, and the length of the text. -/
def charToByte (text : List Char) : List Nat := (charIndices 0 text).map Prod.fst ++ [extent text]

section Source

variable (tokenize : Bool → List Char → List Token)

def sourceToken (charCount : Nat) (t : Token) : Except Failure SourceToken :=
  if t.start < 0 then .error (.error "tokenizer returned a negative start offset")
  else if t.stop < 0 then .error (.error "tokenizer returned a negative end offset")
  else if t.stop < t.start ∨ (charCount : Int) < t.stop then
    .error (.error ("tokenizer returned invalid character span " ++ toString t.start ++ ".." ++ toString t.stop ++ " for " ++
      toString charCount ++ " characters"))
  else .ok ⟨t.token, t.start.toNat, t.stop.toNat⟩

def sourceTokens (text : List Char) (ignorePunctuation : Bool) : Except Failure (List SourceToken) :=
  (tokenize ignorePunctuation text).mapM (sourceToken text.length)

def SourceToken.shift (offset : Nat) (t : SourceToken) : SourceToken := ⟨t.text, t.start + offset, t.stop + offset⟩

def offsetFragmentTokens (fragment : List Char) (startOffset : Nat) (ignorePunctuation : Bool) :
    Except Failure (List SourceToken) :=
  (sourceTokens tokenize fragment ignorePunctuation).map (List.map (SourceToken.shift startOffset))

/-- The part of a text between two characters, in tokens of its own. -/
def fragmentTokens (text : List Char) (first last : Nat) (ignorePunctuation : Bool) : Except Failure (List SourceToken) := do
  let start ← index (charToByte text) first
  let stop ← index (charToByte text) last
  let fragment ← slice text start stop
  offsetFragmentTokens tokenize fragment first ignorePunctuation

def SourceToken.cutBy (position : Nat) (t : SourceToken) : Bool := t.start < position && position < t.stop

structure ContextWindow where
  contextStart : Option Nat
  contextEnd : Option Nat
  adjacentLeft : List Char
  adjacentRight : List Char

/-- What the start of a hit leaves of the token it cuts. -/
def leftFragment (text : List Char) (tokens : List SourceToken) (startChar leftCompleteEnd : Nat) (ignorePunctuation : Bool) :
    Except Failure (List SourceToken) :=
  match (tokens[leftCompleteEnd]?).filter (SourceToken.cutBy startChar) with
  | some t => fragmentTokens tokenize text t.start startChar ignorePunctuation
  | none => .ok []

def rightFragment (text : List Char) (tokens : List SourceToken) (endChar rightCompleteStart : Nat) (ignorePunctuation : Bool) :
    Except Failure (List SourceToken) :=
  match (if rightCompleteStart = 0 then none else tokens[rightCompleteStart - 1]?).filter (SourceToken.cutBy endChar) with
  | some t => fragmentTokens tokenize text endChar t.stop ignorePunctuation
  | none => .ok []

/-- Where the tokens of the left window start, of which the fragment is the last. -/
def contextStart (tokens fragment : List SourceToken) (take completeEnd : Nat) : Except Failure (Option Nat) :=
  let fragmentTake := min take fragment.length
  let fullStart := completeEnd - (take - fragmentTake)
  if take = 0 then .ok none
  else if fullStart < completeEnd then (index tokens fullStart).map fun t => some t.start
  else .ok ((fragment[fragment.length - fragmentTake]?).map SourceToken.start)

/-- Where the tokens of the right window end, of which the fragment is the first. -/
def contextEnd (tokens fragment : List SourceToken) (take completeStart : Nat) : Except Failure (Option Nat) :=
  let fragmentTake := min take fragment.length
  let fullEnd := min (completeStart + (take - fragmentTake)) tokens.length
  if take = 0 then .ok none
  else if completeStart < fullEnd then (index tokens (fullEnd - 1)).map fun t => some t.stop
  else .ok ((fragment[fragmentTake - 1]?).map SourceToken.stop)

def adjacentLeft (tokens fragment : List SourceToken) (take completeEnd : Nat) : List Char :=
  let fragmentTake := min take fragment.length
  if 0 < fragmentTake then (fragment.getLast?.map SourceToken.text).getD []
  else if completeEnd = 0 ∨ take - fragmentTake = 0 then []
  else ((tokens[completeEnd - 1]?).map SourceToken.text).getD []

def adjacentRight (tokens fragment : List SourceToken) (take completeStart : Nat) : List Char :=
  let fragmentTake := min take fragment.length
  if 0 < fragmentTake then (fragment.head?.map SourceToken.text).getD []
  else if take - fragmentTake = 0 then []
  else ((tokens[completeStart]?).map SourceToken.text).getD []

/-- The window is the complete tokens before `leftCompleteEnd` and from
`rightCompleteStart` on, and what the hit leaves of the tokens it cuts. -/
def rawContextWindow (text : List Char) (tokens : List SourceToken) (startChar endChar leftCompleteEnd rightCompleteStart : Nat)
    (options : ConcordanceOptions) : Except Failure ContextWindow := do
  let left ← leftFragment tokenize text tokens startChar leftCompleteEnd options.ignorePunctuation
  let first ← contextStart tokens left options.leftTokens leftCompleteEnd
  let right ← rightFragment tokenize text tokens endChar rightCompleteStart options.ignorePunctuation
  let last ← contextEnd tokens right options.rightTokens rightCompleteStart
  return {
    contextStart := first
    contextEnd := last
    adjacentLeft := adjacentLeft tokens left options.leftTokens leftCompleteEnd
    adjacentRight := adjacentRight tokens right options.rightTokens rightCompleteStart }

def leftContext (text : List Char) (hit : Hit) (window : ContextWindow) : Except Failure (List Char) :=
  match window.contextStart with
  | none => .ok []
  | some start => do slice text (← index (charToByte text) start) hit.start

def rightContext (text : List Char) (hit : Hit) (window : ContextWindow) : Except Failure (List Char) :=
  match window.contextEnd with
  | none => .ok []
  | some stop => do slice text hit.stop (← index (charToByte text) stop)

/-- Count on while the tokens meet a condition. -/
def seek (p : SourceToken → Bool) : List SourceToken → Nat → Nat
  | [], k => k
  | t :: rest, k => if p t then seek p rest (k + 1) else k

/-- The two cursors are kept from hit to hit. -/
def matchHits (text : List Char) (tokens : List SourceToken) (options : ConcordanceOptions) :
    List (Hit × Nat × Nat) → Nat → Nat → Except Failure (List ConcordanceMatch)
  | [], _, _ => .ok []
  | (hit, startChar, endChar) :: rest, leftCompleteEnd, rightCompleteStart => do
      let leftCompleteEnd := seek (fun t => t.stop ≤ startChar) (tokens.drop leftCompleteEnd) leftCompleteEnd
      let rightCompleteStart := max rightCompleteStart leftCompleteEnd
      let rightCompleteStart := seek (fun t => t.start < endChar) (tokens.drop rightCompleteStart) rightCompleteStart
      let window ← rawContextWindow tokenize text tokens startChar endChar leftCompleteEnd rightCompleteStart options
      let leftContext ← leftContext text hit window
      let rightContext ← rightContext text hit window
      let found : ConcordanceMatch :=
        { leftContext := leftContext
          matchedText := hit.matched
          rightContext := rightContext
          startIdx := startChar
          endIdx := endChar
          l1 := window.adjacentLeft
          r1 := window.adjacentRight }
      let others ← matchHits text tokens options rest leftCompleteEnd rightCompleteStart
      return found :: others

def findMatches (text : List Char) (findIter : List Char → List Hit) (options : ConcordanceOptions) :
    Except Failure (List ConcordanceMatch) := do
  let hits := findIter text
  let charSpans := byteSpansToCharSpans text (hits.map fun h => (h.start, h.stop))
  let tokens ← sourceTokens tokenize text options.ignorePunctuation
  matchHits tokenize text tokens options (hits.zip charSpans) 0 0

end Source

/-- Exact alternatives over the tokens of a tokenizer. -/
structure TokenConcordance where
  alternatives : List (List Char)
  options : ConcordanceOptions

namespace TokenConcordance

variable (fold : List Char → List Char)

/-- A word as it is compared; `fold` is the default case folding. -/
def key (options : ConcordanceOptions) (word : List Char) : List Char := if options.caseSensitive then word else fold word

def new (query : List Char) (options : ConcordanceOptions) : TokenConcordance where
  alternatives :=
    ((query.splitOnP fun c => Text.isWhitespace c || c = ',' || c = '|').filter fun word => !word.isEmpty).map (key fold options)
  options := options

def checkToken (text : List Char) (t : Token) : Except Failure Unit :=
  if 0 ≤ t.start ∧ t.start ≤ t.stop ∧ t.stop < ((charToByte text).length : Int) then .ok ()
  else .error (.error "Invalid tokenizer character offsets")

variable (search : TokenConcordance) (text : List Char) (tokens : List Token)

def sliceChars (start stop : Int) : Except Failure (List Char) := do
  let start ← index (charToByte text) start.toNat
  let stop ← index (charToByte text) stop.toNat
  slice text start stop

def tokenMatch (i : Nat) (t : Token) : Except Failure ConcordanceMatch := do
  let left ← index tokens (i - search.options.leftTokens)
  let right ← index tokens (min (i + search.options.rightTokens) (tokens.length - 1))
  let leftContext ← sliceChars text left.start t.start
  let rightContext ← sliceChars text t.stop right.stop
  return {
    leftContext := leftContext
    matchedText := t.token
    rightContext := rightContext
    startIdx := t.start
    endIdx := t.stop
    l1 := if i = 0 then [] else ((tokens[i - 1]?).map Token.token).getD []
    r1 := ((tokens[i + 1]?).map Token.token).getD [] }

def tokenMatches : List (Token × Nat) → Except Failure (List ConcordanceMatch)
  | [] => .ok []
  | (t, i) :: rest =>
      if key fold search.options t.token ∉ search.alternatives then tokenMatches rest
      else do
        let found ← tokenMatch search text tokens i t
        let others ← tokenMatches rest
        return found :: others

def find : Except Failure (List ConcordanceMatch) := do
  tokens.forM (checkToken text)
  if (tokens.zip tokens.tail).all fun pair => pair.1.start ≤ pair.2.start && pair.1.stop ≤ pair.2.stop then
    tokenMatches fold search text tokens tokens.zipIdx
  else .error (.error "Tokenizer offsets are not ordered")

end TokenConcordance

end Wordflow.Texts
