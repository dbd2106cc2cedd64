import Mathlib.Data.List.Sort
import Wordflow.Library.Identifier
import Wordflow.Library.Text
import Wordflow.Quotes.Document

namespace Wordflow.Quotes

open Library Library.Partial Library.Identifier

structure Quote where
  speaker : Option SourceSpan
  quote : SourceSpan
  verb : Option SourceSpan
  kind : String
  tokens : Nat
  floating : Bool
  index : Nat
  deriving DecidableEq

structure Candidate where
  words : Range
  speaker : Option Range
  verb : Option Range
  kind : String
  floating : Bool
  deriving DecidableEq

def quoteVerbs : List String :=
  ["accept", "accepted", "acclaim", "acclaimed", "acclaiming", "acclaims", "acknowledge", "acknowledged",
    "acknowledges", "acknowledging", "add", "added", "adding", "adds", "admit", "admits", "admitted", "admitting",
    "advise", "advised", "advises", "advising", "announce", "announced", "announces", "announcing", "argue",
    "argued", "argues", "arguing", "assert", "asserted", "asserting", "asserts", "assure", "assured", "assures",
    "assuring", "claim", "claimed", "claiming", "claims", "clarified", "clarifies", "clarify", "clarifying",
    "comment", "commented", "commenting", "comments", "conclude", "concluded", "concludes", "concluding", "confirm",
    "confirmed", "confirming", "confirms", "continue", "continued", "continues", "continuing", "convince",
    "convinced", "convinces", "convincing", "criticize", "criticized", "criticizes", "criticizing", "declaim",
    "declaimed", "declaiming", "declaims", "declare", "declared", "declares", "declaring", "decried", "decries",
    "decry", "decrying", "demonstrate", "demonstrated", "demonstrates", "demonstrating", "denounce", "denounced",
    "denounces", "denouncing", "describe", "described", "describes", "describing", "disclaim", "disclaimed",
    "disclaiming", "disclaims", "dispute", "disputed", "disputes", "disputing", "ensure", "ensured", "ensures",
    "ensuring", "estimated", "estimates", "exclaim", "exclaimed", "exclaiming", "exclaims", "explain", "explained",
    "explaining", "explains", "finding", "finds", "highlight", "highlighted", "highlighting", "highlights",
    "illustrate", "illustrated", "illustrates", "illustrating", "indicate", "indicated", "indicates", "indicating",
    "inform", "informed", "informing", "informs", "insist", "insisted", "insisting", "insists", "mention",
    "mentioned", "mentioning", "mentions", "note", "noted", "notes", "notified", "notifies", "notify", "notifying",
    "noting", "persist", "persisted", "persisting", "persists", "point", "pointed", "pointing", "points", "preach",
    "preached", "preaches", "preaching", "predict", "predicted", "predicting", "predicts", "present", "presenting",
    "presents", "proclaim", "proclaimed", "proclaiming", "proclaims", "rave", "raved", "raves", "raving", "reassert",
    "reasserted", "reasserting", "reasserts", "reassure", "reassured", "reassures", "reassuring", "reckon",
    "reckoned", "reckoning", "reckons", "reconfirm", "reconfirmed", "reconfirming", "reconfirms", "release",
    "released", "releases", "releasing", "remind", "reminded", "reminding", "reminds", "replied", "replies", "reply",
    "replying", "report", "reported", "reporting", "reports", "respond", "responded", "responding", "responds",
    "restate", "restated", "restates", "restating", "retell", "retelling", "retells", "retold", "said", "say",
    "saying", "says", "state", "stated", "states", "stating", "suggest", "suggested", "suggesting", "suggests",
    "tell", "telling", "tells", "told", "testified", "testifies", "testify", "testifying", "think", "thinking",
    "thinks", "thought", "tweet", "tweeted", "tweeting", "tweets", "warn", "warned", "warning", "warns", "write",
    "writes", "writing", "wrote"]

section Rules

-- `lower` is the lower case of the language's library; a failing step is a failing index or slice.
variable (lower : String → String) (doc : Document)

def isReporting (form : String) : Bool := quoteVerbs.contains (lower form)

def pairStep (s : Option Nat × List Range) (x : Word × Nat) : Option Nat × List Range :=
  if x.1.form = "\"" then
    match s.1 with
    | some start => (none, s.2 ++ [⟨start, x.2 + 1⟩])
    | none => (some x.2, s.2)
  else s

def pairs : List Range := (doc.words.zipIdx.foldl pairStep (none, [])).2

/-- The two loops of `trim`, each in as many rounds as there are words. -/
def trimStart : Nat → Range → Option Range
  | 0, words => some words
  | rounds + 1, words =>
      if words.start < words.stop then do
        let w ← doc.words[words.start]?
        if w.form ∈ ["\"", ",", ":"] then trimStart rounds ⟨words.start + 1, words.stop⟩ else some words
      else some words

def trimStop : Nat → Range → Option Range
  | 0, words => some words
  | rounds + 1, words =>
      if words.start < words.stop then do
        let w ← doc.words[words.stop - 1]?
        if w.form ∈ ["\"", ",", ".", ";", ":", "!", "?"] then trimStop rounds ⟨words.start, words.stop - 1⟩ else some words
      else some words

def trim (words : Range) : Option Range := do
  let words ← trimStart doc words.len words
  trimStop doc words.len words

def midpoint (words : Range) : Option Nat := do
  let span ← doc.wordSpan words
  some (span.start + span.stop)

def marks (pair : Range) : Option (List (Nat × Char)) := do
  let opening ← doc.words[pair.start]?
  let closing ← doc.words[pair.stop - 1]?
  some [(opening.span.start * 2, 'Q'), (closing.span.start * 2, 'Q')]

def kind (words speaker verb : Range) (pair : Option Range) : Option String := do
  let complement ← midpoint doc words
  let subject ← midpoint doc speaker
  let verb ← midpoint doc verb
  let quotes ← match pair with
    | some pair => marks doc pair
    | none => some []
  let parts := [(complement, 'C'), (subject, 'S'), (verb, 'V')] ++ quotes
  some (String.ofList ((parts.insertionSort fun a b => a.1 ≤ b.1).map Prod.snd))

def validSpeaker (words : Range) : Option Bool := do
  let span ← doc.wordSpan words
  let text ← doc.text span
  some (decide (lower (Text.trim (String.ofList text)) ∉ ["i", "we"]))

def searchVerb : List Nat → Option (Option Nat)
  | [] => some none
  | i :: indices => do
      let w ← doc.words[i]?
      if w.pos = "VERB" ∧ w.form ∉ ["is", "was", "be"] then some (some i)
      else if w.form ∈ [".", "\""] then some none
      else searchVerb indices

def closestVerb (words : Range) : Option (Option Nat) := do
  let preceding := (List.range' (words.start - 4) (words.start - (words.start - 4))).reverse
  let following := List.range' words.stop (min (words.stop + 5) doc.words.length - words.stop)
  match ← searchVerb doc preceding with
  | some verb => some (some verb)
  | none => searchVerb doc following

/-- The subject of a verb, or else of the verb's head. -/
def subjectOf (verb : Nat) (word : Word) : Option (Option Nat) := do
  match ← doc.subject verb with
  | some subject => some (some subject)
  | none =>
      match word.head with
      | some head => doc.subject head
      | none => some none

/-- A quote that is the complement clause of a reporting verb. -/
def complement (quoted : List Range) (i : Nat) (word : Word) : Option (List Candidate) :=
  match word.head with
  | none => some []
  | some verb =>
      if word.relation ≠ "ccomp" then some []
      else do
        let reporting ← doc.words[verb]?
        if !isReporting lower reporting.form then some []
        else
          match ← subjectOf doc verb reporting with
          | none => some []
          | some subject => do
              let speaker ← doc.subtree subject
              let whole ← doc.subtree i
              let words ← trim doc whole
              if words.isEmpty then some []
              else do
                let valid ← validSpeaker lower doc speaker
                if !valid then some []
                else do
                  let pair := quoted.find? fun pair => decide (pair.start ≤ words.start) && decide (words.stop ≤ pair.stop)
                  let kind ← kind doc words speaker ⟨verb, verb + 1⟩ pair
                  some [{ words, speaker := some speaker, verb := some ⟨verb, verb + 1⟩, kind, floating := false }]

/-- A quote in quotation marks that a reporting clause hangs from. -/
def parataxisPair (i : Nat) (speaker pair : Range) : Option (List Candidate) := do
  let closest ← closestVerb doc pair
  if closest ≠ some i then some []
  else do
    let words ← trim doc pair
    if words.isEmpty then some []
    else do
      let kind ← kind doc words speaker ⟨i, i + 1⟩ (some pair)
      some [{ words, speaker := some speaker, verb := some ⟨i, i + 1⟩, kind, floating := false }]

def parataxis (quoted : List Range) (i : Nat) (word : Word) : Option (List Candidate) :=
  if word.relation ≠ "parataxis" ∨ isReporting lower word.form = false then some []
  else do
    match ← doc.subject i with
    | none => some []
    | some subject => do
        let speaker ← doc.subtree subject
        let valid ← validSpeaker lower doc speaker
        if !valid then some [] else collect (parataxisPair doc i speaker) quoted

/-- The nominal that `according to` belongs to. -/
def speakerHead (i : Nat) (word next : Word) : Option (Option Nat) :=
  find (fun head =>
    if head = i ∨ head = i + 1 then some false
    else do
      let w ← doc.words[head]?
      some (decide (w.pos ∈ ["NOUN", "PROPN", "PRON"]))) (word.head.toList ++ next.head.toList)

/-- The words of the sentence on the other side of the phrase. -/
def statedWords (i : Nat) (speaker sentence : Range) : Option Range :=
  if i ≤ sentence.start + 1 then trim doc ⟨speaker.stop, sentence.stop⟩ else trim doc ⟨sentence.start, i⟩

def accordingTo (i head : Nat) (sentence : Range) : Option (List Candidate) := do
  let subtree ← doc.subtree head
  let speaker ← trim doc ⟨max (i + 2) subtree.start, subtree.stop⟩
  if speaker.isEmpty then some []
  else do
    let words ← statedWords doc i speaker sentence
    if words.isEmpty then some []
    else
      some [{ words, speaker := some speaker, verb := some ⟨i, i + 2⟩, kind := "AccordingTo", floating := false }]

def according (i : Nat) (word : Word) : Option (List Candidate) :=
  if !eqIgnoreAsciiCase word.form "according" || decide (i + 1 ≥ doc.words.length) then some []
  else do
    let next ← doc.words[i + 1]?
    if next.form ≠ "to" then some []
    else
      match ← speakerHead doc i word next with
      | none => some []
      | some head =>
          match doc.sentences.find? fun s => s.contains i with
          | none => some []
          | some sentence => accordingTo doc i head sentence

def syntacticAt (quoted : List Range) (x : Word × Nat) : Option (List Candidate) := do
  let complements ← complement lower doc quoted x.2 x.1
  let clauses ← parataxis lower doc quoted x.2 x.1
  let phrases ← according doc x.2 x.1
  some (complements ++ clauses ++ phrases)

def syntactic (quoted : List Range) : Option (List Candidate) := collect (syntacticAt lower doc quoted) doc.words.zipIdx

/-- A candidate of the previous sentence that a quote at the start of the next one goes on from. -/
def isPrior (previousSpan : Range) (candidate : Candidate) : Option Bool := do
  let span ← doc.wordSpan candidate.words
  let overlap := min span.stop previousSpan.stop - max span.start previousSpan.start
  some (decide (candidate.kind ∈ ["QCQSV", "QCQVS", "CSV"]) && decide (overlap * 2 ≥ min span.len previousSpan.len))

def floatingAt (quoted : List Range) (candidates : List Candidate) (x : (Range × Range) × Nat) : Option (List Candidate) := do
  let ((previous, sentence), before) := x
  let previousSpan ← doc.wordSpan previous
  match ← find (isPrior doc previousSpan) candidates with
  | none => some []
  | some prior =>
      some ((quoted.filter fun pair => decide (pair.start = sentence.start) &&
        (doc.sentences.findIdx? fun s => s.contains (pair.stop - 1)).any fun last => decide (last < before + 1 + 5)).map
          fun pair => { words := pair, speaker := prior.speaker, verb := none, kind := "QCQ", floating := true })

def floatings (quoted : List Range) (candidates : List Candidate) : Option (List Candidate) :=
  collect (floatingAt doc quoted candidates) (doc.sentences.zip doc.sentences.tail).zipIdx

def heuristicAt (pair : Range) : Option (List Candidate) :=
  if pair.len ≤ 6 ∨ pair.len ≥ 100 then some []
  else do
    let verb ← closestVerb doc pair
    let subject ← match verb with
      | some v => doc.subject v
      | none => some none
    some [{
      words := pair
      speaker := subject.map fun s => ⟨s, s + 1⟩
      verb := verb.map fun v => ⟨v, v + 1⟩
      kind := "Heuristic"
      floating := false }]

end Rules

section Extract

variable (lower : String → String) (doc : Document) (normalized : Normalized) (source : List Char)

def overlaps (a b : SourceSpan) : Bool := decide (a.start < b.stop) && decide (b.start < a.stop)

def projectWords (words : Option Range) : Option (Option SourceSpan) :=
  match words with
  | none => some none
  | some words => do
      let span ← doc.wordSpan words
      normalized.project source span

/-- The quote of a candidate, if it has four words or more and is not overlapped by a quote before it. -/
def accept (result : List Quote) (candidate : Candidate) : Option (List Quote) := do
  let span ← doc.wordSpan candidate.words
  let text ← doc.text span
  if List.count ' ' text + 1 < 4 then some result
  else
    match ← normalized.project source span with
    | none => some result
    | some quote =>
        if result.any fun previous => overlaps previous.quote quote then some result
        else do
          let speaker ← projectWords doc normalized source candidate.speaker
          let verb ← projectWords doc normalized source candidate.verb
          some (result ++ [{
            speaker, quote, verb
            kind := candidate.kind
            tokens := candidate.words.len
            floating := candidate.floating
            index := result.length }])

def extract : Option (List Quote) := do
  let quoted := pairs doc
  let candidates ← syntactic lower doc quoted
  let floating ← floatings doc quoted candidates
  let heuristics ← collect (heuristicAt doc) quoted
  (candidates ++ floating ++ heuristics).foldlM (accept doc normalized source) []

end Extract

end Wordflow.Quotes
