import Wordflow.Library.Identifier
import Wordflow.Library.Regex
import Wordflow.Texts.Concordance

namespace Wordflow.Texts

open Library Library.Regex

section Source

/-- The scripts that are written without spaces between words. -/
def unspacedRanges : List (Nat × Nat) :=
  [(0x0e00, 0x0eff), (0x1000, 0x109f), (0x1780, 0x17ff), (0x3005, 0x3007), (0x3040, 0x30ff), (0x31f0, 0x31ff),
    (0x3400, 0x4dbf), (0x4e00, 0x9fff), (0xf900, 0xfaff), (0xff66, 0xff9f), (0x20000, 0x3ffff)]

def unspaced (c : Char) : Bool := unspacedRanges.any fun r => r.1 ≤ c.toNat && c.toNat ≤ r.2

def literalWordPattern (query : List Char) : List Char :=
  let start := if query.head?.any unspaced then [] else ['\\', 'b']
  let stop := if query.getLast?.any unspaced then [] else ['\\', 'b']
  start ++ '(' :: '?' :: ':' :: escape query ++ ')' :: stop

/-- A pattern that has been compiled. -/
structure Matcher where
  pattern : Pattern
  caseInsensitive : Bool
  deriving DecidableEq

def build (pattern : List Char) (caseInsensitive : Bool) : Option Matcher := (parse pattern).map (⟨·, caseInsensitive⟩)

structure Concordance where
  matcher : Matcher
  options : ConcordanceOptions
  empty : Bool

/-- A query that is given as a pattern. -/
def Concordance.new (query : List Char) (options : ConcordanceOptions) : Option Concordance :=
  (build query (!options.caseSensitive)).map fun matcher => ⟨matcher, options, query.isEmpty⟩

def Concordance.literalWholeWord (query : List Char) (options : ConcordanceOptions) : Option Concordance :=
  if query = [] then Concordance.new query options else Concordance.new (literalWordPattern query) options

/-- The matcher of the text functions, for a pattern that is no regular expression. -/
def matcher (pattern : List Char) (whole sensitive : Bool) : Option Matcher :=
  build (if whole then literalWordPattern pattern else escape pattern) (!sensitive)

variable (word : Char → Bool) (fold : Char → Char)

/-- Whether two characters match, with simple case folding. -/
def Matcher.same (m : Matcher) (c d : Char) : Bool := if m.caseInsensitive then fold c = fold d else c = d

/-- The matches in a text, from character to character. -/
def Matcher.findIter (m : Matcher) (text : List Char) : List (Nat × Nat) := findAll word (m.same fold) m.pattern text

def hitOf (text : List Char) (span : Nat × Nat) : Hit where
  start := extent (text.take span.1)
  stop := extent (text.take span.2)
  matched := (text.take span.2).drop span.1

def Concordance.find (tokenize : Bool → List Char → List Token) (c : Concordance) (text : List Char) :
    Except Segmentation.Failure (List ConcordanceMatch) :=
  if c.empty then .ok []
  else findMatches tokenize text (fun text => (c.matcher.findIter word fold text).map (hitOf text)) c.options

def emptyPattern : String := "Enter text or a pattern to find"

/-- A row of `wordflow_matches`. -/
def matchesRow (text : Option (List Char)) (pattern : List Char) (whole sensitive : Bool) :
    Except String (Option (List (List Char))) :=
  match text with
  | none => .ok none
  | some text =>
      if pattern = [] then .error emptyPattern
      else match matcher pattern whole sensitive with
        | none => .error "regex parse error"
        | some m => .ok (some ((m.findIter word fold text).map fun span => (text.take span.2).drop span.1))

/-- `replacen` with a literal replacement, from a position on. -/
def replaced (text replacement : List Char) : Nat → List (Nat × Nat) → List Char
  | last, [] => text.drop last
  | last, span :: spans => (text.take span.1).drop last ++ replacement ++ replaced text replacement span.2 spans

/-- A row of `wordflow_replace`. -/
def replaceRow (text : Option (List Char)) (pattern replacement : List Char) (whole sensitive first : Bool) :
    Except String (Option (List Char)) :=
  match text with
  | none => .ok none
  | some text =>
      if pattern = [] then .error emptyPattern
      else match matcher pattern whole sensitive with
        | none => .error "regex parse error"
        | some m =>
            let spans := m.findIter word fold text
            .ok (some (replaced text replacement 0 (if first then spans.take 1 else spans)))

end Source

section Pattern

variable {word : Char → Bool} {same : Char → Char → Bool} {query text : List Char} {i j : Nat}

/-- A word boundary, or nothing at an edge that is written without spaces. -/
def edgePattern (edge : Option Char) (p : Pattern) : Pattern := if edge.any unspaced then p else .seq p .boundary

/-- What the pattern of a query is read as: every character of the query is itself. -/
theorem parse_literalWordPattern (query : List Char) : parse (literalWordPattern query) =
    some (edgePattern query.getLast? (.seq (edgePattern query.head? .empty) (literal query))) := by
  have hgroup : ∀ rest frame, parseFrom ('(' :: '?' :: ':' :: escape query ++ rest) [] frame =
      parseFrom rest [frame] ⟨none, literal query⟩ := by
    intro rest frame
    rw [List.cons_append, List.cons_append, List.cons_append, parseFrom, parseFrom_escape]
    rfl
  rw [literalWordPattern, parse]
  simp only [List.append_assoc]
  by_cases hhead : query.head?.any unspaced = true <;> by_cases hlast : query.getLast?.any unspaced = true
  · rw [if_pos hhead, if_pos hlast, List.nil_append, hgroup, edgePattern, if_pos hlast, edgePattern, if_pos hhead]
    rfl
  · rw [if_pos hhead, if_neg hlast, List.nil_append, hgroup, edgePattern, if_neg hlast, edgePattern, if_pos hhead]
    rfl
  · rw [if_neg hhead, if_pos hlast, List.cons_append, List.cons_append, List.nil_append, parseFrom, if_pos rfl, hgroup,
      edgePattern, if_pos hlast, edgePattern, if_neg hhead]
    rfl
  · rw [if_neg hhead, if_neg hlast, List.cons_append, List.cons_append, List.nil_append, parseFrom, if_pos rfl, hgroup,
      edgePattern, if_neg hlast, edgePattern, if_neg hhead]
    rfl

/-- What an edge asks of a position. -/
def edgeHolds (word : Char → Bool) (edge : Option Char) (text : List Char) (i : Nat) : Bool :=
  edge.any unspaced || wordBefore word text i != wordAt word text i

theorem ends_edge (edge : Option Char) (p : Pattern) : ends word same text (edgePattern edge p) i =
    (ends word same text p i).filter fun k => edgeHolds word edge text k := by
  by_cases h : edge.any unspaced = true
  · rw [edgePattern, if_pos h]
    simp [edgeHolds, h]
  · have hfilter : ∀ ks : List Nat, ks.flatMap (ends word same text .boundary) =
        ks.filter fun k => edgeHolds word edge text k := by
      intro ks
      induction ks with
      | nil => rfl
      | cons k ks ih =>
          rw [List.flatMap_cons, ih, List.filter_cons, ends, edgeHolds, Bool.eq_false_iff.mpr h, Bool.false_or]
          by_cases hk : wordBefore word text k = wordAt word text k <;> simp [hk]
    rw [edgePattern, if_neg h, ends, hfilter]

/-- Where the pattern of a query matches. -/
theorem matchAt_iff {p : Pattern} (hp : parse (literalWordPattern query) = some p) : matchAt word same p text i = some j ↔
    j = i + query.length ∧ agrees same query (text.drop i) = true ∧ edgeHolds word query.head? text i = true ∧
      edgeHolds word query.getLast? text j = true := by
  rw [parse_literalWordPattern, Option.some_inj] at hp
  rw [matchAt, ← hp, ends_edge, ends, ends_edge, ends]
  by_cases hhead : edgeHolds word query.head? text i = true
  · rw [List.filter_cons_of_pos hhead, List.filter_nil, List.flatMap_singleton, ends_literal]
    by_cases hagrees : agrees same query (text.drop i) = true
    · rw [if_pos hagrees]
      by_cases hlast : edgeHolds word query.getLast? text (i + query.length) = true
      · rw [List.filter_cons_of_pos hlast]
        constructor
        · rintro ⟨⟩
          exact ⟨rfl, hagrees, hhead, hlast⟩
        · rintro ⟨rfl, -⟩
          rfl
      · rw [List.filter_cons_of_neg hlast]
        constructor
        · rintro ⟨⟩
        · rintro ⟨rfl, -, -, h⟩
          exact absurd h hlast
    · rw [if_neg hagrees]
      constructor
      · rintro ⟨⟩
      · rintro ⟨-, h, -⟩
        exact absurd h hagrees
  · rw [List.filter_cons_of_neg hhead]
    constructor
    · rintro ⟨⟩
    · rintro ⟨-, -, h, -⟩
      exact absurd h hhead

end Pattern

section Words

variable {word : Char → Bool} {same : Char → Char → Bool} {query text : List Char} {i j : Nat}

/-- A query stands as a whole word: each edge is free, where it asks for a boundary. -/
structure Whole (word : Char → Bool) (same : Char → Char → Bool) (query text : List Char) (i j : Nat) : Prop where
  length : j = i + query.length
  occurs : agrees same query (text.drop i) = true
  left : ∀ c ∈ query.head?, word c = false ∨ unspaced c = true ∨ wordBefore word text i = false
  right : ∀ c ∈ query.getLast?, word c = false ∨ unspaced c = true ∨ wordAt word text j = false

/-- An edge that is a word character or is written without spaces. -/
def Bounded (word : Char → Bool) (edge : Option Char) : Prop := ∀ c ∈ edge, word c = true ∨ unspaced c = true

theorem edge_iff {edge : Option Char} {before at' : Bool} {c : Char} (hc : edge = some c) (hat : at' = word c)
    (h : Bounded word edge) : (edge.any unspaced || before != at') = true ↔
      ∀ c ∈ edge, word c = false ∨ unspaced c = true ∨ before = false := by
  subst hc hat
  have hbounded := h c rfl
  simp only [Option.any_some, Option.mem_def, Option.some_inj, forall_eq']
  cases hword : word c <;> cases hunspaced : unspaced c <;> cases before <;> simp_all

theorem wordAt_head (hsame : ∀ c d, same c d = true → word c = word d) (h : agrees same query (text.drop i) = true) {c : Char}
    (hc : query.head? = some c) : wordAt word text i = word c := by
  rw [List.head?_eq_getElem?] at hc
  obtain ⟨d, hd, hcd⟩ := agrees_getElem? h hc
  rw [List.getElem?_drop, Nat.add_zero] at hd
  rw [wordAt, hd, Option.any_some, hsame c d hcd]

theorem wordBefore_last (hsame : ∀ c d, same c d = true → word c = word d) (h : agrees same query (text.drop i) = true) {c : Char}
    (hc : query.getLast? = some c) : wordBefore word text (i + query.length) = word c := by
  have hpos : 0 < query.length := by
    rw [List.length_pos_iff]
    rintro rfl
    cases hc
  rw [List.getLast?_eq_getElem?] at hc
  obtain ⟨d, hd, hcd⟩ := agrees_getElem? h hc
  rw [List.getElem?_drop, ← Nat.add_sub_assoc hpos] at hd
  rw [wordBefore, wordAt, hd, Option.any_some, ← hsame c d hcd, decide_eq_true (by omega), Bool.true_and]

variable {p : Pattern}

/-- Where the edges ask for a boundary as they should, the matches are the whole words. -/
theorem matchAt_whole (hp : parse (literalWordPattern query) = some p) (hquery : query ≠ [])
    (hsame : ∀ c d, same c d = true → word c = word d) (hhead : Bounded word query.head?) (hlast : Bounded word query.getLast?) :
    matchAt word same p text i = some j ↔ Whole word same query text i j := by
  obtain ⟨first, hfirst⟩ : ∃ c, query.head? = some c := ⟨_, List.head?_eq_some_head hquery⟩
  obtain ⟨last, hend⟩ : ∃ c, query.getLast? = some c := ⟨_, List.getLast?_eq_some_getLast hquery⟩
  rw [matchAt_iff hp]
  constructor
  · rintro ⟨rfl, hoccurs, hleft, hright⟩
    rw [edgeHolds, bne_comm] at hright
    exact ⟨rfl, hoccurs, (edge_iff hfirst (wordAt_head hsame hoccurs hfirst) hhead).mp hleft,
      (edge_iff hend (wordBefore_last hsame hoccurs hend) hlast).mp hright⟩
  · rintro ⟨rfl, hoccurs, hleft, hright⟩
    refine ⟨rfl, hoccurs, (edge_iff hfirst (wordAt_head hsame hoccurs hfirst) hhead).mpr hleft, ?_⟩
    rw [edgeHolds, bne_comm]
    exact (edge_iff hend (wordBefore_last hsame hoccurs hend) hlast).mpr hright

/-- An edge with a character that is in no word is found only next to a word. -/
theorem alone_not_matched (hp : parse (literalWordPattern query) = some p) (hquery : query ≠ []) (hrefl : ∀ c, same c c = true)
    (hsame : ∀ c d, same c d = true → word c = word d) (h : ¬(Bounded word query.head? ∧ Bounded word query.getLast?))
    (i j : Nat) : ¬matchAt word same p query i = some j := by
  rw [matchAt_iff hp]
  rintro ⟨rfl, hoccurs, hleft, hright⟩
  obtain rfl : i = 0 := by
    have hlength := agrees_length hoccurs
    rw [List.length_drop] at hlength
    have := List.length_pos_iff.mpr hquery
    omega
  rw [Nat.zero_add] at hright
  have hself := agrees_self hrefl query
  apply h
  constructor
  · intro c hc
    rw [edgeHolds, wordAt_head hsame hoccurs hc, hc, wordBefore, Option.any_some] at hleft
    cases hword : word c <;> cases hunspaced : unspaced c <;> simp_all
  · intro c hc
    have hbefore := wordBefore_last (i := 0) hsame hoccurs hc
    rw [Nat.zero_add] at hbefore
    rw [edgeHolds, hbefore, hc, wordAt, List.getElem?_eq_none (Nat.le_refl _), Option.any_some, Option.any_none] at hright
    cases hword : word c <;> cases hunspaced : unspaced c <;> simp_all

theorem successive_iff (hp : parse (literalWordPattern query) = some p) (hquery : query ≠ []) (hrefl : ∀ c, same c c = true)
    (hsame : ∀ c d, same c d = true → word c = word d) :
    (∀ text, Successive (Whole word same query text) 0 (findAll word same p text)) ↔
      Bounded word query.head? ∧ Bounded word query.getLast? := by
  have hfound : ∀ text, Successive (fun i j => matchAt word same p text i = some j) 0 (findAll word same p text) := by
    intro text
    refine findAll_successive fun i j hmatch => ?_
    obtain ⟨rfl, hoccurs, -⟩ := (matchAt_iff hp).mp hmatch
    have hlength := agrees_length hoccurs
    rw [List.length_drop] at hlength
    have := List.length_pos_iff.mpr hquery
    omega
  constructor
  · intro h
    by_contra hedges
    have hnone := alone_not_matched hp hquery hrefl hsame hedges
    have halone := h query
    rw [(hfound query).nil hnone] at halone
    cases halone with
    | done hdone =>
        refine hdone 0 query.length (Nat.le_refl 0) ⟨(Nat.zero_add _).symm, agrees_self hrefl query, ?_, ?_⟩
        · exact fun _ _ => .inr (.inr rfl)
        · refine fun _ _ => .inr (.inr ?_)
          rw [wordAt, List.getElem?_eq_none (Nat.le_refl _), Option.any_none]
  · rintro ⟨hhead, hlast⟩ text
    exact (hfound text).congr fun i j => matchAt_whole hp hquery hsame hhead hlast

end Words

section Users

variable {word : Char → Bool} {fold : Char → Char} {query : List Char}

/-- The matcher of a whole word. -/
def wordMatcher (query : List Char) (sensitive : Bool) : Matcher :=
  ⟨edgePattern query.getLast? (.seq (edgePattern query.head? .empty) (literal query)), !sensitive⟩

theorem matcher_whole (query : List Char) (sensitive : Bool) : matcher query true sensitive = some (wordMatcher query sensitive) := by
  rw [matcher, if_pos rfl, build, parse_literalWordPattern]
  rfl

theorem literalWordPattern_ne_nil (query : List Char) : literalWordPattern query ≠ [] := by
  rw [literalWordPattern]
  simp

theorem literalWholeWord_eq (hquery : query ≠ []) (options : ConcordanceOptions) : Concordance.literalWholeWord query options =
    some ⟨wordMatcher query options.caseSensitive, options, false⟩ := by
  rw [Concordance.literalWholeWord, if_neg hquery, Concordance.new, build, parse_literalWordPattern]
  simp [wordMatcher, literalWordPattern_ne_nil]

/-- The users of whole words share their matches, which are the whole words just where an edge that has to be one is a
word character. -/
theorem whole_words_found_iff (hword : ∀ c d, fold c = fold d → word c = word d) (hquery : query ≠ [])
    (options : ConcordanceOptions) :
    ∃ m, Concordance.literalWholeWord query options = some ⟨m, options, false⟩ ∧
      matcher query true options.caseSensitive = some m ∧ m.caseInsensitive = !options.caseSensitive ∧
      ((∀ text, Successive (Whole word (m.same fold) query text) 0 (m.findIter word fold text)) ↔
        Bounded word query.head? ∧ Bounded word query.getLast?) := by
  refine ⟨wordMatcher query options.caseSensitive, literalWholeWord_eq hquery options, matcher_whole query _, rfl, ?_⟩
  refine successive_iff (parse_literalWordPattern query) hquery (fun c => ?_) fun c d h => ?_
  · simp [Matcher.same]
  · rw [Matcher.same] at h
    split at h
    · exact hword c d (of_decide_eq_true h)
    · rw [of_decide_eq_true h]

/-- Letters and digits. -/
def wordCharacter (c : Char) : Bool := c.isAlphanum || c = '_'

theorem wordCharacter_toLower (c : Char) : wordCharacter c.toLower = wordCharacter c := by
  rcases Identifier.toLower_cases c with hc | ⟨hupper, hlower⟩
  · rw [hc]
  · have hbefore : wordCharacter c = true := by simp [wordCharacter, Char.isAlphanum, Identifier.isAlpha_eq, hupper]
    have hafter : wordCharacter c.toLower = true := by simp [wordCharacter, Char.isAlphanum, Identifier.isAlpha_eq, hlower]
    rw [hbefore, hafter]

theorem word_is_found : ∃ m, matcher "cat".toList true false = some m ∧
    m.findIter wordCharacter Char.toLower "bobcat Cat".toList = [(7, 10)] ∧
      ∀ text, Successive (Whole wordCharacter (m.same Char.toLower) "cat".toList text) 0
        (m.findIter wordCharacter Char.toLower text) := by
  have hfold : ∀ c d : Char, c.toLower = d.toLower → wordCharacter c = wordCharacter d := by
    intro c d h
    rw [← wordCharacter_toLower c, h, wordCharacter_toLower d]
  obtain ⟨m, -, hm, -, hiff⟩ := @whole_words_found_iff _ _ "cat".toList hfold (by decide) ⟨0, 0, false, false⟩
  refine ⟨m, hm, ?_, hiff.mpr ⟨?_, ?_⟩⟩
  · rw [matcher_whole, Option.some_inj] at hm
    rw [← hm]
    decide
  · rintro c ⟨⟩
    exact .inl (by decide)
  · rintro c ⟨⟩
    exact .inl (by decide)

/-- A symbol that stands alone is not found. -/
theorem symbol_is_missed : ∃ m, matcher "C++".toList true true = some m ∧
    ¬Successive (Whole wordCharacter (m.same id) "C++".toList "C++ or C".toList) 0
      (m.findIter wordCharacter id "C++ or C".toList) := by
  refine ⟨_, matcher_whole _ _, ?_⟩
  have hnone : (wordMatcher "C++".toList true).findIter wordCharacter id "C++ or C".toList = [] := by decide
  rw [hnone]
  intro h
  cases h with
  | done hdone =>
      refine hdone 0 3 (Nat.le_refl 0) ⟨rfl, by decide, ?_, ?_⟩
      · exact fun _ _ => .inr (.inr rfl)
      · exact fun _ _ => .inr (.inr (by decide))

end Users

end Wordflow.Texts
