import Mathlib.Data.List.Basic

namespace Wordflow.Library.Regex

/-- The part of the syntax in which literals are put together. -/
inductive Pattern
  | empty
  | char (c : Char)
  | boundary
  | seq (first second : Pattern)
  | alt (first second : Pattern)
  deriving DecidableEq

section Syntax

def metaCharacters : List Char :=
  ['\\', '.', '+', '*', '?', '(', ')', '|', '[', ']', '{', '}', '^', '$', '#', '&', '-', '~']

def escape (s : List Char) : List Char := s.flatMap fun c => if c ∈ metaCharacters then ['\\', c] else [c]

/-- A group that is read: the alternatives before the last, and the last so far. -/
structure Frame where
  before : Option Pattern
  last : Pattern

def Frame.push (f : Frame) (p : Pattern) : Frame := ⟨f.before, .seq f.last p⟩

def Frame.close (f : Frame) : Pattern :=
  match f.before with
  | none => f.last
  | some before => .alt before f.last

/-- The groups around what is read stand in `outer`. Other syntax is not read. -/
def parseFrom : List Char → List Frame → Frame → Option Pattern
  | [], [], frame => some frame.close
  | [], _ :: _, _ => none
  | '\\' :: c :: rest, outer, frame =>
      if c = 'b' then parseFrom rest outer (frame.push .boundary)
      else if c ∈ metaCharacters then parseFrom rest outer (frame.push (.char c))
      else none
  | '(' :: '?' :: ':' :: rest, outer, frame => parseFrom rest (frame :: outer) ⟨none, .empty⟩
  | ')' :: rest, outer, frame =>
      match outer with
      | group :: outer => parseFrom rest outer (group.push frame.close)
      | [] => none
  | '|' :: rest, outer, frame => parseFrom rest outer ⟨some frame.close, .empty⟩
  | c :: rest, outer, frame => if c ∈ metaCharacters then none else parseFrom rest outer (frame.push (.char c))

def parse (s : List Char) : Option Pattern := parseFrom s [] ⟨none, .empty⟩

def literalAfter (p : Pattern) (s : List Char) : Pattern := s.foldl (fun p c => .seq p (.char c)) p

def literal (s : List Char) : Pattern := literalAfter .empty s

end Syntax

section Matching

variable (word : Char → Bool) (same : Char → Char → Bool)

/-- Whether a word character stands at a position. -/
def wordAt (text : List Char) (i : Nat) : Bool := text[i]?.any word

def wordBefore (text : List Char) (i : Nat) : Bool := decide (0 < i) && wordAt word text (i - 1)

/-- Where the matches that start at a position end, the preferred ones first. -/
def ends (text : List Char) : Pattern → Nat → List Nat
  | .empty, i => [i]
  | .char c, i => if text[i]?.any (same c) then [i + 1] else []
  | .boundary, i => if wordBefore word text i = wordAt word text i then [] else [i]
  | .seq first second, i => (ends text first i).flatMap (ends text second)
  | .alt first second, i => ends text first i ++ ends text second i

def matchAt (p : Pattern) (text : List Char) (i : Nat) : Option Nat := (ends word same text p i).head?

/-- The leftmost match from a position on. -/
def findFrom (p : Pattern) (text : List Char) (start : Nat) : Option (Nat × Nat) :=
  (List.range' start (text.length + 1 - start)).findSome? fun i => (matchAt word same p text i).map fun j => (i, j)

/-- The matches one after another. An empty match that touches the last one is passed over. -/
def findIter (p : Pattern) (text : List Char) : Nat → Nat → Option Nat → List (Nat × Nat)
  | 0, _, _ => []
  | rounds + 1, start, last =>
      match findFrom word same p text start with
      | none => []
      | some (i, j) =>
          if i = j ∧ last = some j then findIter p text rounds (j + 1) last
          else (i, j) :: findIter p text rounds j (some j)

def findAll (p : Pattern) (text : List Char) : List (Nat × Nat) := findIter word same p text (2 * (text.length + 1)) 0 none

end Matching

/-- Matches one after another, each the leftmost after the one before it. -/
inductive Successive (P : Nat → Nat → Prop) : Nat → List (Nat × Nat) → Prop
  | done {start : Nat} (h : ∀ i j, start ≤ i → ¬P i j) : Successive P start []
  | next {start i j : Nat} {rest : List (Nat × Nat)} (hle : start ≤ i) (hbefore : ∀ k l, start ≤ k → k < i → ¬P k l)
      (h : P i j) (hrest : Successive P j rest) : Successive P start ((i, j) :: rest)

section Parse

variable {outer : List Frame} {frame : Frame} {rest s : List Char}

theorem parseFrom_char {c : Char} (h : c ∉ metaCharacters) :
    parseFrom (c :: rest) outer frame = parseFrom rest outer (frame.push (.char c)) := by
  have hne : ∀ d ∈ metaCharacters, c ≠ d := fun d hd heq => h (heq ▸ hd)
  rw [parseFrom, if_neg h]
  · exact fun d _ heq => absurd heq (hne '\\' (by decide))
  · exact fun _ heq => absurd heq (hne '(' (by decide))
  · exact fun heq => absurd heq (hne ')' (by decide))
  · exact fun heq => absurd heq (hne '|' (by decide))

theorem parseFrom_escaped {c : Char} (h : c ∈ metaCharacters) :
    parseFrom ('\\' :: c :: rest) outer frame = parseFrom rest outer (frame.push (.char c)) := by
  have hb : c ≠ 'b' := by
    rintro rfl
    exact absurd h (by decide)
  rw [parseFrom, if_neg hb, if_pos h]

/-- Escaped text is read as itself. -/
theorem parseFrom_escape (s rest : List Char) (outer : List Frame) (frame : Frame) :
    parseFrom (escape s ++ rest) outer frame = parseFrom rest outer ⟨frame.before, literalAfter frame.last s⟩ := by
  induction s generalizing frame with
  | nil => rfl
  | cons c s ih =>
      rw [escape, List.flatMap_cons, List.append_assoc]
      by_cases h : c ∈ metaCharacters
      · rw [if_pos h, List.cons_append, List.cons_append, List.nil_append, parseFrom_escaped h]
        exact ih (frame.push (.char c))
      · rw [if_neg h, List.cons_append, List.nil_append, parseFrom_char h]
        exact ih (frame.push (.char c))

end Parse

section Literals

variable {word : Char → Bool} {same : Char → Char → Bool} {text : List Char}

/-- Whether a text starts with a literal. -/
def agrees (same : Char → Char → Bool) : List Char → List Char → Bool
  | [], _ => true
  | _ :: _, [] => false
  | c :: s, d :: text => same c d && agrees same s text

theorem agrees_cons_cons {c d : Char} {s : List Char} :
    agrees same (c :: s) (d :: text) = (same c d && agrees same s text) := rfl

theorem agrees_cons_nil {c : Char} {s : List Char} : agrees same (c :: s) [] = false := rfl

theorem agrees_cons {c : Char} {s : List Char} {k : Nat} : agrees same (c :: s) (text.drop k) =
    (text[k]?.any (same c) && agrees same s (text.drop (k + 1))) := by
  by_cases hk : k < text.length
  · rw [List.drop_eq_getElem_cons hk, agrees_cons_cons, List.getElem?_eq_getElem hk, Option.any_some]
  · rw [List.drop_eq_nil_of_le (by omega), agrees_cons_nil, List.getElem?_eq_none (by omega), Option.any_none, Bool.false_and]

theorem agrees_length {s : List Char} (h : agrees same s text = true) : s.length ≤ text.length := by
  induction s generalizing text with
  | nil => exact Nat.zero_le _
  | cons c s ih =>
      cases text with
      | nil => cases h
      | cons d text =>
          rw [agrees_cons_cons, Bool.and_eq_true] at h
          exact Nat.succ_le_succ (ih h.2)

theorem agrees_getElem? {s : List Char} (h : agrees same s text = true) {i : Nat} {c : Char} (hc : s[i]? = some c) :
    ∃ d, text[i]? = some d ∧ same c d = true := by
  induction s generalizing text i with
  | nil => cases hc
  | cons first s ih =>
      cases text with
      | nil => cases h
      | cons d text =>
          rw [agrees_cons_cons, Bool.and_eq_true] at h
          cases i with
          | zero =>
              cases hc
              exact ⟨d, rfl, h.1⟩
          | succ i => exact ih h.2 hc

theorem agrees_self (hrefl : ∀ c, same c c = true) (s : List Char) : agrees same s s = true := by
  induction s with
  | nil => rfl
  | cons c s ih => rw [agrees_cons_cons, hrefl, ih, Bool.and_self]

theorem agrees_iff_start (s text : List Char) : agrees (fun c d => decide (c = d)) s text = true ↔ s <+: text := by
  induction s generalizing text with
  | nil => exact iff_of_true rfl List.nil_prefix
  | cons c s ih =>
      cases text with
      | nil => simp [agrees_cons_nil]
      | cons d text => rw [agrees_cons_cons, Bool.and_eq_true, decide_eq_true_iff, ih, List.cons_prefix_cons]

theorem ends_literalAfter (p : Pattern) (s : List Char) (i : Nat) : ends word same text (literalAfter p s) i =
    (ends word same text p i).flatMap fun k => if agrees same s (text.drop k) then [k + s.length] else [] := by
  induction s generalizing p with
  | nil => simp [literalAfter, agrees]
  | cons c s ih =>
      rw [literalAfter, List.foldl_cons, ← literalAfter, ih, ends, List.flatMap_assoc]
      congr 1
      funext k
      rw [ends, agrees_cons]
      by_cases hc : text[k]?.any (same c) = true
      · rw [if_pos hc, List.flatMap_singleton, hc, Bool.true_and, List.length_cons, Nat.add_right_comm, Nat.add_assoc]
      · rw [if_neg hc, List.flatMap_nil, Bool.eq_false_iff.mpr hc, Bool.false_and]
        rfl

theorem ends_literal (s : List Char) (i : Nat) :
    ends word same text (literal s) i = if agrees same s (text.drop i) then [i + s.length] else [] := by
  rw [literal, ends_literalAfter, ends, List.flatMap_singleton]

/-- Literals as alternatives, after those that have been read. -/
def anyOf (before : Option Pattern) (s : List Char) : List (List Char) → Pattern
  | [] => Frame.close ⟨before, literal s⟩
  | t :: rest => anyOf (some (Frame.close ⟨before, literal s⟩)) t rest

theorem parseFrom_anyOf (before : Option Pattern) (s : List Char) (rest : List (List Char)) :
    parseFrom (['|'].intercalate ((s :: rest).map escape)) [] ⟨before, .empty⟩ = some (anyOf before s rest) := by
  induction rest generalizing before s with
  | nil =>
      have h := parseFrom_escape s [] [] ⟨before, .empty⟩
      rw [List.append_nil] at h
      rwa [List.map_singleton, List.intercalate_singleton]
  | cons t rest ih =>
      rw [List.map_cons, List.map_cons, List.intercalate_cons_cons, List.append_assoc, parseFrom_escape, List.cons_append,
        List.nil_append, parseFrom, anyOf, ← ih, List.map_cons]
      rfl

theorem ends_close (f : Frame) (i : Nat) : ends word same text f.close i =
    (f.before.elim [] fun p => ends word same text p i) ++ ends word same text f.last i := by
  obtain ⟨before, last⟩ := f
  cases before with
  | none => rfl
  | some p => rfl

theorem ends_anyOf (before : Option Pattern) (s : List Char) (rest : List (List Char)) (i : Nat) :
    ends word same text (anyOf before s rest) i = (before.elim [] fun p => ends word same text p i) ++
      (s :: rest).flatMap fun s => if agrees same s (text.drop i) then [i + s.length] else [] := by
  induction rest generalizing before s with
  | nil => rw [anyOf, ends_close, ends_literal, List.flatMap_singleton]
  | cons t rest ih =>
      rw [anyOf, ih, Option.elim_some, ends_close, ends_literal, List.append_assoc]
      rfl

/-- The first of the alternatives that the text goes on with is found. -/
theorem matchAt_alternatives {p : Pattern} {literals : List (List Char)} (hp : parse (['|'].intercalate (literals.map escape)) = some p)
    (hne : literals ≠ []) (i : Nat) : matchAt word same p text i =
      (literals.find? fun s => agrees same s (text.drop i)).map fun s => i + s.length := by
  obtain ⟨s, rest, rfl⟩ := List.exists_cons_of_ne_nil hne
  rw [parse, parseFrom_anyOf, Option.some_inj] at hp
  rw [matchAt, ← hp, ends_anyOf, Option.elim_none, List.nil_append]
  induction s :: rest with
  | nil => rfl
  | cons t ts ih =>
      by_cases ht : agrees same t (text.drop i) = true
      · rw [List.flatMap_cons, if_pos ht, List.find?_cons, ht]
        rfl
      · rw [List.flatMap_cons, if_neg ht, List.find?_cons, Bool.eq_false_iff.mpr ht, List.nil_append, ih]

end Literals

section Successive

variable {P : Nat → Nat → Prop} {start : Nat}

/-- Where a position starts one match at most, there is one list of successive matches. -/
theorem Successive.unique {hits others : List (Nat × Nat)} (hP : ∀ i j k, P i j → P i k → j = k) (h : Successive P start hits)
    (h' : Successive P start others) : hits = others := by
  induction h generalizing others with
  | done hnone =>
      cases h' with
      | done => rfl
      | next hle _ hmatch _ => exact absurd hmatch (hnone _ _ hle)
  | next hle hbefore hmatch hrest ih =>
      cases h' with
      | done hnone => exact absurd hmatch (hnone _ _ hle)
      | next hle' hbefore' hmatch' hrest' =>
          obtain rfl := Nat.le_antisymm (Nat.not_lt.mp fun hlt => hbefore _ _ hle' hlt hmatch')
            (Nat.not_lt.mp fun hlt => hbefore' _ _ hle hlt hmatch)
          obtain rfl := hP _ _ _ hmatch hmatch'
          rw [ih hrest']

theorem Successive.nil {hits : List (Nat × Nat)} (h : Successive P start hits)
    (hnone : ∀ i j, ¬P i j) : hits = [] := by
  cases h with
  | done => rfl
  | next _ _ hmatch _ => exact absurd hmatch (hnone _ _)

theorem Successive.mem {hits : List (Nat × Nat)} (hle : ∀ i j, P i j → i ≤ j) (h : Successive P start hits) :
    ∀ hit ∈ hits, start ≤ hit.1 ∧ P hit.1 hit.2 := by
  induction h with
  | done => exact List.forall_mem_nil _
  | next hstart _ hmatch _ ih =>
      refine List.forall_mem_cons.mpr ⟨⟨hstart, hmatch⟩, fun hit hhit => ?_⟩
      exact ⟨Nat.le_trans hstart (Nat.le_trans (hle _ _ hmatch) (ih hit hhit).1), (ih hit hhit).2⟩

theorem Successive.pairwise {hits : List (Nat × Nat)} (hle : ∀ i j, P i j → i ≤ j) (h : Successive P start hits) :
    hits.Pairwise fun hit next => hit.2 ≤ next.1 := by
  induction h with
  | done => exact .nil
  | next _ _ _ hrest ih => exact .cons (fun hit hhit => (hrest.mem hle hit hhit).1) ih

/-- Matches of which no two overlap are all found. -/
theorem Successive.complete {hits : List (Nat × Nat)} (hlt : ∀ i j, P i j → i < j)
    (hapart : ∀ i j k l, P i j → P k l → (i, j) = (k, l) ∨ j ≤ k ∨ l ≤ i) (h : Successive P start hits) {i j : Nat} (hi : start ≤ i)
    (hmatch : P i j) : (i, j) ∈ hits := by
  induction h with
  | done hnone => exact absurd hmatch (hnone i j hi)
  | next _ hbefore hfirst _ ih =>
      rcases hapart _ _ _ _ hmatch hfirst with heq | hle | hle
      · exact heq ▸ List.mem_cons_self
      · exact absurd hmatch (hbefore _ _ hi (Nat.lt_of_lt_of_le (hlt _ _ hmatch) hle))
      · exact List.mem_cons_of_mem _ (ih hle)

/-- All matches in order are successive, where no two overlap. -/
theorem successive_of_pairwise {hits : List (Nat × Nat)} (hpairwise : hits.Pairwise fun hit next => hit.2 ≤ next.1)
    (hlt : ∀ hit ∈ hits, hit.1 < hit.2) (hstart : ∀ hit ∈ hits, start ≤ hit.1)
    (hP : ∀ i j, start ≤ i → (P i j ↔ (i, j) ∈ hits)) : Successive P start hits := by
  induction hits generalizing start with
  | nil => exact .done fun i j hi hmatch => absurd ((hP i j hi).mp hmatch) List.not_mem_nil
  | cons hit hits ih =>
      obtain ⟨i, j⟩ := hit
      obtain ⟨hafter, hrest⟩ := List.pairwise_cons.mp hpairwise
      have hij := hlt _ List.mem_cons_self
      have hi := hstart _ List.mem_cons_self
      refine .next hi (fun k l hk hki hmatch => ?_) ((hP i j hi).mpr List.mem_cons_self)
        (ih hrest (fun hit hhit => hlt hit (List.mem_cons_of_mem _ hhit)) hafter fun k l hk => ?_)
      · rcases List.mem_cons.mp ((hP k l hk).mp hmatch) with heq | hmem
        · obtain ⟨rfl, -⟩ := Prod.mk.inj heq
          exact absurd hki (Nat.lt_irrefl k)
        · have hle : j ≤ k := hafter _ hmem
          simp only at hij
          omega
      · simp only at hij hi
        rw [hP k l (by omega), List.mem_cons, or_iff_right]
        intro heq
        obtain ⟨rfl, -⟩ := Prod.mk.inj heq
        omega

theorem Successive.congr {Q : Nat → Nat → Prop} {hits : List (Nat × Nat)} (h : Successive P start hits)
    (hPQ : ∀ i j, P i j ↔ Q i j) : Successive Q start hits := by
  have hsame : P = Q := by
    funext i j
    exact propext (hPQ i j)
  exact hsame ▸ h

variable {word : Char → Bool} {same : Char → Char → Bool} {p : Pattern} {text : List Char}

theorem findFrom_none (h : findFrom word same p text start = none) {i : Nat} (hi : start ≤ i) (hlast : i ≤ text.length) :
    matchAt word same p text i = none := by
  rw [findFrom, List.findSome?_eq_none_iff] at h
  have hnone := h i (List.mem_range'_1.mpr ⟨hi, by omega⟩)
  rwa [Option.map_eq_none_iff] at hnone

theorem findFrom_some {i j : Nat} (h : findFrom word same p text start = some (i, j)) : start ≤ i ∧ i ≤ text.length ∧
    matchAt word same p text i = some j ∧ ∀ k, start ≤ k → k < i → matchAt word same p text k = none := by
  rw [findFrom, List.findSome?_eq_some_iff] at h
  obtain ⟨before, found, after, hsplit, hmatch, hbefore⟩ := h
  obtain ⟨l, hl, heq⟩ := Option.map_eq_some_iff.mp hmatch
  obtain ⟨rfl, rfl⟩ := Prod.mk.inj heq
  have hmem : found ∈ List.range' start (text.length + 1 - start) := by
    rw [hsplit]
    exact List.mem_append_right _ List.mem_cons_self
  obtain ⟨hstart, hlast⟩ := List.mem_range'_1.mp hmem
  refine ⟨hstart, by omega, hl, fun k hk hlt => ?_⟩
  have hin : k ∈ List.range' start (text.length + 1 - start) := List.mem_range'_1.mpr ⟨hk, by omega⟩
  have hsorted : (List.range' start (text.length + 1 - start)).Pairwise (· < ·) := List.pairwise_lt_range'
  rw [hsplit] at hin hsorted
  rcases List.mem_append.mp hin with hin | hin
  · exact Option.map_eq_none_iff.mp (hbefore k hin)
  · rcases List.mem_cons.mp hin with rfl | hin
    · exact absurd hlt (Nat.lt_irrefl _)
    · have hgt := List.rel_of_pairwise_cons (List.pairwise_append.mp hsorted).2.1 hin
      omega

/-- Where no match is empty, the search finds the successive matches. -/
theorem findAll_successive (hpos : ∀ i j, matchAt word same p text i = some j → i < j ∧ j ≤ text.length) :
    Successive (fun i j => matchAt word same p text i = some j) 0 (findAll word same p text) := by
  suffices ∀ rounds start last, text.length + 1 ≤ start + rounds →
      Successive (fun i j => matchAt word same p text i = some j) start (findIter word same p text rounds start last) from
    this _ _ _ (by omega)
  intro rounds
  induction rounds with
  | zero =>
      intro start last hrounds
      refine .done fun i j hi hmatch => ?_
      have := hpos i j hmatch
      omega
  | succ rounds ih =>
      intro start last hrounds
      rw [findIter]
      cases hfind : findFrom word same p text start with
      | none =>
          refine .done fun i j hi hmatch => ?_
          have hlt := hpos i j hmatch
          rw [findFrom_none hfind hi (by omega)] at hmatch
          cases hmatch
      | some found =>
          obtain ⟨i, j⟩ := found
          obtain ⟨hle, hlast, hmatch, hbefore⟩ := findFrom_some hfind
          have hlt := hpos i j hmatch
          simp only [Nat.ne_of_lt hlt.1, false_and, if_false]
          refine .next hle (fun k l hk hki h => ?_) hmatch (ih j (some j) (by omega))
          rw [hbefore k hk hki] at h
          cases h

end Successive

end Wordflow.Library.Regex
