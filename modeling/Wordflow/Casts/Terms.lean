import Wordflow.Library.Quoting

namespace Wordflow.Casts

open Library.Quoting

section Syntax

def CAST : List Char := ['C', 'A', 'S', 'T', '(']

def TRY_CAST : List Char := ['T', 'R', 'Y', '_', 'C', 'A', 'S', 'T', '(']

def STRPTIME : List Char := ['s', 't', 'r', 'p', 't', 'i', 'm', 'e', '(']

def TRY_STRPTIME : List Char := ['t', 'r', 'y', '_', 's', 't', 'r', 'p', 't', 'i', 'm', 'e', '(']

def AS : List Char := [' ', 'A', 'S', ' ']

def COMMA : List Char := [',', ' ']

def quote (name : List Char) : List Char := enclose '"' name

def literal (text : List Char) : List Char := enclose '\'' text

/-- The conversions of a column. The ones that are attempted give NULL where the others fail. -/
inductive Term
  | column (name : List Char)
  | cast (attempt : Bool) (value : Term) (type : List Char)
  | strptime (attempt : Bool) (value : Term) (format : List Char)
  deriving DecidableEq

def Term.render : Term → List Char
  | .column name => quote name
  | .cast attempt value type => (if attempt then TRY_CAST else CAST) ++ value.render ++ AS ++ type ++ [')']
  | .strptime attempt value format =>
      (if attempt then TRY_STRPTIME else STRPTIME) ++ value.render ++ COMMA ++ literal format ++ [')']

/-- How many parentheses are open, and the quote that is. -/
abbrev Nesting := Nat × Option Char

def Nesting.step : Nesting → Char → Option Nesting
  | (depth, some q), c => some (depth, if c = q then none else some q)
  | (depth, none), c =>
      if c = '"' ∨ c = '\'' then some (depth, some c)
      else if c = '(' then some (depth + 1, none)
      else if c = ')' then
        match depth with
        | 0 => none
        | depth + 1 => some (depth, none)
      else some (depth, none)

/-- The text of a type closes what it opens. -/
def Closed (type : List Char) : Prop := type.foldlM Nesting.step ((0, none) : Nesting) = some (0, none)

instance (type : List Char) : Decidable (Closed type) := inferInstanceAs (Decidable (_ = _))

/-- A type up to the parenthesis that closes the cast. -/
def readType (n : Nesting) : List Char → Option (List Char × List Char)
  | [] => none
  | c :: s =>
      match n.step c with
      | none => some ([], c :: s)
      | some n => (readType n s).map fun r => (c :: r.1, r.2)

def strip (word s : List Char) : Option (List Char) := if word <+: s then some (s.drop word.length) else none

def readCast (attempt : Bool) (value : Term × List Char) : Option (Term × List Char) := do
  let s ← strip AS value.2
  let (type, s) ← readType (0, none) s
  let s ← strip [')'] s
  return (.cast attempt value.1 type, s)

def readStrptime (attempt : Bool) (value : Term × List Char) : Option (Term × List Char) := do
  let s ← strip COMMA value.2
  let (format, s) ← readEnclosed '\'' s
  let s ← strip [')'] s
  return (.strptime attempt value.1 format, s)

def readColumn (s : List Char) : Option (Term × List Char) := (readEnclosed '"' s).map fun r => (.column r.1, r.2)

/-- How the database reads a conversion. -/
def readTerm : Nat → List Char → Option (Term × List Char)
  | 0, _ => none
  | fuel + 1, s =>
      match strip TRY_CAST s, strip CAST s, strip TRY_STRPTIME s, strip STRPTIME s with
      | some s, _, _, _ => (readTerm fuel s).bind (readCast true)
      | none, some s, _, _ => (readTerm fuel s).bind (readCast false)
      | none, none, some s, _ => (readTerm fuel s).bind (readStrptime true)
      | none, none, none, some s => (readTerm fuel s).bind (readStrptime false)
      | none, none, none, none => readColumn s

def read (s : List Char) : Option Term :=
  match readTerm (s.length + 1) s with
  | some (term, []) => some term
  | _ => none

end Syntax

section Reading

variable {word s t rest : List Char} {term value : Term} {fuel : Nat} {attempt : Bool}

theorem strip_append (word s : List Char) : strip word (word ++ s) = some s := by
  rw [strip, if_pos (List.prefix_append word s), List.drop_left]

theorem strip_eq_some : strip word s = some t ↔ s = word ++ t := by
  rw [strip]
  constructor
  · intro h
    split at h
    · rename_i hstarts
      obtain ⟨after, rfl⟩ := hstarts
      rw [List.drop_left, Option.some_inj] at h
      rw [h]
    · cases h
  · rintro rfl
    rw [if_pos (List.prefix_append word t), List.drop_left]

theorem strip_of_head {c d : Char} (h : c ≠ d) (word s : List Char) : strip (c :: word) (d :: s) = none := by
  rw [strip, if_neg]
  rw [List.cons_prefix_cons]
  exact fun hcd => h hcd.1

theorem readType_append {type : List Char} {n : Nesting} (h : type.foldlM Nesting.step n = some (0, none)) (rest : List Char) :
    readType n (type ++ ')' :: rest) = some (type, ')' :: rest) := by
  induction type generalizing n with
  | nil =>
      cases h
      rfl
  | cons c type ih =>
      rw [List.foldlM_cons, Option.bind_eq_bind, Option.bind_eq_some_iff] at h
      obtain ⟨m, hm, hrest⟩ := h
      rw [List.cons_append, readType, hm]
      simp only
      rw [ih hrest, Option.map_some]

theorem readType_exact {type : List Char} {n : Nesting} (h : readType n s = some (type, rest)) : s = type ++ rest := by
  induction s generalizing n type with
  | nil => cases h
  | cons c s ih =>
      rw [readType] at h
      split at h
      · cases h
        rfl
      · rw [Option.map_eq_some_iff] at h
        obtain ⟨⟨inner, after⟩, hinner, heq⟩ := h
        obtain ⟨rfl, rfl⟩ := Prod.mk.inj heq
        rw [ih hinner, List.cons_append]

/-- Text without quotes and parentheses opens nothing. -/
theorem nesting_plain {n : Nesting} (hn : ∀ q ∈ n.2, q = '"' ∨ q = '\'') (hs : ∀ c ∈ s, c ∉ ['"', '\'', '(', ')']) :
    s.foldlM Nesting.step n = some n := by
  induction s with
  | nil => rfl
  | cons c s ih =>
      have hc := hs c List.mem_cons_self
      have hstep : n.step c = some n := by
        obtain ⟨depth, _ | q⟩ := n
        · simp only [List.mem_cons, List.not_mem_nil, or_false, not_or] at hc
          simp only [Nesting.step, hc, or_self, if_false]
        · have hne : c ≠ q := by
            rintro rfl
            rcases hn c rfl with rfl | rfl
            · exact hc (by decide)
            · exact hc (by decide)
          simp only [Nesting.step, hne, if_false]
      rw [List.foldlM_cons, hstep]
      exact ih fun d hd => hs d (List.mem_cons_of_mem _ hd)

/-- Every type in a term closes what it opens. -/
def Term.WellTyped : Term → Prop
  | .column _ => True
  | .cast _ value type => value.WellTyped ∧ Closed type
  | .strptime _ value _ => value.WellTyped

def Term.depth : Term → Nat
  | .column _ => 1
  | .cast _ value _ => value.depth + 1
  | .strptime _ value _ => value.depth + 1

theorem readCast_append {type : List Char} (h : Closed type) : readCast attempt (value, AS ++ (type ++ ')' :: rest)) =
    some (.cast attempt value type, rest) := by
  have hstrip : strip [')'] (')' :: rest) = some rest := strip_append [')'] rest
  simp only [readCast, strip_append, Option.bind_eq_bind, Option.bind_some, readType_append h, hstrip]
  rfl

theorem readStrptime_append {format : List Char} : readStrptime attempt (value, COMMA ++ (literal format ++ ')' :: rest)) =
    some (.strptime attempt value format, rest) := by
  have hstrip : strip [')'] (')' :: rest) = some rest := strip_append [')'] rest
  have hread : readEnclosed '\'' (literal format ++ ')' :: rest) = some (format, ')' :: rest) :=
    readEnclosed_enclose (by simp) format
  simp only [readStrptime, strip_append, Option.bind_eq_bind, Option.bind_some, hread, hstrip]
  rfl

theorem strip_misses {c : Char} (h : c ∉ ['T', 'C', 't', 's']) (s : List Char) : strip TRY_CAST (c :: s) = none ∧
    strip CAST (c :: s) = none ∧ strip TRY_STRPTIME (c :: s) = none ∧ strip STRPTIME (c :: s) = none := by
  have hne : ∀ d ∈ ['T', 'C', 't', 's'], d ≠ c := fun d hd heq => h (heq ▸ hd)
  exact ⟨strip_of_head (hne _ (by decide)) _ _, strip_of_head (hne _ (by decide)) _ _, strip_of_head (hne _ (by decide)) _ _,
    strip_of_head (hne _ (by decide)) _ _⟩

theorem readTerm_cast (attempt : Bool) (fuel : Nat) (s : List Char) :
    readTerm (fuel + 1) ((if attempt then TRY_CAST else CAST) ++ s) = (readTerm fuel s).bind (readCast attempt) := by
  cases attempt with
  | false =>
      have hfirst : strip TRY_CAST (CAST ++ s) = none := strip_of_head (by decide) _ _
      rw [if_neg Bool.false_ne_true, readTerm, hfirst, strip_append]
  | true => rw [if_pos rfl, readTerm, strip_append]

theorem readTerm_strptime (attempt : Bool) (fuel : Nat) (s : List Char) :
    readTerm (fuel + 1) ((if attempt then TRY_STRPTIME else STRPTIME) ++ s) = (readTerm fuel s).bind (readStrptime attempt) := by
  cases attempt with
  | false =>
      have hfirst : strip TRY_CAST (STRPTIME ++ s) = none := strip_of_head (by decide) _ _
      have hsecond : strip CAST (STRPTIME ++ s) = none := strip_of_head (by decide) _ _
      have hthird : strip TRY_STRPTIME (STRPTIME ++ s) = none := strip_of_head (by decide) _ _
      rw [if_neg Bool.false_ne_true, readTerm, hfirst, hsecond, hthird, strip_append]
  | true =>
      have hfirst : strip TRY_CAST (TRY_STRPTIME ++ s) = none := strip_of_head (by decide) _ _
      have hsecond : strip CAST (TRY_STRPTIME ++ s) = none := strip_of_head (by decide) _ _
      rw [if_pos rfl, readTerm, hfirst, hsecond, strip_append]

/-- What is written is read. -/
theorem readTerm_render (hdepth : term.depth ≤ fuel) (htyped : term.WellTyped) (hrest : rest.head? ≠ some '"') :
    readTerm fuel (term.render ++ rest) = some (term, rest) := by
  induction term generalizing fuel rest with
  | column name =>
      obtain ⟨fuel, rfl⟩ := Nat.exists_eq_succ_of_ne_zero (Nat.ne_of_gt hdepth)
      have hhead : Term.render (.column name) ++ rest = '"' :: ((doubled '"' name ++ ['"']) ++ rest) := rfl
      obtain ⟨hfirst, hsecond, hthird, hfourth⟩ := @strip_misses '"' (by decide) ((doubled '"' name ++ ['"']) ++ rest)
      rw [readTerm, hhead, hfirst, hsecond, hthird, hfourth, ← hhead]
      simp only [readColumn, Term.render, quote]
      rw [readEnclosed_enclose hrest, Option.map_some]
  | cast attempt value type ih =>
      obtain ⟨fuel, rfl⟩ := Nat.exists_eq_succ_of_ne_zero (Nat.ne_of_gt (Nat.lt_of_lt_of_le (Nat.succ_pos _) hdepth))
      have hvalue := @ih (AS ++ (type ++ ')' :: rest)) fuel (Nat.le_of_succ_le_succ hdepth) htyped.1 (by simp [AS])
      simp only [Term.render, List.append_assoc, List.cons_append, List.nil_append]
      rw [readTerm_cast, hvalue, Option.bind_some, readCast_append htyped.2]
  | strptime attempt value format ih =>
      obtain ⟨fuel, rfl⟩ := Nat.exists_eq_succ_of_ne_zero (Nat.ne_of_gt (Nat.lt_of_lt_of_le (Nat.succ_pos _) hdepth))
      have hvalue := @ih (COMMA ++ (literal format ++ ')' :: rest)) fuel (Nat.le_of_succ_le_succ hdepth) htyped (by simp [COMMA])
      simp only [Term.render, List.append_assoc, List.cons_append, List.nil_append]
      rw [readTerm_strptime, hvalue, Option.bind_some, readStrptime_append]

theorem readCast_exact {r : Term × List Char} (h : readCast attempt r = some (term, rest)) :
    ∃ type, term = .cast attempt r.1 type ∧ r.2 = AS ++ (type ++ ')' :: rest) := by
  simp only [readCast, Option.bind_eq_bind, Option.bind_eq_some_iff] at h
  obtain ⟨s, hs, ⟨type, t⟩, ht, u, hu, heq⟩ := h
  cases heq
  rw [strip_eq_some] at hs hu
  refine ⟨type, rfl, ?_⟩
  simp only at hu
  rw [hs, readType_exact ht, hu]
  rfl

theorem readStrptime_exact {r : Term × List Char} (h : readStrptime attempt r = some (term, rest)) :
    ∃ format, term = .strptime attempt r.1 format ∧ r.2 = COMMA ++ (literal format ++ ')' :: rest) := by
  simp only [readStrptime, Option.bind_eq_bind, Option.bind_eq_some_iff] at h
  obtain ⟨s, hs, ⟨format, t⟩, ht, u, hu, heq⟩ := h
  cases heq
  rw [strip_eq_some] at hs hu
  refine ⟨format, rfl, ?_⟩
  simp only at hu
  rw [hs, readEnclosed_exact ht, hu]
  rfl

/-- Only what is written is read. -/
theorem readTerm_exact (h : readTerm fuel s = some (term, rest)) : s = term.render ++ rest := by
  induction fuel generalizing s term rest with
  | zero => cases h
  | succ fuel ih =>
      have hcast : ∀ attempt t, strip (if attempt then TRY_CAST else CAST) s = some t →
          (readTerm fuel t).bind (readCast attempt) = some (term, rest) → s = term.render ++ rest := by
        intro attempt t ht h
        obtain ⟨⟨value, u⟩, hvalue, hr⟩ := Option.bind_eq_some_iff.mp h
        obtain ⟨type, rfl, hu⟩ := readCast_exact hr
        simp only at hu
        rw [strip_eq_some.mp ht, ih hvalue, hu, Term.render]
        simp only [List.append_assoc, List.cons_append, List.nil_append]
      have hstrptime : ∀ attempt t, strip (if attempt then TRY_STRPTIME else STRPTIME) s = some t →
          (readTerm fuel t).bind (readStrptime attempt) = some (term, rest) → s = term.render ++ rest := by
        intro attempt t ht h
        obtain ⟨⟨value, u⟩, hvalue, hr⟩ := Option.bind_eq_some_iff.mp h
        obtain ⟨format, rfl, hu⟩ := readStrptime_exact hr
        simp only at hu
        rw [strip_eq_some.mp ht, ih hvalue, hu, Term.render]
        simp only [List.append_assoc, List.cons_append, List.nil_append]
      rw [readTerm] at h
      split at h
      · rename_i hstrip
        exact hcast true _ hstrip h
      · rename_i hstrip
        exact hcast false _ hstrip h
      · rename_i hstrip
        exact hstrptime true _ hstrip h
      · rename_i hstrip
        exact hstrptime false _ hstrip h
      · rw [readColumn, Option.map_eq_some_iff] at h
        obtain ⟨⟨name, after⟩, hname, heq⟩ := h
        cases heq
        exact readEnclosed_exact hname

theorem depth_le_render (term : Term) : term.depth ≤ term.render.length := by
  induction term with
  | column name => simp [Term.depth, Term.render, quote, enclose]
  | cast attempt value type ih | strptime attempt value format ih =>
      rw [Term.depth, Term.render]
      simp only [List.length_append, List.length_singleton]
      omega

theorem read_render (htyped : term.WellTyped) : read term.render = some term := by
  have h := @readTerm_render [] term (term.render.length + 1) (Nat.le_succ_of_le (depth_le_render term)) htyped (by decide)
  rw [List.append_nil] at h
  rw [read, h]

theorem read_exact (h : read s = some term) : s = term.render := by
  rw [read] at h
  split at h
  · rename_i found hfound
    cases h
    rw [readTerm_exact hfound, List.append_nil]
  · cases h

end Reading

end Wordflow.Casts
