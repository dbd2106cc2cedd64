import Mathlib.Data.List.TakeWhile
import Wordflow.Library.Scan
import Wordflow.Library.Text

namespace Wordflow.Scripts

open Library Library.Text

/-- The kinds of lexeme in the lexical grammar of DuckDB, which is that of
PostgreSQL. An unterminated quote, dollar quote or comment takes the rest of
the text. -/
inductive Kind
  | space
  | lineComment
  | blockComment
  | string
  | escapeString
  | quotedName
  | dollarString
  | number
  | name
  | parameter
  | operator
  | punctuation
  | unterminated
  deriving DecidableEq, Repr

structure Lexeme where
  kind : Kind
  text : List Char
  deriving DecidableEq, Repr

def lineEnd (c : Char) : Bool := c == '\n' || c == '\r'

def nameStart (c : Char) : Bool :=
  c.isAlpha || c == '_' || (decide (128 ≤ c.toNat) && !isWhitespace c)

def tagRest (c : Char) : Bool := nameStart c || c.isDigit

def nameRest (c : Char) : Bool := tagRest c || c == '$'

def isE (c : Char) : Bool := c == 'E' || c == 'e'

def punctuation (c : Char) : Bool := c == '(' || c == ')' || c == ';' || c == ',' || c == '.'

def delimiter (c : Char) : Bool := c == '\'' || c == '"'

def operatorChar (c : Char) : Bool :=
  !isWhitespace c && !nameRest c && !punctuation c && !delimiter c

def commentStart : List Char → Bool
  | '-' :: '-' :: _ => true
  | '/' :: '*' :: _ => true
  | _ => false

/-- The text of a quote after its opening delimiter, the closing one included. -/
def quoteBody (delim : Char) (escape : Bool) : List Char → Option (List Char)
  | [] => none
  | [c] => if c = delim then some [c] else none
  | c :: d :: s =>
      if escape && c == '\\' then (quoteBody delim escape s).map ([c, d] ++ ·)
      else if c = delim then
        if d = delim then (quoteBody delim escape s).map ([c, d] ++ ·) else some [c]
      else (quoteBody delim escape (d :: s)).map ([c] ++ ·)

/-- The text of `depth` open comments up to the end of the outermost. -/
def commentBody : ℕ → List Char → Option (List Char)
  | 0, _ => some []
  | _ + 1, [] => none
  | depth + 1, '/' :: '*' :: s => (commentBody (depth + 2) s).map (['/', '*'] ++ ·)
  | depth + 1, '*' :: '/' :: s => (commentBody depth s).map (['*', '/'] ++ ·)
  | depth + 1, c :: s => (commentBody (depth + 1) s).map ([c] ++ ·)

/-- The text up to the end of the first occurrence of `tag`. -/
def through (tag : List Char) : List Char → Option (List Char)
  | [] => none
  | c :: s => if tag.isPrefixOf (c :: s) then some tag else (through tag s).map ([c] ++ ·)

/-- The tag of a dollar quote, read after its first `$`. -/
def quoteTag (s : List Char) : Option (List Char) :=
  let name := s.takeWhile tagRest
  if name.head?.any Char.isDigit then none
  else if (s.drop name.length).head? = some '$' then some ('$' :: name ++ ['$'])
  else none

def digits (s : List Char) : List Char := s.takeWhile Char.isDigit

/-- The fraction of a number; `1..2` has none. -/
def fraction : List Char → List Char
  | '.' :: s => if s.head? = some '.' then [] else '.' :: digits s
  | _ => []

def sign : List Char → List Char
  | c :: _ => if c == '+' || c == '-' then [c] else []
  | [] => []

def exponent : List Char → List Char
  | e :: s =>
      let power := digits (s.drop (sign s).length)
      if isE e ∧ power ≠ [] then e :: sign s ++ power else []
  | [] => []

def mantissa (s : List Char) : List Char := digits s ++ fraction (s.drop (digits s).length)

def number (s : List Char) : List Char := mantissa s ++ exponent (s.drop (mantissa s).length)

def numberStart : List Char → Bool
  | '.' :: c :: _ => c.isDigit
  | c :: _ => c.isDigit
  | [] => false

/-- A run of operator characters; a comment ends it. -/
def operator : List Char → List Char
  | [] => []
  | c :: s => if operatorChar c && !commentStart (c :: s) then c :: operator s else []

/-- A lexeme with a closing delimiter to be found after `opening`. -/
def enclosed (kind : Kind) (opening s : List Char) : Option (List Char) → Lexeme
  | some body => ⟨kind, opening ++ body⟩
  | none => ⟨.unterminated, opening ++ s⟩

/-- The lexeme at the front of a text. -/
def lexeme : List Char → Lexeme
  | [] => ⟨.space, []⟩
  | c :: s =>
      if isWhitespace c then ⟨.space, [c]⟩
      else if c = '-' ∧ s.head? = some '-' then ⟨.lineComment, c :: s.takeWhile (!lineEnd ·)⟩
      else if c = '/' ∧ s.head? = some '*' then
        enclosed .blockComment [c, '*'] s.tail (commentBody 1 s.tail)
      else if c = '\'' then enclosed .string [c] s (quoteBody '\'' false s)
      else if c = '"' then enclosed .quotedName [c] s (quoteBody '"' false s)
      else if isE c ∧ s.head? = some '\'' then
        enclosed .escapeString [c, '\''] s.tail (quoteBody '\'' true s.tail)
      else if nameStart c then ⟨.name, c :: s.takeWhile nameRest⟩
      else if numberStart (c :: s) then ⟨.number, number (c :: s)⟩
      else if c = '$' then
        match quoteTag s with
        | some tag => enclosed .dollarString tag (s.drop (tag.length - 1)) (through tag (s.drop (tag.length - 1)))
        | none => if digits s ≠ [] then ⟨.parameter, c :: digits s⟩ else ⟨.operator, [c]⟩
      else if punctuation c then ⟨.punctuation, [c]⟩
      else ⟨.operator, operator (c :: s)⟩

/-- The forms a lexeme takes before `rest`. -/
inductive Reads : Lexeme → List Char → Prop
  | space (c rest) (h : isWhitespace c = true) : Reads ⟨.space, [c]⟩ rest
  | lineComment (body rest) (h : ∀ c ∈ body, lineEnd c = false) (hrest : ∀ c ∈ rest.head?, lineEnd c = true) :
      Reads ⟨.lineComment, ['-', '-'] ++ body⟩ rest
  | blockComment (body rest) (h : commentBody 1 (body ++ rest) = some body) :
      Reads ⟨.blockComment, ['/', '*'] ++ body⟩ rest
  | string (body rest) (h : quoteBody '\'' false (body ++ rest) = some body) :
      Reads ⟨.string, ['\''] ++ body⟩ rest
  | quotedName (body rest) (h : quoteBody '"' false (body ++ rest) = some body) :
      Reads ⟨.quotedName, ['"'] ++ body⟩ rest
  | escapeString (e body rest) (he : isE e = true) (h : quoteBody '\'' true (body ++ rest) = some body) :
      Reads ⟨.escapeString, [e, '\''] ++ body⟩ rest
  | dollarString (tag body rest) (ht : quoteTag (tag.tail ++ (body ++ rest)) = some tag)
      (h : through tag (body ++ rest) = some body) : Reads ⟨.dollarString, tag ++ body⟩ rest
  | name (c body rest) (hc : nameStart c = true) (h : ∀ d ∈ body, nameRest d = true)
      (hrest : ∀ d ∈ rest.head?, nameRest d = false) (he : isE c = true → body = [] → rest.head? ≠ some '\'') :
      Reads ⟨.name, c :: body⟩ rest
  | number (s rest) (h : numberStart s = true) (hs : s = number s ++ rest) : Reads ⟨.number, number s⟩ rest
  | parameter (ds rest) (hds : ds ≠ []) (h : ∀ d ∈ ds, d.isDigit = true)
      (ht : quoteTag (ds ++ rest) = none) : Reads ⟨.parameter, '$' :: ds⟩ rest
  | dollarSign (rest) (ht : quoteTag rest = none) (h : digits rest = []) : Reads ⟨.operator, ['$']⟩ rest
  | punctuation (c rest) (h : punctuation c = true) : Reads ⟨.punctuation, [c]⟩ rest
  | operator (c s rest) (hc : operatorChar c = true) (h : commentStart (c :: s) = false)
      (hs : c :: s = operator (c :: s) ++ rest) : Reads ⟨.operator, operator (c :: s)⟩ rest
  | openComment (s) (h : commentBody 1 s = none) : Reads ⟨.unterminated, ['/', '*'] ++ s⟩ []
  | openString (s) (h : quoteBody '\'' false s = none) : Reads ⟨.unterminated, ['\''] ++ s⟩ []
  | openName (s) (h : quoteBody '"' false s = none) : Reads ⟨.unterminated, ['"'] ++ s⟩ []
  | openEscape (e s) (he : isE e = true) (h : quoteBody '\'' true s = none) :
      Reads ⟨.unterminated, [e, '\''] ++ s⟩ []
  | openDollar (tag s) (ht : quoteTag (tag.tail ++ s) = some tag) (h : through tag s = none) :
      Reads ⟨.unterminated, tag ++ s⟩ []

theorem quoteBody_initial {delim : Char} {escape : Bool} {s body : List Char}
    (h : quoteBody delim escape s = some body) : ∃ rest, s = body ++ rest := by
  fun_induction quoteBody delim escape s generalizing body with
  | case1 => cases h
  | case2 => cases h; exact ⟨[], rfl⟩
  | case3 => cases h
  | case4 _ _ s _ ih | case5 s _ ih =>
      obtain ⟨body, hb, rfl⟩ := Option.map_eq_some_iff.mp h
      obtain ⟨rest, rfl⟩ := ih hb
      exact ⟨rest, rfl⟩
  | case6 => cases h; exact ⟨_, rfl⟩
  | case7 c d s _ _ ih =>
      obtain ⟨body, hb, rfl⟩ := Option.map_eq_some_iff.mp h
      obtain ⟨rest, hrest⟩ := ih hb
      exact ⟨rest, by simp [hrest]⟩

theorem commentBody_initial {depth : ℕ} {s body : List Char}
    (h : commentBody depth s = some body) : ∃ rest, s = body ++ rest := by
  fun_induction commentBody depth s generalizing body with
  | case1 s => cases h; exact ⟨s, rfl⟩
  | case2 => cases h
  | case3 depth s ih | case4 depth s ih | case5 depth c s _ _ ih =>
      obtain ⟨body, hb, rfl⟩ := Option.map_eq_some_iff.mp h
      obtain ⟨rest, rfl⟩ := ih hb
      exact ⟨rest, rfl⟩

theorem through_initial {tag s body : List Char} (h : through tag s = some body) :
    ∃ rest, s = body ++ rest := by
  fun_induction through tag s generalizing body with
  | case1 => cases h
  | case2 c s hp =>
      cases h
      obtain ⟨rest, hrest⟩ := List.isPrefixOf_iff_prefix.mp hp
      exact ⟨rest, hrest.symm⟩
  | case3 c s hp ih =>
      obtain ⟨body, hb, rfl⟩ := Option.map_eq_some_iff.mp h
      obtain ⟨rest, rfl⟩ := ih hb
      exact ⟨rest, rfl⟩

theorem quoteBody_ne_nil {delim : Char} {escape : Bool} {s body : List Char}
    (h : quoteBody delim escape s = some body) : body ≠ [] := by
  fun_induction quoteBody delim escape s generalizing body with
  | case1 => cases h
  | case2 => cases h; simp
  | case3 => cases h
  | case4 | case5 | case7 =>
      obtain ⟨body, -, rfl⟩ := Option.map_eq_some_iff.mp h
      simp
  | case6 => cases h; simp

theorem commentBody_cons {depth : ℕ} {c : Char} {s : List Char} :
    commentBody (depth + 1) (c :: s) =
      if c = '/' ∧ s.head? = some '*' then (commentBody (depth + 2) s.tail).map (['/', '*'] ++ ·)
      else if c = '*' ∧ s.head? = some '/' then (commentBody depth s.tail).map (['*', '/'] ++ ·)
      else (commentBody (depth + 1) s).map ([c] ++ ·) := by
  split
  · rename_i h
    obtain ⟨rfl, h⟩ := h
    obtain ⟨t, rfl⟩ := List.head?_eq_some_iff.mp h
    rfl
  split
  · rename_i h
    obtain ⟨rfl, h⟩ := h
    obtain ⟨t, rfl⟩ := List.head?_eq_some_iff.mp h
    rfl
  · rename_i h h'
    rw [commentBody]
    · rintro t rfl rfl
      exact h ⟨rfl, rfl⟩
    · rintro t rfl rfl
      exact h' ⟨rfl, rfl⟩

theorem through_length {tag s body : List Char} (h : through tag s = some body) : tag.length ≤ body.length := by
  fun_induction through tag s generalizing body with
  | case1 => cases h
  | case2 => cases h; rfl
  | case3 c s _ ih =>
      obtain ⟨body, hb, rfl⟩ := Option.map_eq_some_iff.mp h
      exact (ih hb).trans (by simp)

theorem append_initial {α : Type*} {u v s : List α} (hu : u <+: s) (hv : v <+: s.drop u.length) : u ++ v <+: s := by
  rw [List.prefix_iff_eq_append] at hu
  calc u ++ v <+: u ++ s.drop u.length := List.prefix_append_right_inj u |>.mpr hv
    _ = s := hu

theorem digits_initial (s : List Char) : digits s <+: s := List.takeWhile_prefix _

theorem fraction_initial (s : List Char) : fraction s <+: s := by
  fun_cases fraction s with
  | case1 s h => exact List.nil_prefix
  | case2 s h => exact List.cons_prefix_cons.mpr ⟨rfl, digits_initial s⟩
  | case3 => exact List.nil_prefix

theorem sign_initial (s : List Char) : sign s <+: s := by
  fun_cases sign s with
  | case1 => exact List.cons_prefix_cons.mpr ⟨rfl, List.nil_prefix⟩
  | case2 | case3 => exact List.nil_prefix

theorem exponent_initial (s : List Char) : exponent s <+: s := by
  fun_cases exponent s with
  | case1 e s power h =>
      exact List.cons_prefix_cons.mpr ⟨rfl, append_initial (sign_initial s) (digits_initial _)⟩
  | case2 => exact List.nil_prefix
  | case3 => exact List.nil_prefix

theorem number_initial (s : List Char) : number s <+: s :=
  append_initial (append_initial (digits_initial s) (fraction_initial _)) (exponent_initial _)

theorem operator_initial (s : List Char) : operator s <+: s := by
  fun_induction operator s with
  | case1 => exact List.nil_prefix
  | case2 c s h ih => exact List.cons_prefix_cons.mpr ⟨rfl, ih⟩
  | case3 => exact List.nil_prefix

theorem number_ne_nil {s : List Char} (h : numberStart s = true) : number s ≠ [] := by
  suffices hm : mantissa s ≠ [] by simp [number, hm]
  fun_cases numberStart s with
  | case1 c s =>
      have hc : c ≠ '.' := by
        rintro rfl
        cases h
      simp [mantissa, digits, fraction, hc]
  | case2 c s => simp_all [mantissa, digits, numberStart]
  | case3 => cases h

theorem quoteTag_eq {s tag : List Char} (h : quoteTag s = some tag) :
    ∃ name rest, tag = '$' :: name ++ ['$'] ∧ s = name ++ '$' :: rest ∧ name = s.takeWhile tagRest ∧
      name.head?.any Char.isDigit = false := by
  simp only [quoteTag] at h
  split at h
  · cases h
  · rename_i hd
    split at h
    · rename_i hr
      cases h
      obtain ⟨c, rest, hrest⟩ := List.exists_cons_of_ne_nil (l := s.drop (s.takeWhile tagRest).length) (by
        intro hnil
        rw [hnil] at hr
        cases hr)
      rw [hrest, List.head?_cons, Option.some.injEq] at hr
      subst hr
      refine ⟨_, rest, rfl, ?_, rfl, by simpa using hd⟩
      rw [← hrest]
      exact (List.prefix_iff_eq_append.mp (List.takeWhile_prefix _)).symm
    · cases h

theorem quoteTag_split {s tag : List Char} (h : quoteTag s = some tag) :
    ∃ rest, tag ≠ [] ∧ s = tag.tail ++ rest ∧ rest = s.drop (tag.length - 1) ∧ '$' :: s = tag ++ rest := by
  obtain ⟨name, rest, rfl, rfl, -, -⟩ := quoteTag_eq h
  exact ⟨rest, by simp, by simp, by simp, by simp⟩

theorem enclosed_reads {kind : Kind} {opening s : List Char} {body : Option (List Char)} (hne : opening ≠ [])
    (hp : ∀ b, body = some b → ∃ rest, s = b ++ rest)
    (hsome : ∀ b rest, s = b ++ rest → body = some b → Reads ⟨kind, opening ++ b⟩ rest)
    (hnone : body = none → Reads ⟨.unterminated, opening ++ s⟩ []) :
    ∃ rest, opening ++ s = (enclosed kind opening s body).text ++ rest ∧
      Reads (enclosed kind opening s body) rest ∧ (enclosed kind opening s body).text ≠ [] := by
  cases body with
  | none => exact ⟨[], by simp [enclosed], hnone rfl, by simp [enclosed, hne]⟩
  | some b =>
      obtain ⟨rest, hrest⟩ := hp b rfl
      exact ⟨rest, by simp [enclosed, hrest], hsome b rest hrest rfl, by simp [enclosed, hne]⟩

theorem head?_takeWhile_drop {p : Char → Bool} {s : List Char} :
    ∀ c ∈ (s.drop (s.takeWhile p).length).head?, p c = false := by
  have hs : s.drop (s.takeWhile p).length = s.dropWhile p := by
    refine List.append_cancel_left (?_ : s.takeWhile p ++ _ = s.takeWhile p ++ _)
    rw [List.prefix_iff_eq_append.mp (List.takeWhile_prefix p), List.takeWhile_append_dropWhile]
  intro c hc
  rw [hs] at hc
  have := List.head?_dropWhile_not p s
  rw [hc] at this
  simpa using this

theorem all_takeWhile {p : Char → Bool} {s : List Char} : ∀ c ∈ s.takeWhile p, p c = true :=
  fun _ hc => List.mem_takeWhile_imp hc

theorem not_digit_of_numberStart {c : Char} {s : List Char} (h : ¬numberStart (c :: s) = true) : c.isDigit = false := by
  by_contra hd
  have hc : c ≠ '.' := by
    rintro rfl
    exact hd rfl
  simp [numberStart, hc, hd] at h

theorem numberStart_cons {c : Char} {s : List Char} :
    numberStart (c :: s) = if c = '.' then s.head?.any Char.isDigit else c.isDigit := by
  split
  · rename_i h
    subst h
    cases s <;> rfl
  · rename_i h
    simp [numberStart, h]

theorem commentStart_cons {c : Char} {s : List Char} :
    commentStart (c :: s) = true ↔ (c = '-' ∧ s.head? = some '-') ∨ (c = '/' ∧ s.head? = some '*') := by
  constructor
  · intro h
    generalize ht : c :: s = t at h
    fun_cases commentStart t with
    | case1 t =>
        cases ht
        exact .inl ⟨rfl, rfl⟩
    | case2 t =>
        cases ht
        exact .inr ⟨rfl, rfl⟩
    | case3 => simp_all [commentStart]
  · rintro (⟨rfl, h⟩ | ⟨rfl, h⟩) <;> obtain ⟨t, rfl⟩ := List.head?_eq_some_iff.mp h <;> rfl

/-- `lexeme` reads one of the forms. -/
theorem reads {s : List Char} (hs : s ≠ []) :
    ∃ rest, s = (lexeme s).text ++ rest ∧ Reads (lexeme s) rest ∧ (lexeme s).text ≠ [] := by
  obtain ⟨c, s, rfl⟩ := List.exists_cons_of_ne_nil hs
  rw [lexeme]
  by_cases hw : isWhitespace c = true
  · rw [if_pos hw]
    exact ⟨s, rfl, .space c s hw, by simp⟩
  rw [if_neg hw]
  by_cases hl : c = '-' ∧ s.head? = some '-'
  · rw [if_pos hl]
    obtain ⟨rfl, h⟩ := hl
    obtain ⟨s, rfl⟩ : ∃ t, s = '-' :: t := List.head?_eq_some_iff.mp h
    have ht : ('-' :: s).takeWhile (!lineEnd ·) = '-' :: s.takeWhile (!lineEnd ·) :=
      List.takeWhile_cons_of_pos rfl
    rw [ht]
    refine ⟨_, ?_, .lineComment (s.takeWhile (!lineEnd ·)) (s.drop (s.takeWhile (!lineEnd ·)).length) ?_ ?_,
      by simp⟩
    · simp [List.prefix_iff_eq_append.mp (List.takeWhile_prefix _)]
    · intro c hc
      simpa using all_takeWhile c hc
    · intro c hc
      simpa using head?_takeWhile_drop c hc
  rw [if_neg hl]
  by_cases hb : c = '/' ∧ s.head? = some '*'
  · rw [if_pos hb]
    obtain ⟨rfl, h⟩ := hb
    obtain ⟨s, rfl⟩ : ∃ t, s = '*' :: t := List.head?_eq_some_iff.mp h
    exact enclosed_reads (by simp) (fun b hb => commentBody_initial hb)
      (fun b rest hr hb => .blockComment b rest (hr ▸ hb)) (fun hb => .openComment s hb)
  rw [if_neg hb]
  by_cases hq : c = '\''
  · rw [if_pos hq]
    subst hq
    exact enclosed_reads (by simp) (fun b hb => quoteBody_initial hb)
      (fun b rest hr hb => .string b rest (hr ▸ hb)) (fun hb => .openString s hb)
  rw [if_neg hq]
  by_cases hn : c = '"'
  · rw [if_pos hn]
    subst hn
    exact enclosed_reads (by simp) (fun b hb => quoteBody_initial hb)
      (fun b rest hr hb => .quotedName b rest (hr ▸ hb)) (fun hb => .openName s hb)
  rw [if_neg hn]
  by_cases he : isE c ∧ s.head? = some '\''
  · rw [if_pos he]
    obtain ⟨he, h⟩ := he
    obtain ⟨s, rfl⟩ : ∃ t, s = '\'' :: t := List.head?_eq_some_iff.mp h
    exact enclosed_reads (by simp) (fun b hb => quoteBody_initial hb)
      (fun b rest hr hb => .escapeString c b rest he (hr ▸ hb)) (fun hb => .openEscape c s he hb)
  rw [if_neg he]
  by_cases hname : nameStart c = true
  · rw [if_pos hname]
    refine ⟨_, ?_, .name c (s.takeWhile nameRest) (s.drop (s.takeWhile nameRest).length) hname all_takeWhile
      head?_takeWhile_drop ?_, by simp⟩
    · simp [List.prefix_iff_eq_append.mp (List.takeWhile_prefix _)]
    · intro hE hbody hrest
      rw [hbody] at hrest
      exact he ⟨hE, hrest⟩
  rw [if_neg hname]
  by_cases hnum : numberStart (c :: s) = true
  · rw [if_pos hnum]
    have hp := (List.prefix_iff_eq_append.mp (number_initial (c :: s))).symm
    exact ⟨_, hp, .number (c :: s) _ hnum hp, number_ne_nil hnum⟩
  rw [if_neg hnum]
  by_cases hd : c = '$'
  · rw [if_pos hd]
    subst hd
    cases htag : quoteTag s with
    | some tag =>
        obtain ⟨rest, hne, hs, hrest, ht⟩ := quoteTag_split htag
        simp only [← hrest, ht]
        exact enclosed_reads hne (fun b hb => through_initial hb)
          (fun b r hr hb => .dollarString tag b r (by rw [← hr, ← hs, htag]) (hr ▸ hb))
          (fun hb => .openDollar tag rest (by rw [← hs, htag]) hb)
    | none =>
        have hp := List.prefix_iff_eq_append.mp (digits_initial s)
        by_cases hd : digits s ≠ []
        · simp only [if_pos hd]
          refine ⟨_, ?_, .parameter (digits s) _ hd all_takeWhile (by rw [hp, htag]), by simp⟩
          simp [hp]
        · simp only [if_neg hd]
          exact ⟨s, rfl, .dollarSign s htag (not_not.mp hd), by simp⟩
  rw [if_neg hd]
  by_cases hp : punctuation c = true
  · rw [if_pos hp]
    exact ⟨s, rfl, .punctuation c s hp, by simp⟩
  · rw [if_neg hp]
    have hdigit := not_digit_of_numberStart hnum
    have hc : operatorChar c = true := by simp_all [operatorChar, nameRest, tagRest, delimiter]
    have hcomment : commentStart (c :: s) = false := by
      rw [← Bool.not_eq_true, commentStart_cons]
      exact fun h => h.elim hl hb
    have ho : operator (c :: s) = c :: operator s := by simp [operator, hc, hcomment]
    have hpre := (List.prefix_iff_eq_append.mp (operator_initial (c :: s))).symm
    exact ⟨_, hpre, .operator c s _ hc hcomment hpre, by simp [ho]⟩

def lexemes (s : List Char) : List Lexeme := Scan.tile lexeme (·.text.length) 0 s

def text (ls : List Lexeme) : List Char := ls.flatMap Lexeme.text

def Kind.blank : Kind → Bool
  | .space | .lineComment | .blockComment => true
  | _ => false

def Lexeme.isToken (ℓ : Lexeme) : Bool := !ℓ.kind.blank

def semicolon : Lexeme := ⟨.punctuation, [';']⟩

theorem lexemes_eq {s rest : List Char} (hs : s ≠ []) (h : s = (lexeme s).text ++ rest) (hne : (lexeme s).text ≠ []) :
    lexemes s = lexeme s :: lexemes rest :=
  Scan.tile_eq_cons hs h hne

theorem lexemes_cons {s : List Char} (hs : s ≠ []) :
    ∃ rest, s = (lexeme s).text ++ rest ∧ Reads (lexeme s) rest ∧ (lexeme s).text ≠ [] ∧
      lexemes s = lexeme s :: lexemes rest := by
  obtain ⟨rest, hrest, hr, hne⟩ := reads hs
  exact ⟨rest, hrest, hr, hne, lexemes_eq hs hrest hne⟩

/-- The lexemes make up the text. -/
@[simp]
theorem text_lexemes (s : List Char) : text (lexemes s) = s := by
  refine Scan.flatMap_tile (fun xs hxs => ?_) (fun xs hxs => ?_) s
  · obtain ⟨rest, hrest, -, -⟩ := reads hxs
    exact ⟨rest, hrest⟩
  · obtain ⟨-, -, -, hne⟩ := reads hxs
    exact hne

theorem takeWhile_stops {α : Type*} {p : α → Bool} {u v : List α} {c : α} (hu : ∀ x ∈ u, p x = true)
    (hc : p c = false) : (u ++ c :: v).takeWhile p = u := by
  rw [List.takeWhile_append_of_pos hu, List.takeWhile_cons_of_neg (by simp [hc]), List.append_nil]

theorem quoteTag_again {tag s t : List Char} (h : quoteTag (tag.tail ++ s) = some tag) :
    quoteTag (tag.tail ++ t) = some tag := by
  obtain ⟨name, rest, rfl, hs, hname, hd⟩ := quoteTag_eq h
  have hall : ∀ c ∈ name, tagRest c = true := by
    rw [hname]
    exact all_takeWhile
  have hname' : (name ++ '$' :: t).takeWhile tagRest = name := takeWhile_stops hall rfl
  simp only [List.cons_append, List.tail_cons, List.append_assoc, List.nil_append, quoteTag, hname', hd,
    List.drop_left]
  simp

@[simp]
theorem text_nil : text [] = [] := rfl

@[simp]
theorem text_cons (ℓ : Lexeme) (ls : List Lexeme) : text (ℓ :: ls) = ℓ.text ++ text ls := rfl

@[simp]
theorem text_append (a b : List Lexeme) : text (a ++ b) = text a ++ text b := List.flatMap_append

theorem lexemes_nil : lexemes [] = [] := rfl

end Wordflow.Scripts
