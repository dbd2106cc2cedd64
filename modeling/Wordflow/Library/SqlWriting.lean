import Mathlib.Data.List.Forall2
import Wordflow.Library.SqlParsing

namespace Wordflow.Library.SqlExpression

open Quoting

variable {s t : List Char} {e left right : Expression} {tokens : List Token}

/-- A text has these tokens wherever it is bounded. -/
def Scans (s : List Char) (tokens : List Token) : Prop :=
  ∀ rest others, Bounded rest → Lexed rest others → Lexed (s ++ rest) (tokens ++ others)

/-- The first token can start an operand. -/
def Starts (tokens : List Token) : Prop :=
  ∃ t ∈ tokens.head?, t.isWord "SELECT" = false ∧ t.isWord "DISTINCT" = false

theorem Starts.head {rest : List Token} (h : Starts tokens) {t : Token} (ht : t ∈ (tokens ++ rest).head?) :
    t.isWord "SELECT" = false ∧ t.isWord "DISTINCT" = false := by
  obtain ⟨u, hu, hwords⟩ := h
  cases tokens with
  | nil => cases hu
  | cons v tokens =>
      cases hu
      cases ht
      exact hwords

theorem Starts.append (h : Starts tokens) (others : List Token) : Starts (tokens ++ others) := by
  obtain ⟨t, ht, hwords⟩ := h
  cases tokens with
  | nil => cases ht
  | cons u tokens => exact ⟨t, ht, hwords⟩

/-- A text says an expression up to where it stops. -/
def Expresses (s : List Char) (e : Expression) : Prop :=
  ∃ tokens, Starts tokens ∧ Scans s tokens ∧ ∀ rest, Stops rest → Parsed 0 (tokens ++ rest) e rest

/-- A text says an expression that no operator takes apart. -/
def Primary (s : List Char) (e : Expression) : Prop :=
  ∃ tokens, Starts tokens ∧ Scans s tokens ∧ ∀ rest, Opened (tokens ++ rest) e rest

/-- What a text says is what the whole of it is parsed into. -/
theorem Expresses.parse (h : Expresses s e) : Enough (fun n => parse n s) e := by
  obtain ⟨tokens, -, hscans, hparsed⟩ := h
  have hlexed := hscans [] [] Bounded.nil Lexed.nil
  have hwhole := hparsed [] Stops.nil
  rw [List.append_nil, List.append_nil] at hlexed
  rw [List.append_nil] at hwhole
  obtain ⟨k, hk⟩ := hlexed
  obtain ⟨j, hj⟩ := hwhole
  refine ⟨max k j, fun n hn => ?_⟩
  have htokens : lex n s = some tokens := hk n (by omega)
  have hexpression : parseExpression n 0 tokens = some (e, []) := hj n (by omega)
  change SqlExpression.parse n s = some e
  rw [SqlExpression.parse, htokens, Option.bind_some, hexpression]

theorem Primary.expresses (h : Primary s e) : Expresses s e := by
  obtain ⟨tokens, hstarts, hscans, hopened⟩ := h
  exact ⟨tokens, hstarts, hscans, fun rest hrest => .of (hopened rest) (.stop hrest)⟩

section Words

def Truth.word : Truth → List Char
  | .null => ['N', 'U', 'L', 'L']
  | .true => ['T', 'R', 'U', 'E']
  | .false => ['F', 'A', 'L', 'S', 'E']

def BinaryOperator.text : BinaryOperator → List Char
  | .add => ['+']
  | .subtract => ['-']
  | .multiply => ['*']
  | .divide => ['/']
  | .and => ['A', 'N', 'D']
  | .or => ['O', 'R']

def BinaryOperator.token : BinaryOperator → Token
  | .add => .symbol '+'
  | .subtract => .symbol '-'
  | .multiply => .symbol '*'
  | .divide => .symbol '/'
  | .and => .word ['A', 'N', 'D']
  | .or => .word ['O', 'R']

theorem truthOf_word (truth : Truth) : truthOf (.word truth.word) = some truth := by
  cases truth <;> rfl

theorem Lexed.binaryOperator {rest : List Char} {others : List Token} (operator : BinaryOperator) (h : Lexed rest others) :
    Lexed (operator.text ++ ' ' :: rest) (operator.token :: others) := by
  cases operator with
  | add | subtract | multiply | divide => exact .operator (by decide) ⟨nofun, nofun⟩ h.blank
  | and | or => exact .word rfl ((Bounded.blank rest).stops (by decide)) h.blank

end Words

section Operands

theorem Primary.column (hs : s ≠ []) : Primary (enclose '"' s) (.column s) :=
  ⟨[.identifier s], ⟨_, rfl, rfl, rfl⟩, fun _ _ hrest h => h.identifier hs (hrest.head_ne (by decide)), fun rest => .column s rest⟩

theorem Primary.string (s : List Char) : Primary (enclose '\'' s) (.string s) :=
  ⟨[.string s], ⟨_, rfl, rfl, rfl⟩, fun _ _ hrest h => h.string s (hrest.head_ne (by decide)), fun rest => .string s rest⟩

theorem Primary.number (hs : readNumber s = some (s, [])) : Primary s (.number s) :=
  ⟨[.number s], ⟨_, rfl, rfl, rfl⟩, fun _ _ hrest h => h.number hs hrest, fun rest => .number s rest⟩

theorem Primary.constant (truth : Truth) : Primary truth.word (.constant truth) := by
  refine ⟨[.word truth.word], ⟨_, rfl, ?_, ?_⟩, fun _ _ hrest h => .word ?_ (hrest.stops (by decide)) h, fun rest =>
    .constant ?_ (truthOf_word truth) rest⟩
  all_goals cases truth <;> rfl

theorem Expresses.sign (negative : Bool) (hs : readNumber s = some (s, [])) :
    Expresses ((if negative then '-' else '+') :: s) (.sign negative (.number s)) := by
  refine ⟨[.symbol (if negative then '-' else '+'), .number s], ⟨_, rfl, rfl, rfl⟩, fun rest others hrest h => ?_, fun rest hrest => ?_⟩
  · have hnumber := h.number hs hrest
    have hhead : (s ++ rest).head? ≠ some '-' ∧ (s ++ rest).head? ≠ some '*' := by
      cases s with
      | nil => cases hs
      | cons c s =>
          rw [List.cons_append, List.head?_cons]
          constructor
          · rintro ⟨⟩
            exact absurd (readNumber_head hs) (by decide)
          · rintro ⟨⟩
            exact absurd (readNumber_head hs) (by decide)
    refine .operator ?_ hhead hnumber
    cases negative <;> decide
  · exact .of (Opened.sign (.of (.number s rest) (.stop hrest))) (.stop hrest)

theorem Expresses.parenthesized (h : Expresses s e) : Primary ('(' :: (s ++ [')'])) e := by
  obtain ⟨tokens, hstarts, hscans, hparsed⟩ := h
  refine ⟨.symbol '(' :: (tokens ++ [.symbol ')']), ⟨_, rfl, rfl, rfl⟩, fun rest others _ h => ?_, fun rest => ?_⟩
  · rw [List.cons_append, List.cons_append, List.append_assoc, List.append_assoc]
    exact .symbol (.inl rfl) (hscans _ _ (.close rest) (.symbol (.inr (.inl rfl)) h))
  · rw [List.cons_append, List.append_assoc]
    exact .paren (fun t ht => (hstarts.head ht).1) (hparsed _ (.close rest))

end Operands

section Operators

def isWords (negated : Bool) (truth : Truth) : List Char :=
  ['I', 'S', ' '] ++ ((if negated then ['N', 'O', 'T', ' '] else []) ++ truth.word)

def isTokens (negated : Bool) (truth : Truth) : List Token :=
  (if negated then [.word ['N', 'O', 'T']] else []) ++ [.word truth.word]

theorem isPredicate_isTokens (negated : Bool) (truth : Truth) (rest : List Token) :
    isPredicate (isTokens negated truth ++ rest) = some (negated, truth, rest) := by
  cases negated <;> cases truth <;> rfl

theorem Lexed.truth {rest : List Char} {others : List Token} (truth : Truth) (hrest : Bounded rest) (h : Lexed rest others) :
    Lexed (truth.word ++ rest) (.word truth.word :: others) :=
  .word (by cases truth <;> rfl) (hrest.stops (by decide)) h

theorem Lexed.isWords {rest : List Char} {others : List Token} (negated : Bool) (truth : Truth) (hrest : Bounded rest)
    (h : Lexed rest others) :
    Lexed (isWords negated truth ++ rest) (.word ['I', 'S'] :: (isTokens negated truth ++ others)) := by
  have htruth := h.truth truth hrest
  have hblank (rest : List Char) : ∀ c ∈ (' ' :: rest).head?, isWordPart c = false := (Bounded.blank rest).stops (by decide)
  cases negated with
  | false => exact .word (w := ['I', 'S']) rfl (hblank _) htruth.blank
  | true => exact .word (w := ['I', 'S']) rfl (hblank _) (Lexed.word (w := ['N', 'O', 'T']) rfl (hblank _) htruth.blank).blank

theorem Primary.is (negated : Bool) (truth : Truth) (h : Primary s e) :
    Expresses (s ++ ' ' :: isWords negated truth) (.is e negated truth) := by
  obtain ⟨tokens, hstarts, hscans, hopened⟩ := h
  refine ⟨tokens ++ .word ['I', 'S'] :: isTokens negated truth, ?_, fun rest others hrest h => ?_, fun rest hrest => ?_⟩
  · exact hstarts.append _
  · rw [List.append_assoc, List.append_assoc]
    exact hscans _ _ (.blank _) (h.isWords negated truth hrest).blank
  · rw [List.append_assoc]
    exact .of (hopened _) (.is rfl rfl (Nat.zero_le 4) (isPredicate_isTokens negated truth rest) (.stop hrest))

theorem Primary.binary (operator : BinaryOperator) (hleft : Primary s left) (hright : Primary t right) :
    Expresses (s ++ ' ' :: (operator.text ++ ' ' :: t)) (.binary operator left right) := by
  obtain ⟨tokens, hstarts, hscans, hopened⟩ := hleft
  obtain ⟨others, -, hscans', hopened'⟩ := hright
  refine ⟨tokens ++ operator.token :: others, ?_, fun rest more hrest h => ?_, fun rest hrest => ?_⟩
  · exact hstarts.append _
  · have hoperator := (hscans' rest more hrest h).binaryOperator operator
    rw [List.append_assoc, List.append_assoc]
    simp only [List.cons_append, List.append_assoc]
    exact hscans _ _ (.blank _) hoperator.blank
  · have hstrength : ∃ strength, binaryOperator operator.token = some (strength, operator) := by
      cases operator <;> exact ⟨_, rfl⟩
    obtain ⟨strength, hstrength⟩ := hstrength
    rw [List.append_assoc]
    exact .of (hopened _) (.binary hstrength (Nat.zero_le _) (.of (hopened' rest) (.stop hrest)) (.stop hrest))

theorem Primary.not (h : Primary s e) : Expresses (['N', 'O', 'T', ' '] ++ s) (.not e) := by
  obtain ⟨tokens, -, hscans, hopened⟩ := h
  refine ⟨.word ['N', 'O', 'T'] :: tokens, ⟨_, rfl, rfl, rfl⟩, fun rest others hrest h => ?_, fun rest hrest => ?_⟩
  · exact .word (w := ['N', 'O', 'T']) rfl ((Bounded.blank _).stops (by decide)) (hscans rest others hrest h).blank
  · exact .of (.not rfl (.of (hopened rest) (.stop hrest))) (.stop hrest)

end Operators

section Calls

variable {name : List Char} {distinct : Bool} {es : List Expression}

/-- A text that says arguments up to the closing parenthesis. -/
def Lists (s : List Char) (es : List Expression) : Prop :=
  ∃ tokens, Starts tokens ∧
    (∀ rest others, Lexed rest others → Lexed (s ++ ')' :: rest) (tokens ++ .symbol ')' :: others)) ∧
    ∀ rest, Listed (tokens ++ .symbol ')' :: rest) es rest

/-- A text that says a call, before a window or not. -/
def Calls (s : List Char) (name : List Char) (distinct : Bool) (es : List Expression) : Prop :=
  ∃ tokens, Starts tokens ∧ Scans s tokens ∧
    ∀ rest, Opened (tokens ++ rest) (.call name distinct es (parseWindow rest).1) (parseWindow rest).2

theorem Expresses.lists (h : Expresses s e) : Lists s [e] := by
  obtain ⟨tokens, hstarts, hscans, hparsed⟩ := h
  refine ⟨tokens, hstarts, fun rest others h => ?_, fun rest => .last (hparsed _ (.close rest))⟩
  exact hscans _ _ (.close rest) (.symbol (.inr (.inl rfl)) h)

theorem Expresses.comma (h : Expresses s e) (hmore : Lists t es) : Lists (s ++ ',' :: ' ' :: t) (e :: es) := by
  obtain ⟨tokens, hstarts, hscans, hparsed⟩ := h
  obtain ⟨others, -, hlexed, hlisted⟩ := hmore
  refine ⟨tokens ++ .symbol ',' :: others, hstarts.append _, fun rest more h => ?_, fun rest => ?_⟩
  · rw [List.append_assoc, List.append_assoc]
    exact hscans _ _ (.comma _) (.symbol (.inr (.inr rfl)) (hlexed rest more h).blank)
  · rw [List.append_assoc]
    exact .cons (hparsed _ (.comma _)) (hlisted rest)

theorem lists_intercalate {inputs : List (List Char)} (h : List.Forall₂ Expresses inputs es) (hne : inputs ≠ []) :
    Lists ([',', ' '].intercalate inputs) es := by
  induction h with
  | nil => exact absurd rfl hne
  | @cons s e inputs es hhead hrest ih =>
      cases hrest with
      | nil =>
          have hone : [',', ' '].intercalate [s] = s := by simp [List.intercalate]
          rw [hone]
          exact hhead.lists
      | @cons t e' inputs es hnext hrest =>
          have hmore : [',', ' '].intercalate (s :: t :: inputs) = s ++ ',' :: ' ' :: [',', ' '].intercalate (t :: inputs) := by
            simp [List.intercalate]
          rw [hmore]
          exact hhead.comma (ih (List.cons_ne_nil _ _))

theorem starts_of_function (hfunction : isFunction name = true) (tokens : List Token) : Starts (.word name :: tokens) := by
  obtain ⟨-, -, hselect, hdistinct⟩ := isFunction_free hfunction
  exact ⟨_, rfl, hselect, hdistinct⟩

theorem isWordPart_open (rest : List Char) : ∀ c ∈ ('(' :: rest).head?, isWordPart c = false := by
  intro c hc
  cases hc
  rfl

theorem Lists.calls (hname : isWordText name = true) (hfunction : isFunction name = true) (h : Lists s es) :
    Calls (name ++ '(' :: (s ++ [')'])) name false es := by
  obtain ⟨tokens, hstarts, hlexed, hlisted⟩ := h
  refine ⟨.word name :: .symbol '(' :: (tokens ++ [.symbol ')']), starts_of_function hfunction _, fun rest others _ h => ?_, fun rest => ?_⟩
  · have hinside := hlexed rest others h
    simp only [List.append_assoc, List.cons_append, List.nil_append]
    exact .word hname (isWordPart_open _) (.symbol (.inl rfl) hinside)
  · simp only [List.append_assoc, List.cons_append, List.nil_append]
    exact .call hfunction (fun t ht => (hstarts.head ht).2) (hlisted rest)

theorem Lists.callsDistinct (hname : isWordText name = true) (hfunction : isFunction name = true) (h : Lists s es) :
    Calls (name ++ '(' :: (['D', 'I', 'S', 'T', 'I', 'N', 'C', 'T', ' '] ++ (s ++ [')']))) name true es := by
  obtain ⟨tokens, -, hlexed, hlisted⟩ := h
  refine ⟨.word name :: .symbol '(' :: .word ['D', 'I', 'S', 'T', 'I', 'N', 'C', 'T'] :: (tokens ++ [.symbol ')']),
    starts_of_function hfunction _, fun rest others _ h => ?_, fun rest => ?_⟩
  · have hinside := (hlexed rest others h).blank
    have hdistinct := Lexed.word (w := ['D', 'I', 'S', 'T', 'I', 'N', 'C', 'T']) rfl ((Bounded.blank _).stops (by decide)) hinside
    simp only [List.append_assoc, List.cons_append, List.nil_append]
    exact .word hname (isWordPart_open _) (.symbol (.inl rfl) hdistinct)
  · simp only [List.append_assoc, List.cons_append, List.nil_append]
    exact .callDistinct hfunction rfl (hlisted rest)

theorem Calls.expresses (h : Calls s name distinct es) : Expresses s (.call name distinct es false) := by
  obtain ⟨tokens, hstarts, hscans, hopened⟩ := h
  refine ⟨tokens, hstarts, hscans, fun rest hrest => ?_⟩
  have hcall := hopened rest
  rw [parseWindow_stops hrest] at hcall
  exact .of hcall (.stop hrest)

theorem Calls.window (h : Calls s name distinct es) :
    Expresses (s ++ [' ', 'O', 'V', 'E', 'R', ' ', '(', ')']) (.call name distinct es true) := by
  obtain ⟨tokens, hstarts, hscans, hopened⟩ := h
  refine ⟨tokens ++ [.word ['O', 'V', 'E', 'R'], .symbol '(', .symbol ')'], hstarts.append _, fun rest others _ h => ?_, fun rest hrest => ?_⟩
  · have hparens : Lexed ('(' :: ')' :: rest) (.symbol '(' :: .symbol ')' :: others) :=
      .symbol (.inl rfl) (.symbol (.inr (.inl rfl)) h)
    rw [List.append_assoc, List.append_assoc]
    exact hscans _ _ (.blank _)
      (Lexed.word (w := ['O', 'V', 'E', 'R']) rfl ((Bounded.blank _).stops (by decide)) hparens.blank).blank
  · have hcall := hopened (.word ['O', 'V', 'E', 'R'] :: .symbol '(' :: .symbol ')' :: rest)
    rw [List.append_assoc]
    exact .of hcall (.stop hrest)

end Calls

section Sources

def pathTokens : List (List Char) → List Token
  | [] => []
  | [name] => [.identifier name]
  | name :: next :: names => .identifier name :: .symbol '.' :: pathTokens (next :: names)

def pathText (names : List (List Char)) : List Char := ['.'].intercalate (names.map (enclose '"'))

variable {names : List (List Char)}

theorem pathText_cons (name next : List Char) (names : List (List Char)) :
    pathText (name :: next :: names) = enclose '"' name ++ '.' :: pathText (next :: names) := by
  simp [pathText, List.intercalate]

theorem parsePath_pathTokens (hne : names ≠ []) (rest : List Token) :
    parsePath (pathTokens names ++ .symbol ')' :: rest) = some (names, .symbol ')' :: rest) := by
  induction names with
  | nil => exact absurd rfl hne
  | cons name names ih =>
      cases names with
      | nil => rfl
      | cons next names =>
          rw [pathTokens, List.cons_append, List.cons_append, parsePath, ih (List.cons_ne_nil _ _)]
          rfl

theorem Lexed.point {rest : List Char} {others : List Token} (h : Lexed ('"' :: rest) others) :
    Lexed ('.' :: '"' :: rest) (.symbol '.' :: others) := by
  have hread : readToken ('.' :: '"' :: rest) = some (some (.symbol '.'), '"' :: rest) := rfl
  exact .cons hread h

theorem Lexed.path {rest : List Char} {others : List Token} (hne : names ≠ []) (hnames : ∀ name ∈ names, name ≠ [])
    (h : Lexed (')' :: rest) others) : Lexed (pathText names ++ ')' :: rest) (pathTokens names ++ others) := by
  induction names with
  | nil => exact absurd rfl hne
  | cons name names ih =>
      obtain ⟨hname, hrest⟩ := List.forall_mem_cons.mp hnames
      cases names with
      | nil =>
          have hone : pathText [name] = enclose '"' name := by simp [pathText, List.intercalate]
          rw [hone]
          exact h.identifier hname (by simp)
      | cons next names =>
          rw [pathText_cons, List.append_assoc]
          have hmore := ih (List.cons_ne_nil _ _) hrest
          obtain ⟨text, htext⟩ : ∃ text, pathText (next :: names) = '"' :: text := by
            cases names with
            | nil => exact ⟨_, by simp [pathText, List.intercalate, enclose]; rfl⟩
            | cons after names => exact ⟨_, by rw [pathText_cons]; rfl⟩
          rw [htext] at hmore ⊢
          exact .identifier hname (by simp) hmore.point

theorem Expresses.scalar (h : Expresses s e) (hne : names ≠ []) (hnames : ∀ name ∈ names, name ≠ []) :
    Primary ('(' :: (['S', 'E', 'L', 'E', 'C', 'T', ' '] ++ (s ++ ([' ', 'F', 'R', 'O', 'M', ' '] ++ pathText names)) ++ [')']))
      (.scalar e names) := by
  obtain ⟨tokens, -, hscans, hparsed⟩ := h
  refine ⟨.symbol '(' :: .word ['S', 'E', 'L', 'E', 'C', 'T'] ::
    (tokens ++ .word ['F', 'R', 'O', 'M'] :: (pathTokens names ++ [.symbol ')'])), ⟨_, rfl, rfl, rfl⟩, fun rest others _ h => ?_, fun rest => ?_⟩
  · have hpath := Lexed.path hne hnames (.symbol (.inr (.inl rfl)) h)
    have hfrom := Lexed.word (w := ['F', 'R', 'O', 'M']) rfl ((Bounded.blank _).stops (by decide)) hpath.blank
    have hinside := hscans _ _ (.blank _) hfrom.blank
    have hselect := Lexed.word (w := ['S', 'E', 'L', 'E', 'C', 'T']) rfl ((Bounded.blank _).stops (by decide)) hinside.blank
    simpa [List.append_assoc] using hselect.symbol (.inl rfl)
  · simp only [List.cons_append, List.append_assoc, List.nil_append]
    exact .scalar rfl rfl (hparsed _ (.cons ⟨rfl, rfl, rfl⟩ _)) (parsePath_pathTokens hne rest)

end Sources

end Wordflow.Library.SqlExpression
