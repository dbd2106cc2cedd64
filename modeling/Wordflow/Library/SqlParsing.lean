import Wordflow.Library.SqlReading

namespace Wordflow.Library.SqlExpression

open Quoting

section Parsing

variable {tokens mid rest : List Token} {least strength : Nat} {e e' left right : Expression} {es : List Expression}
  {operator : BinaryOperator} {negated : Bool} {truth : Truth} {name : List Char} {t : Token}

def Parsed (least : Nat) (tokens : List Token) (e : Expression) (rest : List Token) : Prop :=
  Enough (fun n => parseExpression n least tokens) (e, rest)

def Opened (tokens : List Token) (e : Expression) (rest : List Token) : Prop :=
  Enough (fun n => parsePrefix n tokens) (e, rest)

def Continued (least : Nat) (e : Expression) (tokens : List Token) (e' : Expression) (rest : List Token) : Prop :=
  Enough (fun n => parseInfix n least e tokens) (e', rest)

def Listed (tokens : List Token) (es : List Expression) (rest : List Token) : Prop :=
  Enough (fun n => parseArguments n tokens) (es, rest)

/-- What comes after an expression so that it ends there. -/
def Stops (rest : List Token) : Prop :=
  ∀ t ∈ rest.head?, binaryOperator t = none ∧ t.isWord "IS" = false ∧ t.isWord "OVER" = false

theorem Stops.nil : Stops [] := fun _ h => nomatch h

theorem Stops.cons (h : binaryOperator t = none ∧ t.isWord "IS" = false ∧ t.isWord "OVER" = false) (rest : List Token) :
    Stops (t :: rest) := by
  intro u hu
  cases hu
  exact h

theorem Stops.close (rest : List Token) : Stops (.symbol ')' :: rest) := .cons ⟨rfl, rfl, rfl⟩ rest

theorem Stops.comma (rest : List Token) : Stops (.symbol ',' :: rest) := .cons ⟨rfl, rfl, rfl⟩ rest

theorem parseWindow_stops (h : Stops rest) : parseWindow rest = (false, rest) := by
  unfold parseWindow
  split
  · rename_i word after
    rw [if_neg (by simp [(h word rfl).2.2])]
  · rfl

theorem Parsed.of (hopened : Opened tokens e mid) (hcontinued : Continued least e mid e' rest) :
    Parsed least tokens e' rest :=
  hopened.both hcontinued fun n ho hc => by
    rw [parseExpression_succ, ho, Option.bind_some]
    exact hc

namespace Continued

theorem stop (h : Stops rest) : Continued least e rest e rest := by
  apply Enough.now
  intro n
  cases rest with
  | nil => rfl
  | cons t rest =>
      obtain ⟨hoperator, his, -⟩ := h t rfl
      rw [parseInfix_cons, hoperator]
      simp only [his, Bool.false_eq_true, if_false]

theorem binary (hoperator : binaryOperator t = some (strength, operator)) (hleast : least ≤ strength)
    (hright : Parsed (strength + 1) tokens right mid) (hmore : Continued least (.binary operator e right) mid e' rest) :
    Continued least e (t :: tokens) e' rest :=
  hright.both hmore fun n hr hm => by
    rw [parseInfix_cons, hoperator]
    simp only [if_neg (Nat.not_lt.mpr hleast), hr, Option.bind_some]
    exact hm

theorem is (hoperator : binaryOperator t = none) (hword : t.isWord "IS" = true) (hleast : least ≤ 4)
    (hpredicate : isPredicate tokens = some (negated, truth, mid)) (hmore : Continued least (.is e negated truth) mid e' rest) :
    Continued least e (t :: tokens) e' rest :=
  hmore.step fun n hm => by
    rw [parseInfix_cons, hoperator]
    simp only [hword, if_true, if_neg (Nat.not_lt.mpr hleast), hpredicate, Option.bind_some]
    exact hm

end Continued

namespace Opened

theorem column (name : List Char) (rest : List Token) : Opened (.identifier name :: rest) (.column name) rest :=
  .now fun _ => rfl

theorem string (text : List Char) (rest : List Token) : Opened (.string text :: rest) (.string text) rest :=
  .now fun _ => rfl

theorem number (text : List Char) (rest : List Token) : Opened (.number text :: rest) (.number text) rest :=
  .now fun _ => rfl

theorem sign {negative : Bool} (h : Parsed 8 tokens e rest) :
    Opened (.symbol (if negative then '-' else '+') :: tokens) (.sign negative e) rest :=
  h.step fun n hn => by
    cases negative with
    | false =>
        simp only [Bool.false_eq_true, if_false, parsePrefix_symbol, hn]
        rfl
    | true =>
        simp only [if_true, parsePrefix_symbol, hn]
        rfl

theorem constant {w : List Char} (hnot : isKeyword "NOT" w = false) (h : truthOf (.word w) = some truth) (rest : List Token) :
    Opened (.word w :: rest) (.constant truth) rest :=
  .now fun n => by simp only [parsePrefix_word, hnot, Bool.false_eq_true, if_false, h]

theorem not {w : List Char} (hnot : isKeyword "NOT" w = true) (h : Parsed 3 tokens e rest) :
    Opened (.word w :: tokens) (.not e) rest :=
  h.step fun n hn => by simp only [parsePrefix_word, hnot, if_true, hn, Option.map_some]

theorem paren (hselect : ∀ t ∈ tokens.head?, t.isWord "SELECT" = false) (h : Parsed 0 tokens e (.symbol ')' :: rest)) :
    Opened (.symbol '(' :: tokens) e rest :=
  h.step fun n hn => by
    have hany : (tokens.head?.any fun t => t.isWord "SELECT") = false := by
      cases tokens with
      | nil => rfl
      | cons t tokens => exact hselect t rfl
    rw [parsePrefix_symbol]
    simp only [hany, hn]
    rfl

theorem scalar {select : Token} {path : List (List Char)} (hselect : select.isWord "SELECT" = true)
    (hfrom : t.isWord "FROM" = true) (h : Parsed 0 tokens e (t :: mid))
    (hpath : parsePath mid = some (path, .symbol ')' :: rest)) :
    Opened (.symbol '(' :: select :: tokens) (.scalar e path) rest :=
  h.step fun n hn => by
    rw [parsePrefix_symbol]
    simp only [List.head?_cons, Option.any_some, hselect, if_true, List.tail_cons, hn, hfrom, hpath]
    rfl

end Opened

namespace Listed

theorem last (h : Parsed 0 tokens e (.symbol ')' :: rest)) : Listed tokens [e] rest :=
  h.step fun n hn => by
    rw [parseArguments_succ, hn]
    rfl

theorem cons (h : Parsed 0 tokens e (.symbol ',' :: mid)) (hmore : Listed mid es rest) : Listed tokens (e :: es) rest :=
  h.both hmore fun n hn hm => by
    rw [parseArguments_succ, hn]
    simp only [hm, Option.map_some]

end Listed

/-- A name that a function can have. -/
def isFunction (name : List Char) : Bool :=
  !(["NOT", "NULL", "TRUE", "FALSE", "SELECT", "DISTINCT"].any fun keyword => isKeyword keyword name)

theorem isFunction_free (h : isFunction name = true) : isKeyword "NOT" name = false ∧ truthOf (.word name) = none ∧
    isKeyword "SELECT" name = false ∧ isKeyword "DISTINCT" name = false := by
  simp only [isFunction, List.any_cons, List.any_nil, Bool.or_false, Bool.not_eq_true', Bool.or_eq_false_iff] at h
  obtain ⟨hnot, hnull, htrue, hfalse, hselect, hdistinct⟩ := h
  refine ⟨hnot, ?_, hselect, hdistinct⟩
  simp only [truthOf, Token.isWord, hnull, htrue, hfalse, Bool.false_eq_true, if_false]

/-- A call with a window or not, as what comes after its arguments tells. -/
theorem Opened.call (hname : isFunction name = true) (hdistinct : ∀ t ∈ tokens.head?, t.isWord "DISTINCT" = false)
    (h : Listed tokens es rest) : Opened (.word name :: .symbol '(' :: tokens)
      (.call name false es (parseWindow rest).1) (parseWindow rest).2 := by
  obtain ⟨hnot, htruth, -, -⟩ := isFunction_free hname
  have hany : (tokens.head?.any fun t => t.isWord "DISTINCT") = false := by
    cases tokens with
    | nil => rfl
    | cons t tokens => exact hdistinct t rfl
  have hcall : Enough (fun n => parseCall n name tokens) (.call name false es (parseWindow rest).1, (parseWindow rest).2) :=
    h.step fun n hn => by
      rw [parseCall_succ]
      simp only [hany, Bool.false_eq_true, if_false, hn, Option.map_some]
  exact hcall.step fun n hn => by simp only [parsePrefix_word, hnot, Bool.false_eq_true, if_false, htruth, hn]

theorem Opened.callDistinct (hname : isFunction name = true) (hdistinct : t.isWord "DISTINCT" = true)
    (h : Listed tokens es rest) : Opened (.word name :: .symbol '(' :: t :: tokens)
      (.call name true es (parseWindow rest).1) (parseWindow rest).2 := by
  obtain ⟨hnot, htruth, -, -⟩ := isFunction_free hname
  have hcall : Enough (fun n => parseCall n name (t :: tokens))
      (.call name true es (parseWindow rest).1, (parseWindow rest).2) :=
    h.step fun n hn => by
      rw [parseCall_succ]
      simp only [List.head?_cons, Option.any_some, hdistinct, if_true, List.tail_cons, hn, Option.map_some]
  exact hcall.step fun n hn => by simp only [parsePrefix_word, hnot, Bool.false_eq_true, if_false, htruth, hn]

end Parsing

end Wordflow.Library.SqlExpression
