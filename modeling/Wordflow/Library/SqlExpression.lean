import Wordflow.Library.Quoting

namespace Wordflow.Library.SqlExpression

open Quoting

section Grammar

inductive BinaryOperator
  | add
  | subtract
  | multiply
  | divide
  | and
  | or
  deriving DecidableEq, Repr

inductive Truth
  | null
  | true
  | false
  deriving DecidableEq, Repr

/-- What an expression says, without its parentheses. -/
inductive Expression
  | column (name : List Char)
  | string (text : List Char)
  | number (text : List Char)
  | constant (truth : Truth)
  | sign (negative : Bool) (e : Expression)
  | not (e : Expression)
  | binary (operator : BinaryOperator) (left right : Expression)
  | is (e : Expression) (negated : Bool) (truth : Truth)
  | call (name : List Char) (distinct : Bool) (arguments : List Expression) (window : Bool)
  | scalar (e : Expression) (source : List (List Char))

inductive Token
  | word (w : List Char)
  | identifier (name : List Char)
  | string (text : List Char)
  | number (text : List Char)
  | symbol (c : Char)
  deriving DecidableEq, Repr

end Grammar

section Lexer

def isBlank (c : Char) : Bool := c = ' ' || c = '\t' || c = '\n' || c = '\r'

def isWordStart (c : Char) : Bool := c.isAlpha || c = '_'

def isWordPart (c : Char) : Bool := c.isAlphanum || c = '_'

def skipLine : List Char → List Char
  | [] => []
  | c :: s => if c = '\n' then s else skipLine s

def skipBlock : List Char → List Char
  | [] => []
  | [_] => []
  | c :: d :: s => if c = '*' ∧ d = '/' then s else skipBlock (d :: s)

def readDigits (s : List Char) : List Char × List Char := (s.takeWhile Char.isDigit, s.dropWhile Char.isDigit)

def readSign : List Char → List Char × List Char
  | c :: s => if c = '+' ∨ c = '-' then ([c], s) else ([], c :: s)
  | [] => ([], [])

/-- A point with the digits after it. -/
def readFraction : List Char → List Char × List Char
  | c :: s => if c = '.' then (c :: (readDigits s).1, (readDigits s).2) else ([], c :: s)
  | [] => ([], [])

/-- An exponent with its digits, or nothing. -/
def readExponent : List Char → List Char × List Char
  | c :: s =>
      let sign := readSign s
      if (c = 'e' ∨ c = 'E') ∧ (readDigits sign.2).1 ≠ [] then (c :: (sign.1 ++ (readDigits sign.2).1), (readDigits sign.2).2)
      else ([], c :: s)
  | [] => ([], [])

/-- A number has a digit before its exponent. -/
def readNumber (s : List Char) : Option (List Char × List Char) :=
  let whole := readDigits s
  let fraction := readFraction whole.2
  let exponent := readExponent fraction.2
  if whole.1 = [] ∧ fraction.1.length ≤ 1 then none else some (whole.1 ++ (fraction.1 ++ exponent.1), exponent.2)

/-- One token, or a blank or a comment, and what is after it. A name between quotes has a character. -/
def readToken (s : List Char) : Option (Option Token × List Char) :=
  match s with
  | [] => none
  | c :: rest =>
      if isBlank c then some (none, rest)
      else if c = '-' ∧ rest.head? = some '-' then some (none, skipLine rest)
      else if c = '/' ∧ rest.head? = some '*' then some (none, skipBlock rest.tail)
      else if c = '"' then ((readBody '"' rest).filter fun r => r.1 ≠ []).map fun r => (some (.identifier r.1), r.2)
      else if c = '\'' then (readBody '\'' rest).map fun r => (some (.string r.1), r.2)
      else if isWordStart c then some (some (.word (s.takeWhile isWordPart)), s.dropWhile isWordPart)
      else match readNumber s with
        | some (text, after) => some (some (.number text), after)
        | none => if c ∈ ['(', ')', ',', '.', '+', '-', '*', '/'] then some (some (.symbol c), rest) else none

/-- The tokens of a text, of which each costs one. -/
def lex : Nat → List Char → Option (List Token)
  | _, [] => some []
  | 0, _ :: _ => none
  | n + 1, c :: s =>
      match readToken (c :: s) with
      | none => none
      | some (token, rest) => (lex n rest).map fun tokens => token.toList ++ tokens

end Lexer

section Parser

/-- Words are the same in capitals and small letters. -/
def isKeyword (keyword : String) (w : List Char) : Bool := w.map Char.toUpper = keyword.toList

def Token.isWord (keyword : String) : Token → Bool
  | .word w => isKeyword keyword w
  | _ => false

/-- The operators between two operands with how strongly they bind. -/
def binaryOperator (token : Token) : Option (Nat × BinaryOperator) :=
  if token.isWord "OR" then some (1, .or)
  else if token.isWord "AND" then some (2, .and)
  else match token with
    | .symbol '+' => some (6, .add)
    | .symbol '-' => some (6, .subtract)
    | .symbol '*' => some (7, .multiply)
    | .symbol '/' => some (7, .divide)
    | _ => none

def truthOf (token : Token) : Option Truth :=
  if token.isWord "NULL" then some .null
  else if token.isWord "TRUE" then some .true
  else if token.isWord "FALSE" then some .false
  else none

/-- What IS says of the expression before it. -/
def isPredicate : List Token → Option (Bool × Truth × List Token)
  | [] => none
  | token :: rest =>
      if token.isWord "NOT" then
        match rest with
        | [] => none
        | token :: rest => (truthOf token).map fun truth => (true, truth, rest)
      else (truthOf token).map fun truth => (false, truth, rest)

/-- A closing parenthesis after what was read. -/
def closed {α : Type} (r : Option (α × List Token)) : Option (α × List Token) :=
  match r with
  | some (a, .symbol ')' :: rest) => some (a, rest)
  | _ => none

/-- Names with points between them. -/
def parsePath : List Token → Option (List (List Char) × List Token)
  | .identifier name :: .symbol '.' :: rest => (parsePath rest).map fun r => (name :: r.1, r.2)
  | .identifier name :: rest => some ([name], rest)
  | _ => none

/-- Whether a window is written after a call, and what is after it. -/
def parseWindow (tokens : List Token) : Bool × List Token :=
  match tokens with
  | word :: .symbol '(' :: .symbol ')' :: rest => if word.isWord "OVER" then (true, rest) else (false, tokens)
  | _ => (false, tokens)

mutual

/-- An expression whose operators bind at least so strongly. -/
def parseExpression : Nat → Nat → List Token → Option (Expression × List Token)
  | 0, _, _ => none
  | n + 1, least, tokens => (parsePrefix n tokens).bind fun r => parseInfix n least r.1 r.2

def parsePrefix : Nat → List Token → Option (Expression × List Token)
  | 0, _ => none
  | _ + 1, [] => none
  | n + 1, token :: rest =>
      match token with
      | .number text => some (.number text, rest)
      | .string text => some (.string text, rest)
      | .identifier name => some (.column name, rest)
      | .symbol c =>
          if c = '-' then (parseExpression n 8 rest).map fun r => (.sign true r.1, r.2)
          else if c = '+' then (parseExpression n 8 rest).map fun r => (.sign false r.1, r.2)
          else if c = '(' then
            if (rest.head?.any fun t => t.isWord "SELECT") then
              match parseExpression n 0 rest.tail with
              | some (e, keyword :: path) =>
                  if keyword.isWord "FROM" then closed ((parsePath path).map fun r => (.scalar e r.1, r.2)) else none
              | _ => none
            else closed (parseExpression n 0 rest)
          else none
      | .word w =>
          if isKeyword "NOT" w then (parseExpression n 3 rest).map fun r => (.not r.1, r.2)
          else match truthOf (.word w) with
            | some truth => some (.constant truth, rest)
            | none => match rest with
              | .symbol '(' :: rest => parseCall n w rest
              | _ => none

/-- A call after its opening parenthesis. -/
def parseCall : Nat → List Char → List Token → Option (Expression × List Token)
  | 0, _, _ => none
  | n + 1, name, tokens =>
      if (tokens.head?.any fun t => t.isWord "DISTINCT") then
        (parseArguments n tokens.tail).map fun r => (.call name true r.1 (parseWindow r.2).1, (parseWindow r.2).2)
      else (parseArguments n tokens).map fun r => (.call name false r.1 (parseWindow r.2).1, (parseWindow r.2).2)

/-- The arguments up to the closing parenthesis. -/
def parseArguments : Nat → List Token → Option (List Expression × List Token)
  | 0, _ => none
  | n + 1, tokens =>
      match parseExpression n 0 tokens with
      | some (e, .symbol ')' :: rest) => some ([e], rest)
      | some (e, .symbol ',' :: rest) => (parseArguments n rest).map fun r => (e :: r.1, r.2)
      | _ => none

/-- The operators after an expression. -/
def parseInfix : Nat → Nat → Expression → List Token → Option (Expression × List Token)
  | 0, _, _, _ => none
  | _ + 1, _, e, [] => some (e, [])
  | n + 1, least, e, token :: rest =>
      match binaryOperator token with
      | some (strength, operator) =>
          if strength < least then some (e, token :: rest)
          else (parseExpression n (strength + 1) rest).bind fun r => parseInfix n least (.binary operator e r.1) r.2
      | none =>
          if token.isWord "IS" then
            if 4 < least then some (e, token :: rest)
            else (isPredicate rest).bind fun r => parseInfix n least (.is e r.1 r.2.1) r.2.2
          else some (e, token :: rest)

end

section Equations

variable (n least : Nat) (e : Expression) (token : Token) (rest tokens : List Token) (name : List Char)

theorem parseExpression_succ :
    parseExpression (n + 1) least tokens = (parsePrefix n tokens).bind fun r => parseInfix n least r.1 r.2 := rfl

theorem parsePrefix_symbol (c : Char) : parsePrefix (n + 1) (.symbol c :: rest) =
    if c = '-' then (parseExpression n 8 rest).map fun r => (.sign true r.1, r.2)
    else if c = '+' then (parseExpression n 8 rest).map fun r => (.sign false r.1, r.2)
    else if c = '(' then
      if (rest.head?.any fun t => t.isWord "SELECT") then
        match parseExpression n 0 rest.tail with
        | some (e, keyword :: path) =>
            if keyword.isWord "FROM" then closed ((parsePath path).map fun r => (.scalar e r.1, r.2)) else none
        | _ => none
      else closed (parseExpression n 0 rest)
    else none := rfl

theorem parsePrefix_word (w : List Char) : parsePrefix (n + 1) (.word w :: rest) =
    if isKeyword "NOT" w then (parseExpression n 3 rest).map fun r => (.not r.1, r.2)
    else match truthOf (.word w) with
      | some truth => some (.constant truth, rest)
      | none => match rest with
        | .symbol '(' :: rest => parseCall n w rest
        | _ => none := rfl

theorem parseCall_succ : parseCall (n + 1) name tokens =
    if (tokens.head?.any fun t => t.isWord "DISTINCT") then
      (parseArguments n tokens.tail).map fun r => (.call name true r.1 (parseWindow r.2).1, (parseWindow r.2).2)
    else (parseArguments n tokens).map fun r => (.call name false r.1 (parseWindow r.2).1, (parseWindow r.2).2) := rfl

theorem parseArguments_succ : parseArguments (n + 1) tokens =
    match parseExpression n 0 tokens with
    | some (e, .symbol ')' :: rest) => some ([e], rest)
    | some (e, .symbol ',' :: rest) => (parseArguments n rest).map fun r => (e :: r.1, r.2)
    | _ => none := rfl

theorem parseInfix_cons : parseInfix (n + 1) least e (token :: rest) =
    match binaryOperator token with
    | some (strength, operator) =>
        if strength < least then some (e, token :: rest)
        else (parseExpression n (strength + 1) rest).bind fun r => parseInfix n least (.binary operator e r.1) r.2
    | none =>
        if token.isWord "IS" then
          if 4 < least then some (e, token :: rest)
          else (isPredicate rest).bind fun r => parseInfix n least (.is e r.1 r.2.1) r.2.2
        else some (e, token :: rest) := rfl

end Equations

/-- The expression that a whole text is. -/
def parse (n : Nat) (s : List Char) : Option Expression :=
  match (lex n s).bind (parseExpression n 0) with
  | some (e, []) => some e
  | _ => none

end Parser

end Wordflow.Library.SqlExpression
