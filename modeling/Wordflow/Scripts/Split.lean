import Wordflow.Library.Identifier
import Wordflow.Library.Scan
import Wordflow.Objects

namespace Wordflow.Scripts

open Library Library.Identifier Objects

/-- An `Error` with its `statement_index`. -/
structure Failure where
  error : Error
  statement_index : Option ℕ
  deriving DecidableEq, Repr

def invalid (message : String) : Failure := ⟨.invalid message, none⟩

/-- Positions count characters: every byte the lexer tests is ASCII, so it never
stops inside a character. `stop` is the source's `end`. -/
structure Token where
  start : ℕ
  value : List Char
  quoted : Bool
  stop : ℕ
  deriving DecidableEq, Repr

def Token.is (t : Token) (word : String) : Bool :=
  !t.quoted && t.value.map Char.toLower == asciiLower word

def splitInclusive {α : Type*} (p : α → Bool) : List α → List (List α)
  | [] => []
  | x :: xs =>
      if p x then [x] :: splitInclusive p xs
      else match splitInclusive p xs with
        | [] => [[x]]
        | part :: parts => (x :: part) :: parts

def lexical_error (message : String) (preceding : List Token) : Failure :=
  { invalid message with
    statement_index := some (((splitInclusive (·.is ";") preceding).filter fun part =>
      part.getLast?.any (·.is ";") && part.any (!·.is ";")).length) }

def isAsciiWhitespace (c : Char) : Bool :=
  c == ' ' || c == '\t' || c == '\n' || c == '\x0C' || c == '\r'

def startsWith (pattern s : List Char) : Bool := pattern.isPrefixOf s

/-- How far the loops of `tokens` move `i` from its place in the text. -/
def lineLength (s : List Char) : ℕ := (s.takeWhile (· != '\n')).length

def commentLength : ℕ → List Char → Option ℕ
  | 0, _ => some 0
  | _ + 1, [] => none
  | depth + 1, [_] => commentLength (depth + 1) []
  | depth + 1, c :: d :: s =>
      if c = '/' ∧ d = '*' then (commentLength (depth + 2) s).map (· + 2)
      else if c = '*' ∧ d = '/' then (commentLength depth s).map (· + 2)
      else (commentLength (depth + 1) (d :: s)).map (· + 1)

def quoteLength (delimiter : Char) (escaped : Bool) : List Char → Option ℕ
  | [] => none
  | [c] => if escaped && c == '\\' then none else if c = delimiter then some 1 else none
  | c :: d :: s =>
      if escaped && c == '\\' then (quoteLength delimiter escaped s).map (· + 2)
      else if c = delimiter then
        if d = delimiter then (quoteLength delimiter escaped s).map (· + 2) else some 1
      else (quoteLength delimiter escaped (d :: s)).map (· + 1)

def wordStops : List Char → Bool
  | [] => true
  | c :: s =>
      isAsciiWhitespace c || ['(', ')', ';', ',', '.', '\'', '"'].contains c ||
        startsWith ['-', '-'] (c :: s) || startsWith ['/', '*'] (c :: s)

def wordLength : List Char → ℕ
  | [] => 0
  | c :: s => if wordStops (c :: s) then 0 else wordLength s + 1

def find (pattern : List Char) : List Char → Option ℕ
  | [] => if pattern = [] then some 0 else none
  | c :: s => if startsWith pattern (c :: s) then some 0 else (find pattern s).map (· + 1)

/-- `value.replace(&q.repeat(2), &q)` -/
def undouble (q : Char) : List Char → List Char
  | a :: b :: s => if a = q ∧ b = q then q :: undouble q s else a :: undouble q (b :: s)
  | s => s

def dollar_tag : List Char → Option (List Char)
  | [] => none
  | c :: s =>
      let inner := s.takeWhile (· != '$')
      if '$' ∈ s ∧ inner.all (fun c => c.isAlphanum || c == '_') then some (c :: inner ++ ['$'])
      else none

abbrev Scanned := (List Token × ℕ) × ℕ

def skipped (out : List Token) (i n : ℕ) : Scanned := ((out, i + n), n)

def pushed (out : List Token) (i n : ℕ) (value : List Char) (quoted : Bool) : Scanned :=
  ((out ++ [⟨i, value, quoted, i + n⟩], i + n), n)

/-- One round of the loop of `tokens`: the tokens so far and `i`, over the text
from `i` on. -/
def scan (st : List Token × ℕ) : List Char → Except Failure Scanned
  | [] => .ok (skipped st.1 st.2 0)
  | c :: s =>
      if isAsciiWhitespace c then .ok (skipped st.1 st.2 1)
      else if startsWith ['-', '-'] (c :: s) then .ok (skipped st.1 st.2 (lineLength (c :: s)))
      else if startsWith ['/', '*'] (c :: s) then
        match commentLength 1 (s.drop 1) with
        | none => .error (lexical_error "Unclosed SQL comment" st.1)
        | some n => .ok (skipped st.1 st.2 (n + 2))
      else if c = '\'' ∨ c = '"' then
        let escaped := c == '\'' && st.1.getLast?.any fun t => t.is "E" && t.stop == st.2
        match quoteLength c escaped s with
        | none => .error (lexical_error "Unclosed SQL quote" st.1)
        | some n => .ok (pushed st.1 st.2 (n + 1) (undouble c (s.take (n - 1))) true)
      else
        match (if c = '$' then dollar_tag (c :: s) else none) with
        | some tag =>
            match find tag ((c :: s).drop tag.length) with
            | none => .error (lexical_error "Unclosed dollar quote" st.1)
            | some n =>
                let m := tag.length + (n + tag.length)
                .ok (pushed st.1 st.2 m ((c :: s).take m) true)
        | none =>
            if ['(', ')', ';', ',', '.'].contains c then .ok (pushed st.1 st.2 1 [c] false)
            else .ok (pushed st.1 st.2 (wordLength s + 1) (c :: s.take (wordLength s)) false)

def tokens (sql : List Char) : Except Failure (List Token) :=
  (Scan.drive scan 0 ([], 0) sql).map (·.1)

def slice (sql : List Char) (start stop : ℕ) : List Char := (sql.drop start).take (stop - start)

structure Splitting where
  statements : List (List Char)
  start : ℕ
  has_statement : Bool

def splitStep (sql : List Char) (st : Splitting) (token : Token) : Splitting :=
  if token.is ";" then
    { statements :=
        if st.has_statement then st.statements ++ [slice sql st.start token.stop] else st.statements
      start := token.stop
      has_statement := false }
  else { st with has_statement := true }

def split_script (sql : List Char) : Except Failure (List (List Char)) := do
  let t ← tokens sql
  let st := t.foldl (splitStep sql) ⟨[], 0, false⟩
  .ok (if st.has_statement then st.statements ++ [sql.drop st.start] else st.statements)

def reserved : List String :=
  ["BEGIN", "START", "COMMIT", "END", "ROLLBACK", "ABORT", "SAVEPOINT", "RELEASE", "PREPARE", "EXECUTE",
    "ATTACH", "DETACH", "INSTALL", "LOAD", "PRAGMA"]

def validate_statement (sql : List Char) : Except Failure Unit := do
  let t ← tokens sql
  match t.head? with
  | none => .error (invalid "Empty SQL statement")
  | some first =>
      if t.zipIdx.any fun (token, i) => token.is ";" && i + 1 != t.length then
        .error (invalid "Each batch entry must contain exactly one statement")
      else if (first.is "SET" || first.is "RESET") &&
          !t[1]?.any fun scope => scope.is "VARIABLE" || scope.is "SESSION" then
        .error (invalid
          "Use explicit SESSION or VARIABLE scope; shared settings belong to the project runtime")
      else if reserved.any first.is then
        .error (invalid "Transactions and connection configuration belong to the project runtime")
      else .ok ()

end Wordflow.Scripts
