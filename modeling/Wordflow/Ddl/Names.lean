import Wordflow.Ddl.Portable
import Wordflow.Scripts.Follow

namespace Wordflow.Ddl

open Library Library.Identifier Library.Quoting Scripts

def mark (c : Char) : Lexeme := ⟨.punctuation, [c]⟩

/-- The name that a lexeme spells. -/
def nameValue (ℓ : Lexeme) : Option (List Char) :=
  match ℓ.kind with
  | .name => some ℓ.text
  | .quotedName => some (undouble '"' ℓ.text.tail.dropLast)
  | _ => none

def stringValue (ℓ : Lexeme) : List Char := undouble '\'' ℓ.text.tail.dropLast

/-- A name with the tokens after it that is qualified twice, first with the database. -/
def qualified (database : String) (ℓ : Lexeme) (ahead : List Lexeme) : Bool :=
  (nameValue ℓ).any (sameName database) &&
    match ahead with
    | p1 :: p2 :: p3 :: p4 :: _ => p1 == mark '.' && (nameValue p2).isSome && p3 == mark '.' && (nameValue p4).isSome
    | _ => false

/-- The schema and the name of the sequence that a text names with its database. -/
def sequenceNamed (database : String) (value : List Char) : Option (List Char × List Char) :=
  match tokensOf value with
  | [p0, p1, p2, p3, p4] =>
      if (nameValue p0).any (sameName database) && p1 == mark '.' && p3 == mark '.' then
        match nameValue p2, nameValue p4 with
        | some schema, some name => some (schema, name)
        | _, _ => none
      else none
  | _ => none

def isSequenceFunction (ℓ : Lexeme) : Bool := ℓ.isKeyword "nextval" || ℓ.isKeyword "currval"

/-- The tokens before a lexeme, the last one first. -/
def push (before : List Lexeme) (ℓ : Lexeme) : List Lexeme := if ℓ.isToken then ℓ :: before else before

/-- The database part of a qualified name, which no other part precedes. -/
def leading (database : String) (before : List Lexeme) (ℓ : Lexeme) (after : List Lexeme) : Bool :=
  before.head? != some (mark '.') && qualified database ℓ (after.filter Lexeme.isToken)

/-- The string that takes the place of one in a call of `nextval` or `currval`. -/
def rebasedString (database : String) (before : List Lexeme) (ℓ : Lexeme) (after : List Lexeme) : Option Lexeme :=
  match before with
  | p1 :: p0 :: _ =>
      if isSequenceFunction p0 && p1 == mark '(' && ℓ.kind == .string &&
          (after.filter Lexeme.isToken).head? == some (mark ')') then
        (sequenceNamed database (stringValue ℓ)).map fun s => ⟨.string, sequenceLiteral s.1 s.2⟩
      else none
  | _ => none

/-- The lexemes from after a database part up to the end of its dot. -/
def partLength (after : List Lexeme) : ℕ := (after.takeWhile (!·.isToken)).length + 1

/-- The lexemes of a text without the database parts of its qualified names and with
its sequences rebased. Comments are kept also inside a part. -/
def rebased (database : String) : ℕ → List Lexeme → List Lexeme → List Lexeme
  | _, _, [] => []
  | skip + 1, before, ℓ :: ls =>
      (if ℓ.kind = .lineComment ∨ ℓ.kind = .blockComment then [ℓ] else []) ++ rebased database skip (push before ℓ) ls
  | 0, before, ℓ :: ls =>
      if leading database before ℓ ls then rebased database (partLength ls) (push before ℓ) ls
      else (rebasedString database before ℓ ls).getD ℓ :: rebased database 0 (push before ℓ) ls

end Wordflow.Ddl
