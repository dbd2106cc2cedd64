import Wordflow.Library.Identifier

namespace Wordflow.Objects

open Library.Identifier

structure Error where
  code : String
  message : String
  deriving DecidableEq, Repr

def Error.invalid (message : String) : Error := ⟨"invalid_request", message⟩

/-- A catalogue object of the open database. -/
structure Relation where
  schema : String
  name : String
  deriving DecidableEq, Repr

/-- A relation as a caller names it; an absent schema means `data`. -/
structure ObjectTarget where
  schema : Option String
  name : String
  deriving DecidableEq, Repr

def ObjectTarget.toText (target : ObjectTarget) : String :=
  match target.schema with
  | some schema => schema ++ "." ++ target.name
  | none => target.name

/-- A text column of a source, as a request binds it. -/
structure DocumentInput where
  source : ObjectTarget
  column : String
  deriving DecidableEq, Repr

namespace Relation

def same (a b : Relation) : Bool :=
  eqIgnoreAsciiCase a.schema b.schema && eqIgnoreAsciiCase a.name b.name

theorem same_iff {a b : Relation} :
    same a b = true ↔ asciiLower a.schema = asciiLower b.schema ∧ asciiLower a.name = asciiLower b.name := by
  simp [same, eqIgnoreAsciiCase_iff]

@[simp]
theorem same_refl (a : Relation) : same a a = true := by simp [same]

theorem same_comm (a b : Relation) : same a b = same b a := by
  simp only [same, eqIgnoreAsciiCase_comm]

end Relation

end Wordflow.Objects
