import Wordflow.Build.Operations

namespace Wordflow.Build

structure ColumnInfo where
  name : String
  field : ArrowField

section Types

/-- The name of a type, with the types of its elements. -/
def BuildType.label : BuildType → String
  | .list element => "list of " ++ element.label
  | type => type.family

def knownTypes (chains : List BuildChain) : List BuildType := (chains.map BuildChain.type).filter fun t => t ≠ .null

def all (chains : List BuildChain) (expected : String) : Bool := (knownTypes chains).all fun t => t.family = expected

def commonType (types : List BuildType) : BuildType :=
  match types.filter fun t => t ≠ .null with
  | [] => .unknown
  | first :: rest => if (first :: rest).all fun t => t.label = first.label then first else .unknown

end Types

section Combinations

structure CombinationDefinition where
  label : String
  accepts : List BuildChain → Bool

/-- The catalogue of combinations. -/
def buildCombination : CombinationKind → CombinationDefinition
  | .text => { label := "Join text"
               accepts := fun p => (knownTypes p).all fun t => t.family ∉ ["list", "unknown", "unsupported"] }
  | .add => { label := "Add", accepts := fun p => all p "number" }
  | .subtract => { label := "Subtract in order", accepts := fun p => all p "number" }
  | .multiply => { label := "Multiply", accepts := fun p => all p "number" }
  | .divide => { label := "Divide in order", accepts := fun p => all p "number" }
  | .greatest => { label := "Greatest", accepts := fun p => all p "number" }
  | .least => { label := "Least", accepts := fun p => all p "number" }
  | .coalesce => { label := "First non-NULL", accepts := fun _ => true }
  | .list => { label := "Make list", accepts := fun _ => true }
  | .listConcat => { label := "Concatenate lists", accepts := fun p => all p "list" }
  | .and => { label := "AND", accepts := fun p => all p "boolean" }
  | .or => { label := "OR", accepts := fun p => all p "boolean" }

/-- `inputs.reduce((left, right) => ...)`. -/
def operated (operator : String) : List (List Char) → List Char
  | [] => ("(/* add input */ " ++ operator ++ " /* add input */)").toList
  | first :: rest =>
      rest.foldl (fun left right => parenthesized left ++ (' ' :: (operator.toList ++ (' ' :: parenthesized right)))) first

/-- A call without inputs shows where they go. -/
def shownInputs (values : List (List Char)) : List (List Char) := if values = [] then ["/* add input */".toList] else values

def combineSql (values : List (List Char)) (combination : Option Combination) : List Char :=
  match combination with
  | none => "<choose_function>(\n".toList ++ (join ",\n" (shownInputs values) ++ "\n)".toList)
  | some combination =>
      match combination.kind with
      | .text => call "concat_ws" (literal combination.separator :: shownInputs values)
      | .add => operated "+" values
      | .subtract => operated "-" values
      | .multiply => operated "*" values
      | .divide => operated "/" values
      | .and => operated "AND" values
      | .or => operated "OR" values
      | .greatest => call "greatest" (shownInputs values)
      | .least => call "least" (shownInputs values)
      | .coalesce => call "coalesce" (shownInputs values)
      | .list => call "list_value" (shownInputs values)
      | .listConcat => call "list_concat" (shownInputs values)

def combinedType (kind : CombinationKind) (types : List BuildType) : BuildType :=
  match kind with
  | .text => .text
  | .and | .or => .boolean
  | .add | .subtract | .multiply | .divide => if .unknown ∈ types then .unknown else .number
  | .list => .list (commonType types)
  | .greatest | .least | .coalesce | .listConcat => commonType types

def combine (parts : List BuildChain) (combination : Option Combination) : Except String BuildChain :=
  match combination with
  | none => .error "Choose how to combine these bubbles"
  | some chosen =>
      if parts = [] then .error "Add an expression to the function"
      else if .unknown ∉ parts.map BuildChain.type && !(buildCombination chosen.kind).accepts parts then
        .error ((buildCombination chosen.kind).label ++ " is unavailable for these part types. Choose another combination.")
      else .ok {
        sql := combineSql (parts.map BuildChain.sql) combination
        type := combinedType chosen.kind (parts.map BuildChain.type)
        summarized := parts.any BuildChain.summarized }

end Combinations

section Parts

/-- The operations of a part in order, with what an error says before it. -/
def applyOperations (step : Nat → String) (chain : BuildChain) : Nat → List BuildOperation → Except String BuildChain
  | _, [] => .ok chain
  | index, operation :: rest =>
      match applyBuildOperation chain operation with
      | .error message => .error (step (index + 1) ++ message)
      | .ok chain => applyOperations step chain (index + 1) rest

def columnChain (column : String) (field : Option ArrowField) (operations : List BuildOperation) : Except String BuildChain :=
  match field with
  | none => .error ("Column “" ++ column ++ "” is unavailable")
  | some field =>
      applyOperations (fun index => "Column “" ++ column ++ "”, step " ++ toString index ++ ": ")
        { sql := identifier column, type := buildType field, summarized := false } 0 operations

/-- Raw SQL on lines of its own. -/
def rawSql (expression : String) : List Char := "(\n".toList ++ (expression.toList ++ "\n)".toList)

def sqlChain (expression : String) : Except String BuildChain :=
  if trim expression.toList = [] then .error "Enter a SQL expression"
  else .ok { sql := rawSql expression, type := .unknown, summarized := false }

def literalChain (literalType : LiteralType) (value : String) : Except String BuildChain :=
  match literalType with
  | .number =>
      if isNumber (trim value.toList) then .ok { sql := trim value.toList, type := .number, summarized := false }
      else .error "Enter a number"
  | .boolean =>
      if value ∈ ["true", "false"] then .ok { sql := value.toList.map Char.toUpper, type := .boolean, summarized := false }
      else .error "Choose true or false"
  | .text => .ok { sql := literal value, type := .text, summarized := false }
  | .null => .ok { sql := "NULL".toList, type := .null, summarized := false }

abbrev Part := BuilderToken BuildOperation

def partStep (index : Nat) : String := "Step " ++ toString index ++ ": "

mutual

def partChain (columns : List ColumnInfo) : Part → Except String BuildChain
  | .column _ operations column => do
      let chain ← columnChain column ((columns.find? fun c => c.name = column).map ColumnInfo.field) []
      applyOperations partStep chain 0 operations
  | .combination _ operations combination children => do
      let chains ← partChains columns children
      let chain ← combine chains combination
      applyOperations partStep chain 0 operations
  | .sql _ operations expression => do
      let chain ← sqlChain expression
      applyOperations partStep chain 0 operations
  | .literal _ operations literalType value => do
      let chain ← literalChain literalType value
      applyOperations partStep chain 0 operations

/-- `part.children.map((child) => partChain(child, columns))`. -/
def partChains (columns : List ColumnInfo) : List Part → Except String (List BuildChain)
  | [] => .ok []
  | part :: rest => do
      let chain ← partChain columns part
      let chains ← partChains columns rest
      return chain :: chains

end

inductive BuildDefinition
  | visual (roots : List Part)
  | sql (expression : String)

def buildExpression (definition : BuildDefinition) (columns : List ColumnInfo) : Except String (List Char) :=
  match definition with
  | .visual [] => .error "Add a column or value to build an expression"
  | .visual [root] => (partChain columns root).map BuildChain.sql
  | .visual (_ :: _ :: _) => .error "Choose how to combine the root bubbles"
  | .sql expression =>
      if trim expression.toList = [] then .error "Enter a DuckDB expression" else .ok (rawSql expression)

end Parts

end Wordflow.Build
