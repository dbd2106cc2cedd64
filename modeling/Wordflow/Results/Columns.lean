import Wordflow.Library.Quoting
import Wordflow.Registry.Database

namespace Wordflow.Results

open Library Library.Identifier Objects Registry

def quote (name : String) : List Char := Quoting.enclose '"' name.toList

/-- An item of a SELECT list. -/
structure Field where
  expression : List Char
  name : String
  deriving DecidableEq

def Field.sql (f : Field) : List Char := f.expression ++ (" AS ".toList ++ quote f.name)

def sourceField (name : String) : Field := ⟨"source.".toList ++ quote name, name⟩

section Matches

/-- The names that are taken, in lower case. -/
abbrev Names := List (List Char)

def retainedName (columns : List (String × String)) (text : String) (generated : List String) (requested : String) :
    Except Error String :=
  match columns.find? fun c => eqIgnoreAsciiCase c.1 requested with
  | none => .error (.invalid "Unknown retained column")
  | some (name, _) =>
      if eqIgnoreAsciiCase name text = false ∧ (generated.any fun field => eqIgnoreAsciiCase field name) = true then
        .error (.invalid ("Metadata column conflicts with a generated field: " ++ name))
      else .ok name

def retain (names : Names) (fields : List Field) (name : String) : Names × List Field :=
  if asciiLower name ∈ names then (names, fields) else (asciiLower name :: names, fields ++ [sourceField name])

/-- The loop over the requested columns. -/
def retainFrom (columns : List (String × String)) (text : String) (generated : List String) :
    Names → List Field → List String → Except Error (Names × List Field)
  | names, fields, [] => .ok (names, fields)
  | names, fields, requested :: rest => do
      let name ← retainedName columns text generated requested
      retainFrom columns text generated (retain names fields name).1 (retain names fields name).2 rest

/-- Original text keeps its name. Optional metadata cannot claim selected generated names. -/
def publicationFields (columns : List (String × String)) (text : String) (selected generated : List String) :
    Except Error (Names × List Field) :=
  retainFrom columns text generated [] [] (text :: selected)

/-- The loop that counts up while the name is taken, in so many rounds. -/
def nextName (names : Names) (stem : String) : Nat → String → Nat → Option String
  | 0, _, _ => none
  | rounds + 1, name, suffix =>
      if asciiLower name ∈ names then nextName names stem rounds (numbered stem suffix) (suffix + 1) else some name

/-- There is a free name among as many as are taken and one more. -/
def generatedName (names : Names) (stem : String) : String :=
  (nextName names stem (names.length + 1) stem 2).getD stem

end Matches

section Publications

inductive Projection
  | matches
  | documents
  deriving DecidableEq

def concordanceOutputs : List (String × String) :=
  [("left_context", "CONC_left_context"), ("matched_text", "CONC_matched_text"), ("right_context", "CONC_right_context"),
    ("start_idx", "CONC_start_idx"), ("end_idx", "CONC_end_idx"), ("l1", "CONC_l1"), ("r1", "CONC_r1"),
    ("l1_frequency", "CONC_l1_freq"), ("r1_frequency", "CONC_r1_freq"), ("extraction", "CONC_extraction")]

def outputName (field : String) : Except Error String :=
  match concordanceOutputs.find? fun o => o.1 = field with
  | some o => .ok o.2
  | none => .error (.invalid "Unknown match field")

def concordanceMatches : Names → List Field → List String → List String → Except Error (List Field)
  | _, fields, _, [] => .ok fields
  | names, fields, selected, field :: rest =>
      if field ∈ selected then .error (.invalid "Duplicate output field")
      else do
        let stem ← outputName field
        let output := generatedName names stem
        concordanceMatches (asciiLower output :: names) (fields ++ [⟨quote field, output⟩]) (field :: selected) rest

/-- The columns of a Concordance publication. -/
def concordanceColumns (columns : List (String × String)) (text : String) (projection : Projection)
    (metadata fields : List String) : Except Error (List Field) := do
  let retained ← publicationFields columns text metadata (concordanceOutputs.map Prod.snd)
  match projection with
  | .documents => return retained.2 ++ [⟨"CONC_extraction".toList, generatedName retained.1 "CONC_extraction"⟩]
  | .matches => concordanceMatches retained.1 retained.2 [] fields

def FIELDS : List String :=
  ["speaker", "speaker_start_idx", "speaker_end_idx", "quote", "quote_start_idx", "quote_end_idx", "verb", "verb_start_idx",
    "verb_end_idx", "quote_type", "quote_token_count", "is_floating_quote", "quote_row_idx"]

def quotationMatches : Names → List Field → List String → Except Error (List Field)
  | _, fields, [] => .ok fields
  | names, fields, field :: rest =>
      if field ∈ FIELDS then
        let output := generatedName names ("QUOTE_" ++ field)
        quotationMatches (asciiLower output :: names) (fields ++ [⟨quote field, output⟩]) rest
      else .error (.invalid "Unknown quotation field")

/-- The columns of a Quotation publication. -/
def quotationColumns (columns : List (String × String)) (text : String) (projection : Projection)
    (metadata fields : List String) : Except Error (List Field) := do
  let retained ← publicationFields columns text metadata (FIELDS.map ("QUOTE_" ++ ·) ++ ["QUOTE_extraction"])
  match projection with
  | .documents => return retained.2 ++ [⟨"QUOTE_extraction".toList, generatedName retained.1 "QUOTE_extraction"⟩]
  | .matches => quotationMatches retained.1 retained.2 fields

end Publications

section Downloads

structure ResultColumn where
  column : String
  isMetadata : Bool
  deriving DecidableEq

/-- The types that hold fields; a list says which its items hold. -/
inductive DataType
  | struct (fields : List String)
  | list (item : DataType)
  | other

/-- The rows that are downloaded: their columns, and what is said where one is not among them. -/
structure Schema where
  fields : List (String × DataType)
  missing : String → String

def Schema.fieldWithName (schema : Schema) (name : String) : Except Error DataType :=
  match schema.fields.find? fun f => f.1 = name with
  | some f => .ok f.2
  | none => .error ⟨"arrow_error", schema.missing name⟩

/-- The nested rows that have a field. -/
def nestedIn (schema : Schema) (column : String) : Option String :=
  ["quotes", "matches"].find? fun name =>
    match schema.fieldWithName name with
    | .ok (.list (.struct fields)) => fields.contains column
    | _ => false

def isPosition (column : String) : Bool :=
  "_start_idx".toList.isSuffixOf column.toList || "_end_idx".toList.isSuffixOf column.toList || column = "start_idx" ||
    column = "end_idx"

def isDocument (document column : ResultColumn) : Bool :=
  column.isMetadata = document.isMetadata && column.column = document.column

/-- Where a requested column is read from. -/
def columnExpression (schema : Schema) (hasDocument : Bool) (column : ResultColumn) : Except Error (List Char) :=
  if column.isMetadata then do
    match ← schema.fieldWithName "source" with
    | .struct fields =>
        if column.column ∈ fields then return "source.".toList ++ quote column.column
        else .error (.invalid "Unknown metadata column")
    | _ => .error (.invalid "Source metadata is unavailable")
  else do
    let expression ←
      match schema.fieldWithName column.column, nestedIn schema column.column with
      | .ok _, _ => .ok (quote column.column)
      | .error _, some nested =>
          .ok ("list_transform(".toList ++ (quote nested ++ (", item -> item.".toList ++ (quote column.column ++ [')']))))
      | .error _, none => .error (.invalid "Unknown generated download column")
    if !hasDocument && isPosition column.column then .error (.invalid "Position fields require the document column")
    else return expression

/-- A column that keeps its name. -/
def keepsName (document column : ResultColumn) : Bool := column.isMetadata || isDocument document column

/-- The loop over the requested columns, with those before them. -/
def selectFrom (schema : Schema) (document : ResultColumn) (hasDocument : Bool) :
    Names → List ResultColumn → List Field → List ResultColumn → Except Error (List Field)
  | _, _, selected, [] => .ok selected
  | names, requested, selected, column :: rest =>
      if column ∈ requested then .error (.invalid "Each download column may appear only once")
      else do
        let expression ← columnExpression schema hasDocument column
        if keepsName document column then
          selectFrom schema document hasDocument names (column :: requested) (selected ++ [⟨expression, column.column⟩]) rest
        else
          let output := generatedName names column.column
          selectFrom schema document hasDocument (asciiLower output :: names) (column :: requested)
            (selected ++ [⟨expression, output⟩]) rest

/-- The columns of a result download. -/
def downloadColumns (schema : Schema) (document : ResultColumn) (columns : List ResultColumn) : Except Error (List Field) :=
  if columns = [] then .error (.invalid "Choose at least one download column")
  else
    selectFrom schema document (columns.any (isDocument document))
      ((columns.filter (keepsName document)).map fun column => asciiLower column.column) [] [] columns

end Downloads

end Wordflow.Results
