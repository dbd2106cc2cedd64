import Wordflow.Library.Text
import Wordflow.Library.Fallible
import Wordflow.Renames
import Wordflow.Tables

namespace Wordflow.Annotation

open Library Library.Identifier Objects Renames Tables

structure Codebook where
  source : ObjectTarget
  code : String
  description : String
  deriving DecidableEq

structure ManualSetup where
  source : ObjectTarget
  document : String
  annotation : String
  correction : Option String
  codebook : Option Codebook
  deriving DecidableEq

/-- The corrections mode also carries a mutation stamp that only opening the
editor reads. -/
inductive EditRequest
  | manual (setup : ManualSetup)
  | corrections (setup : ManualSetup)
  | codebook (codebook : Codebook)
  deriving DecidableEq

structure Code where
  code : String
  description : String
  deriving DecidableEq

structure Patch where
  rowRef : String
  column : String
  value : Option String
  deriving DecidableEq

structure Insertion where
  values : List (String × Option String)
  deriving DecidableEq

structure Save where
  changes : List Patch
  deletions : List String
  insertions : List Insertion
  deriving DecidableEq

variable {V : Type}

/-- The loop over the rows of a Codebook, with the folded codes met so far. -/
def readCodes (sql : Sql V) : List String → List (Option String × Option String) → Except Error (List Code)
  | _, [] => .ok []
  | used, (code, description) :: rows => do
      let code := code.getD ""
      let description := description.getD ""
      let trimmed := Text.trim code
      if trimmed = "" ∨ trimmed.length > 200 ∨ description.length > 2000 then
        .error (.invalid
          "Codes must be nonblank and at most 200 characters; descriptions at most 2000 characters")
      else if sql.fold trimmed ∈ used then
        .error (.invalid ("Code " ++ trimmed.quote ++ " is duplicated ignoring case"))
      else
        let codes ← readCodes sql (sql.fold trimmed :: used) rows
        return ⟨trimmed, description⟩ :: codes

def cellText (sql : Sql V) (row : Row V) (name : String) : Option String :=
  (row.cells.find? fun c => c.1 = name).bind fun c => sql.text c.2

def readCodebook (sql : Sql V) (live : Catalogue V) (input : Codebook) : Except Error (List Code) := do
  let relation ← resolve live input.source
  let fields := live.columns relation
  if eqIgnoreAsciiCase input.code input.description ∨
      [input.code, input.description].any fun name => !fields.any fun f => f.1 = name ∧ f.2 = "VARCHAR" then
    .error (.invalid "Choose different string columns for codes and descriptions")
  else
    let rows := (((live.table? relation).map Table.rows).getD []).take 201
    if rows.length > 200 then .error (.invalid "A Codebook can contain at most 200 codes")
    else readCodes sql [] (rows.map fun r => (cellText sql r input.code, cellText sql r input.description))

namespace EditRequest

def target : EditRequest → ObjectTarget
  | .manual setup | .corrections setup => setup.source
  | .codebook book => book.source

def columns : EditRequest → List String
  | .manual setup => setup.annotation :: setup.correction.toList
  | .corrections setup => setup.correction.toList
  | .codebook book => [book.code, book.description]

/-- The loop of `validate` over the label columns, with the roles met so far. -/
def validateColumns (fields : List (String × String)) : List (List Char) → List String → Except Error Unit
  | _, [] => .ok ()
  | roles, name :: names =>
      if asciiLower name ∈ roles then .error (.invalid "Annotation roles must use different columns")
      else if !fields.any fun f => f.1 = name ∧ f.2 = "VARCHAR" then
        .error (.invalid ("Column " ++ name ++ " must be a string column"))
      else validateColumns fields (asciiLower name :: roles) names

def validateSetup (sql : Sql V) (live : Catalogue V) (fields : List (String × String)) (columns : List String)
    (setup : ManualSetup) : Except Error Unit :=
  if setup.correction.any fun name => eqIgnoreAsciiCase name setup.annotation || eqIgnoreAsciiCase name setup.document then
    .error (.invalid "Annotation roles must use different columns")
  else if !fields.any fun f => f.1 = setup.document ∧ f.2 = "VARCHAR" then
    .error (.invalid "Choose a string document column")
  else if columns.any fun name => eqIgnoreAsciiCase name setup.document then
    .error (.invalid "The document column cannot also contain labels")
  else match setup.codebook with
    | some book => (readCodebook sql live book).map fun _ => ()
    | none => .ok ()

def validate (sql : Sql V) (live : Catalogue V) (request : EditRequest) : Except Error Unit := do
  let relation ← resolve live request.target
  let fields := live.columns relation
  if request.columns = [] then
    .error (.invalid "Choose a correction column before editing corrections")
  else
    validateColumns fields [] request.columns
    match request with
    | .manual setup | .corrections setup => validateSetup sql live fields request.columns setup
    | .codebook _ => .ok ()

def labelPatch (codes : Option (List Code)) (patch : Patch) : Except Error Patch :=
  match patch.value with
  | none => .ok patch
  | some value =>
      if Text.trim value = "" ∨ codes.any fun codes => !codes.any fun code => code.code = Text.trim value then
        .error (.invalid
          ("Label " ++ value.quote ++ " is not in the current Codebook. Choose a valid code or None"))
      else .ok { patch with value := some (Text.trim value) }

def codePatch (code : String) (patch : Patch) : Patch :=
  if patch.column = code then { patch with value := patch.value.map Text.trim } else patch

def codeInsertion (code : String) (insertion : Insertion) : Insertion :=
  ⟨insertion.values.map fun v => if v.1 = code then (v.1, v.2.map Text.trim) else v⟩

def validateLabels (sql : Sql V) (live : Catalogue V) (setup : ManualSetup) (input : Save) : Except Error Save := do
  if input.deletions ≠ [] ∨ input.insertions ≠ [] then
    .error (.invalid "Annotation editing cannot add or delete documents")
  else
    let codes ← setup.codebook.mapM (readCodebook sql live)
    let changes ← input.changes.mapM (labelPatch codes)
    return { input with changes := changes }

/-- The edits an annotation session accepts: labels and codes are trimmed. -/
def validateChanges (sql : Sql V) (live : Catalogue V) (request : EditRequest) (input : Save) : Except Error Save :=
  match request with
  | .manual setup | .corrections setup => validateLabels sql live setup input
  | .codebook book =>
      .ok { input with
        changes := input.changes.map (codePatch book.code)
        insertions := input.insertions.map (codeInsertion book.code) }

def validateSaved (sql : Sql V) (live : Catalogue V) : EditRequest → Except Error Unit
  | .codebook book => (readCodebook sql live book).map fun _ => ()
  | .manual _ | .corrections _ => .ok ()

end EditRequest

/-- `Rename::request` on the serialized request of an annotation session. -/
def renameCodebook (rename : Rename) (codebook : Codebook) : Codebook :=
  if rename.recognizes codebook.source then
    ⟨rename.target codebook.source, rename.field codebook.code, rename.field codebook.description⟩
  else codebook

def renameSetup (rename : Rename) (setup : ManualSetup) : ManualSetup :=
  let setup :=
    if rename.recognizes setup.source then
      { setup with
        source := rename.target setup.source
        document := rename.field setup.document
        annotation := rename.field setup.annotation
        correction := setup.correction.map rename.field }
    else setup
  { setup with codebook := setup.codebook.map (renameCodebook rename) }

def renameRequest (rename : Rename) : EditRequest → EditRequest
  | .manual setup => .manual (renameSetup rename setup)
  | .corrections setup => .corrections (renameSetup rename setup)
  | .codebook book => .codebook (renameCodebook rename book)

end Wordflow.Annotation
