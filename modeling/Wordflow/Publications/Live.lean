import Wordflow.Library.Run
import Wordflow.Library.Text
import Wordflow.Renames

namespace Wordflow.Publications

open Library Library.Identifier Objects Renames

/-- A relation by what defines it: a Table, the query of a View, or a View that a
column rename has wrapped, `SELECT …, before AS after, … FROM (previous)`. -/
inductive Query
  | table (columns : List String)
  | view (columns : List String)
  | renamed (previous : Query) (before after : String)
  deriving DecidableEq

def Query.names : Query → List String
  | .table columns | .view columns => columns
  | .renamed previous before after => previous.names.map fun field => if field = before then after else field

/-- A relation of the catalogue, with the types of its columns. -/
structure Entry where
  relation : Relation
  query : Query
  kinds : List String
  deriving DecidableEq

def Entry.names (e : Entry) : List String := e.query.names

structure Annotation where
  path : List String
  extension : String
  payload : Option String
  deriving DecidableEq

/-- Source field bindings, each with the column that shows it. -/
structure PublicationSource where
  input : DocumentInput
  fields : List (String × String)
  deriving DecidableEq

structure Publication where
  nodeName : String
  bindings : PublicationSource
  deriving DecidableEq

structure State where
  catalogue : List Entry
  nodes : List String
  publications : List Publication
  annotations : List (Relation × Annotation)

section Bindings

variable (rename : Rename)

def renameOutputs (nodeName : String) (binding : PublicationSource) : PublicationSource :=
  match rename with
  | .table _ _ => binding
  | .column source _ _ =>
      if eqIgnoreAsciiCase source.schema "data" && eqIgnoreAsciiCase source.name nodeName then
        { binding with fields := binding.fields.map fun f => (f.1, rename.field f.2) }
      else binding

def renameInputs (binding : PublicationSource) : PublicationSource :=
  if rename.recognizes binding.input.source then
    match rename with
    | .table _ name =>
        { binding with input := { binding.input with source := { binding.input.source with name := name } } }
    | .column _ _ _ =>
        { input := { binding.input with column := rename.field binding.input.column }
          fields := binding.fields.map fun f => (rename.field f.1, f.2) }
  else binding

def renamePublicationSource (publications : List Publication) : List Publication :=
  publications.map fun p => { p with bindings := renameOutputs rename p.nodeName (renameInputs rename p.bindings) }

end Bindings

def renamePublication (source : Relation) (name : String) (publications : List Publication) : List Publication :=
  if source.schema = "data" then
    publications.map fun p => if p.nodeName = source.name then { p with nodeName := name } else p
  else publications

section Annotations

variable (annotations : List (Relation × Annotation))

def loadAnnotations (relation : Relation) : List Annotation :=
  (annotations.filter fun e => e.1 = relation).map Prod.snd

def storeAnnotations (relation : Relation) (stored : List Annotation) : List (Relation × Annotation) :=
  annotations ++ stored.map fun a => (relation, a)

def renameRelation (source : Relation) (name : String) : List (Relation × Annotation) :=
  annotations.map fun e => if e.1 = source then ({ source with name := name }, e.2) else e

def renameHead (after : String) (a : Annotation) : Annotation := { a with path := after :: a.path.tail }

def renameColumnAnnotations (relation : Relation) (before : String) (after : Option String) : List (Relation × Annotation) :=
  let moved := (loadAnnotations annotations relation).filter fun a => a.path.head? = some before
  let rest := annotations.filter fun e => !(e.1 = relation && e.2.path.head? = some before)
  match after with
  | some after => storeAnnotations rest relation (moved.map (renameHead after))
  | none => rest

end Annotations

section Operations

variable (s : State)

def State.entry (relation : Relation) : Option Entry := s.catalogue.find? fun e => e.relation = relation

/-- The columns of a relation with their types. -/
def State.columns (relation : Relation) : List (String × String) :=
  ((s.entry relation).map fun e => e.names.zip e.kinds).getD []

def State.names (relation : Relation) : List String := ((s.entry relation).map Entry.names).getD []

def resolve (target : ObjectTarget) : Except Error Relation :=
  match target.schema with
  | none =>
      match s.nodes.find? fun n => eqIgnoreAsciiCase n target.name with
      | some name => .ok ⟨"data", name⟩
      | none => .error ⟨"node_not_found", "Data Block is not registered"⟩
  | some schema =>
      if eqIgnoreAsciiCase schema "wordflow" then .error (.invalid "Wordflow metadata is not a data object")
      else
        match s.catalogue.find? fun e =>
            eqIgnoreAsciiCase e.relation.schema schema && eqIgnoreAsciiCase e.relation.name target.name with
        | some e => .ok e.relation
        | none => .error ⟨"object_not_found", "Database object is unavailable"⟩

def columnName (relation : Relation) (input : String) : Except Error String :=
  match (s.names relation).find? fun name => eqIgnoreAsciiCase name input with
  | some name => .ok name
  | none => .error (.invalid ("Column is unavailable: " ++ input))

def setEntry (relation : Relation) (change : Entry → Entry) : List Entry :=
  s.catalogue.map fun e => if e.relation = relation then change e else e

/-- What the catalogue does with a new name that another relation of the schema has. -/
def occupied (source : Relation) (name : String) : Bool :=
  s.catalogue.any fun e => decide (e.relation ≠ source) && Relation.same e.relation { source with name := name }

def renameNode (target : ObjectTarget) (name : String) : Except Error State := do
  let name := Text.trim name
  if name.isEmpty then .error (.invalid "Table name cannot be empty")
  else
    let source ← resolve s target
    if source.name = name then .ok s
    else if occupied s source name then .error ⟨"sql_error", "An entry with this name already exists"⟩
    else
      .ok {
        catalogue := setEntry s source fun e => { e with relation := { source with name := name } }
        nodes := if source.schema = "data" then s.nodes.map fun n => if n = source.name then name else n else s.nodes
        publications := renamePublication source name (renamePublicationSource (.table source name) s.publications)
        annotations := renameRelation s.annotations source name }

def Query.rename (query : Query) (before after : String) : Query :=
  match query with
  | .table columns => .table (columns.map fun field => if field = before then after else field)
  | _ => .renamed query before after

def changeColumn (target : ObjectTarget) (column name : String) : Except Error State := do
  let relation ← resolve s target
  let before ← columnName s relation column
  let name := Text.trim name
  if name.isEmpty then .error (.invalid "Column name cannot be empty")
  else if (s.names relation).any fun field => field ≠ before && eqIgnoreAsciiCase field name then
    .error (.invalid "A column with this name already exists")
  else
    .ok { s with
      catalogue := setEntry s relation fun e => { e with query := e.query.rename before name }
      publications := renamePublicationSource (.column relation before name) s.publications
      annotations := renameColumnAnnotations s.annotations relation before (some name) }

/-- The select list of a wrapper, each reference with its other name. -/
def selectList (previous : Query) (before after : String) : List (String × Option String) :=
  previous.names.map fun field => (field, if field = before then some after else none)

/-- The one column that a wrapper of `inner` renames. -/
def wrapper (wrapped inner : Query) : Option (String × String) :=
  match wrapped with
  | .renamed previous before after =>
      if previous ≠ inner then none
      else
        match (selectList previous before after).filterMap fun f =>
            (f.2.filter fun shown => f.1 ≠ shown).map fun shown => (f.1, shown) with
        | [rename] => some rename
        | _ => none
  | _ => none

def viewRename (source : Relation) (old new : Query) : Option Rename :=
  match wrapper old new with
  | some (before, after) => some (.column source after before)
  | none => (wrapper new old).map fun r => .column source r.1 r.2

/-- `restore_view_definition` without a definition: undo the wrapper of a rename. -/
def undo (target : ObjectTarget) : Except Error State := do
  let relation ← resolve s target
  match (s.entry relation).map Entry.query with
  | some (.renamed previous before after) =>
      let current := Query.renamed previous before after
      let catalogue := setEntry s relation fun e => { e with query := previous }
      match viewRename relation current previous with
      | some (.column source before after) =>
          .ok { s with
            catalogue := catalogue
            publications := renamePublicationSource (.column source before after) s.publications
            annotations := renameColumnAnnotations s.annotations relation before (some after) }
      | _ => .ok { s with catalogue := catalogue }
  | some (.view _) => .error ⟨"nothing_to_undo", "No Wordflow query wrapper to undo"⟩
  | _ => .error ⟨"nothing_to_undo", "Stored tables have no query undo"⟩

def bindingRelation (binding : PublicationSource) : Relation :=
  ⟨binding.input.source.schema.getD "data", binding.input.source.name⟩

/-- The refresh of one publication; `rebind` gives the columns of a View that the
database can define again. -/
def refreshPublication (rebind : Relation → Option (List (String × String))) (annotations : List (Relation × Annotation))
    (p : Publication) : List (Relation × Annotation) :=
  let target : Relation := ⟨"data", p.nodeName⟩
  match rebind target with
  | none => annotations
  | some after =>
      let kept := (s.columns target).foldl (fun annotations column =>
        if after.contains column then annotations else renameColumnAnnotations annotations target column.1 none) annotations
      let inherited := loadAnnotations kept (bindingRelation p.bindings)
      p.bindings.fields.foldl (fun annotations f =>
        let annotations := renameColumnAnnotations annotations target f.2 none
        if (s.columns (bindingRelation p.bindings)).any fun c => c.1 = f.1 && after.contains (f.2, c.2) then
          storeAnnotations annotations target
            ((inherited.filter fun a => a.path.head? = some f.1).map (renameHead f.2))
        else annotations) kept

def refreshPublications (rebind : Relation → Option (List (String × String))) (affected : List Relation) (all : Bool) :
    State :=
  let live := s.publications.filter fun p => all || affected.contains ⟨"data", p.nodeName⟩
  { s with annotations := live.foldl (refreshPublication s rebind) s.annotations }

end Operations

inductive Operation
  | renameNode (target : ObjectTarget) (name : String)
  | renameColumn (target : ObjectTarget) (column name : String)
  | undo (target : ObjectTarget)
  | refresh (rebind : Relation → Option (List (String × String))) (affected : List Relation) (all : Bool)

/-- An operation that is accepted; one that is refused is rolled back. -/
def apply (s : State) : Operation → Option State
  | .renameNode target name => (renameNode s target name).toOption
  | .renameColumn target column name => (changeColumn s target column name).toOption
  | .undo target => (undo s target).toOption
  | .refresh rebind affected all => some (refreshPublications s rebind affected all)

end Wordflow.Publications
