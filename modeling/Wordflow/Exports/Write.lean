import Wordflow.Exports.Plan
import Wordflow.Library.Worklist

namespace Wordflow.Exports

open Library Library.Identifier Objects Tables
open Registry (Node Edge TokenizerModel)

inductive Object (K V : Type)
  | table (rows : Rows V)
  | view (query : Query K)

def Object.isView {K V : Type} : Object K V → Bool
  | .table _ => false
  | .view _ => true

/-- The attached database. -/
structure Destination (K V : Type) where
  objects : List (Relation × Object K V)
  nodes : List Node
  edges : List Edge
  tokenizerModels : List TokenizerModel
  arrowMetadata : List ArrowMetadata

variable {K V : Type}

namespace Destination

variable (d : Destination K V)

/-- A statement finds a relation in any letter case. -/
def lookup (relation : Relation) : Option (Relation × Object K V) := d.objects.find? fun o => o.1.same relation

def has (relation : Relation) : Bool := (d.lookup relation).isSome

def put (relation : Relation) (object : Object K V) : Destination K V :=
  { d with objects := d.objects.filter (fun o => !o.1.same relation) ++ [(relation, object)] }

end Destination

section Statements

variable (engine : Engine K V)

def contextual (relation : Relation) (error : Error) : Error :=
  { error with message := "Export " ++ relationSql relation ++ ": " ++ error.message }

def createTable (d : Destination K V) (relation : Relation) (rows : Rows V) (parents : List Relation) :
    Except Error (Destination K V) := do
  engine.statement relation
  if d.has relation then .error (sqlError ("Catalog Error: Table " ++ relation.name ++ " already exists"))
  else if parents.any fun p => !p.same relation && !d.has p then
    .error (sqlError "Catalog Error: the referenced table does not exist")
  else return d.put relation (.table rows)

/-- CREATE OR REPLACE VIEW binds the tables of its query. -/
def createView (d : Destination K V) (relation : Relation) (query : Query K) : Except Error (Destination K V) := do
  engine.statement relation
  if (d.lookup relation).any fun o => !o.2.isView then
    .error (sqlError ("Catalog Error: Existing object " ++ relation.name ++ " is of type Table"))
  else if query.tables.any fun t => !t.cte && !d.has ⟨t.schema, t.name⟩ then
    .error (sqlError "Catalog Error: a table of the View does not exist")
  else return d.put relation (.view query)

/-- Generated columns are left out of the INSERT and computed again. -/
def copiedRows (t : Table V) : Rows V :=
  let generated := (t.columns.filter Column.generated).map Column.name
  { t.contents with rows := t.rows.map fun row => engine.generate t.columns (row.filter fun c => c.1 ∉ generated) }

def copyTable (d : Destination K V) (item : Planned K V) : Except Error (Destination K V) :=
  match item.entry.kind with
  | .table t => (createTable engine d item.entry.relation (copiedRows engine t) item.parents).mapError
      (contextual item.entry.relation)
  | .view _ _ => .ok d

def itemKey (item : Planned K V) : List Char × List Char := key item.entry.relation

/-- A foreign key to its own table does not wait. -/
def tableNeeds (item : Planned K V) : List (List Char × List Char) :=
  (item.parents.map key).filter fun k => k ≠ itemKey item

def tableCycle : Error := ⟨"export_dependency", "Table constraints contain an unresolved dependency cycle"⟩

def copySelectedTables (items : List (Planned K V)) (d : Destination K V) : Except Error (Destination K V) :=
  let pending := items.filter fun item => item.entry.kind.isTable
  Worklist.drain itemKey tableNeeds (copyTable engine) tableCycle pending.length pending [] d

def copyMetadata (s : Source K V) (d : Destination K V) (item : Planned K V) : Destination K V :=
  let relation := item.entry.relation
  let d := { d with
    arrowMetadata := d.arrowMetadata ++ s.arrowMetadata.filter fun a =>
      a.schemaName = relation.schema && a.relationName = relation.name }
  if relation.schema = "data" then
    { d with
      nodes := d.nodes ++ s.nodes.filter fun n => n.tableName = relation.name
      tokenizerModels := d.tokenizerModels ++ s.tokenizerModels.filter fun m => m.tableName = relation.name }
  else d

/-- An edge is joined with the Data Blocks of the destination. -/
def copySelectedMetadata (s : Source K V) (items : List (Planned K V)) (d : Destination K V) : Destination K V :=
  let d := items.foldl (copyMetadata s) d
  { d with
    edges := d.edges ++ s.edges.filter fun e =>
      (d.nodes.any fun n => n.tableName = e.sourceName) && d.nodes.any fun n => n.tableName = e.targetName }

def linkParent (relation : Relation) (d : Destination K V) (parent : Relation) : Destination K V :=
  if parent.schema = "data" ∧ relation.schema = "data" ∧ parent ≠ relation then
    let found := (d.nodes.filter fun n => n.tableName = parent.name).flatMap fun source =>
      (d.nodes.filter fun n => n.tableName = relation.name).map fun target =>
        (⟨source.tableName, target.tableName⟩ : Edge)
    { d with edges := d.edges ++ found.filter fun e => e ∉ d.edges }
  else d

/-- A materialized View becomes a Table with the rows it has in the source. -/
def materialize (d : Destination K V) (item : Planned K V) : Except Error (Destination K V) :=
  let relation := item.entry.relation
  match item.action with
  | .materializeView => do
      let d ← (do
        let rows ← item.entry.rows
        createTable engine d relation rows []).mapError (contextual relation)
      return item.parents.foldl (linkParent relation) d
  | _ => .ok d

def preserve (d : Destination K V) (item : Planned K V) : Except Error (Destination K V) :=
  match item.sql with
  | some query => (createView engine d item.entry.relation query).mapError (contextual item.entry.relation)
  | none => .error (.invalid "Missing portable View definition")

def viewNeeds (item : Planned K V) : List (List Char × List Char) := item.parents.map key

def viewCycle : Error := ⟨"export_dependency", "View dependencies contain an unresolved cycle"⟩

def isPreserved (item : Planned K V) : Bool := item.action = .preserveView

def preserveViews (items : List (Planned K V)) (d : Destination K V) : Except Error (Destination K V) :=
  let pending := items.filter isPreserved
  let ready := (items.filter fun item => !isPreserved item).map itemKey
  Worklist.drain itemKey viewNeeds (preserve engine) viewCycle pending.length pending ready d

/-- A fresh project: its schema and the record of the project. -/
def freshProject : Destination K V := ⟨[], [], [], [], []⟩

/-- What `write_project_export` does between its BEGIN and its COMMIT. -/
def writeSelected (s : Source K V) (objects : List ObjectTarget) : Except Error (Destination K V) := do
  let plan ← plan engine s objects
  match plan.blockers.head? with
  | some error => .error error
  | none => do
      let d ← copySelectedTables engine plan.items freshProject
      let d ← plan.items.foldlM (materialize engine) (copySelectedMetadata s plan.items d)
      preserveViews engine plan.items d

/-- The result with what is committed in the destination file: an error rolls
the transaction back and leaves nothing. -/
def writeProjectExport (s : Source K V) (objects : List ObjectTarget) :
    Except Error (Destination K V) × Option (Destination K V) :=
  match (do
    let d ← writeSelected engine s objects
    engine.commit
    return d : Except Error (Destination K V)) with
  | .ok d => (.ok d, some d)
  | .error error => (.error error, none)

end Statements

end Wordflow.Exports
