import Wordflow.Library.Fallible
import Wordflow.Registry.Database

namespace Wordflow.Exports

open Library.Fallible Library.Identifier Objects
open Registry (Node Edge TokenizerModel)

structure Column where
  name : String
  dataType : String
  generated : Bool
  deriving DecidableEq

/-- The columns and rows that a SELECT of everything gives. -/
structure Rows (V : Type) where
  columns : List (String × String)
  rows : List (List (String × V))
  deriving DecidableEq

/-- A stored table. `parents` are the tables its foreign keys name, which are of
its schema, and `macros` the macros its definition depends on. -/
structure Table (V : Type) where
  columns : List Column
  rows : List (List (String × V))
  parents : List String
  macros : List String
  deriving DecidableEq

def Table.contents {V : Type} (t : Table V) : Rows V := ⟨t.columns.map fun c => (c.name, c.dataType), t.rows⟩

/-- A table in a FROM clause. `cte` says that a CTE in scope has its name. -/
structure TableRef where
  catalog : String
  schema : String
  name : String
  cte : Bool
  deriving DecidableEq

/-- What the check for uncertain dependencies reads of a node of a query. -/
structure QueryNode where
  type : String
  functionName : Option String
  catalogName : Option String
  deriving DecidableEq

/-- A parsed SELECT: its tables in the order in which they are met, its other
nodes, and all that export does not read. -/
structure Query (K : Type) where
  body : K
  nodes : List QueryNode
  tables : List TableRef
  deriving DecidableEq

/-- The definition of a view is read and parsed, which can fail, as its rows can. -/
inductive Kind (K V : Type)
  | table (definition : Table V)
  | view (definition : Except Error (Query K)) (rows : Except Error (Rows V))

def Kind.isTable {K V : Type} : Kind K V → Bool
  | .table _ => true
  | .view _ _ => false

structure Entry (K V : Type) where
  relation : Relation
  kind : Kind K V

/-- What a SELECT of everything gives. -/
def Entry.rows {K V : Type} (entry : Entry K V) : Except Error (Rows V) :=
  match entry.kind with
  | .table definition => .ok definition.contents
  | .view _ rows => rows

structure ArrowMetadata where
  schemaName : String
  relationName : String
  fieldPath : String
  extensionName : String
  extensionMetadata : Option String
  deriving DecidableEq

def key (relation : Relation) : List Char × List Char := (asciiLower relation.schema, asciiLower relation.name)

/-- The captured project. Its catalogue and schema keep the names of relations
and of Data Blocks apart in any letter case, and foreign keys name tables. -/
structure Source (K V : Type) where
  database : String
  catalogue : List (Entry K V)
  nodes : List Node
  edges : List Edge
  tokenizerModels : List TokenizerModel
  arrowMetadata : List ArrowMetadata
  searchPath : List String
  macros : List String
  distinct : (catalogue.map fun e => key e.relation).Nodup
  foreign : ∀ e ∈ catalogue, ∀ t, e.kind = .table t → ∀ name ∈ t.parents,
    ∃ parent ∈ catalogue, key parent.relation = key ⟨e.relation.schema, name⟩ ∧ parent.kind.isTable = true
  registered : (nodes.map fun n => asciiLower n.tableName).Nodup
  linked : edges.Nodup

/-- What the export takes from the database: computing generated columns,
rendering a query, evaluating it on what its tables contain, and what may go
wrong in a statement about a relation or at the end. -/
structure Engine (K V : Type) where
  generate : List Column → List (String × V) → List (String × V)
  render : Query K → Except Error Unit
  denote : K → List (Except Error (Rows V)) → Except Error (Rows V)
  statement : Relation → Except Error Unit
  commit : Except Error Unit

variable {K V : Type}

section References

structure ReferenceContext where
  database : String
  schema : String
  searchPath : List String
  catalogue : List Relation

variable (context : ReferenceContext)

def ReferenceContext.isLocal (ref : TableRef) : Bool :=
  ref.catalog = "" || eqIgnoreAsciiCase ref.catalog context.database

def ReferenceContext.schemas (ref : TableRef) : List String :=
  if ref.schema = "" then context.schema :: "main" :: context.searchPath else [ref.schema]

/-- The relation that a table of a view is, as the catalogue spells it. -/
def ReferenceContext.relation (ref : TableRef) : Relation :=
  ((context.schemas ref).findSome? fun schema =>
    context.catalogue.find? fun o => eqIgnoreAsciiCase o.schema schema && eqIgnoreAsciiCase o.name ref.name).getD
      ⟨if ref.schema = "" then context.schema else ref.schema, ref.name⟩

def ReferenceContext.refers (ref : TableRef) : Bool := !ref.cte && context.isLocal ref

def referencesIn (query : Query K) : List Relation := (query.tables.filter context.refers).map context.relation

def portableNode (node : QueryNode) : QueryNode :=
  { node with
    catalogName := node.catalogName.map fun name => if eqIgnoreAsciiCase name context.database then "" else name }

def portableTable (ref : TableRef) : TableRef :=
  if context.refers ref then ⟨"", (context.relation ref).schema, (context.relation ref).name, false⟩ else ref

def portableSelect (engine : Engine K V) (query : Query K) : Except Error (Query K) := do
  let portable : Query K :=
    { query with
      nodes := query.nodes.map (portableNode context)
      tables := query.tables.map (portableTable context) }
  engine.render portable
  return portable

end References

inductive Action
  | copyTable
  | preserveView
  | materializeView
  deriving DecidableEq

structure Planned (K V : Type) where
  entry : Entry K V
  action : Action
  reason : Option String
  sql : Option (Query K)
  parents : List Relation

structure Plan (K V : Type) where
  items : List (Planned K V)
  blockers : List Error

def relationSql (relation : Relation) : String := String.ofList (Registry.Database.sql relation)

section Planning

variable (engine : Engine K V) (s : Source K V)

def node (name : String) : Except Error Node :=
  match s.nodes.find? fun n => eqIgnoreAsciiCase n.tableName name with
  | some n => .ok n
  | none => .error ⟨"node_not_found", "Data Block is not registered"⟩

def resolve (target : ObjectTarget) : Except Error Relation :=
  match target.schema with
  | none => (node s target.name).map fun n => ⟨"data", n.tableName⟩
  | some schema =>
      if eqIgnoreAsciiCase schema "wordflow" then .error (.invalid "Wordflow metadata is not a data object")
      else
        match s.catalogue.find? fun e =>
            eqIgnoreAsciiCase e.relation.schema schema && eqIgnoreAsciiCase e.relation.name target.name with
        | some e => .ok e.relation
        | none => .error ⟨"object_not_found", "Database object is unavailable"⟩

/-- The loop over the selected objects, with the keys met so far. -/
def select : List (List Char × List Char) → List ObjectTarget → Except Error (List (Entry K V) × List Error)
  | _, [] => .ok ([], [])
  | seen, object :: objects =>
      match resolve s object with
      | .error error =>
          (select seen objects).map fun r =>
            (r.1, { error with message := "Export " ++ object.toText ++ ": " ++ error.message } :: r.2)
      | .ok relation =>
          if key relation ∈ seen then .error (.invalid "Each Data Block may be selected only once")
          else
            (select (key relation :: seen) objects).map fun r =>
              match s.catalogue.find? fun e => e.relation = relation with
              | some entry => (entry :: r.1, r.2)
              | none => (r.1, ⟨"object_not_found", "Export " ++ relationSql relation ++ ": relation is missing"⟩ :: r.2)

def referenceContext (entry : Entry K V) : ReferenceContext :=
  ⟨s.database, entry.relation.schema, s.searchPath, s.catalogue.map Entry.relation⟩

def uncertainNode (node : QueryNode) : Bool :=
  node.type = "TABLE_FUNCTION" ||
    (node.functionName.any fun name => eqIgnoreAsciiCase name "nextval" || eqIgnoreAsciiCase name "currval") ||
    (node.catalogName.any fun name => name ≠ "" && !eqIgnoreAsciiCase name s.database) ||
    node.functionName.any fun name => s.macros.any fun item => eqIgnoreAsciiCase item name

/-- A table is a node of its query too. -/
def uncertain (query : Query K) : Bool :=
  query.nodes.any (uncertainNode s) || query.tables.any fun t => uncertainNode s ⟨"BASE_TABLE", none, some t.catalog⟩

def missingParents (selected : List (List Char × List Char)) (parents : List Relation) : List Relation :=
  parents.filter fun p => key p ∉ selected

def planView (selected : List (List Char × List Char)) (entry : Entry K V) (definition : Except Error (Query K)) :
    Planned K V :=
  let context := referenceContext s entry
  match (do
    let query ← definition
    let sql ← portableSelect context engine query
    return (query, sql) : Except Error (Query K × Query K)) with
  | .ok (query, sql) =>
      let parents := referencesIn context query
      let missing := missingParents selected parents
      if !uncertain s query && missing.isEmpty then ⟨entry, .preserveView, none, some sql, parents⟩
      else
        ⟨entry, .materializeView, some (if uncertain s query then
          "External, dynamic or macro dependencies require a data snapshot"
        else "Dependencies not included: " ++ String.intercalate ", " (missing.map relationSql)), none, parents⟩
  | .error _ => ⟨entry, .materializeView, some "Dependencies cannot be safely inspected", none, []⟩

def planTable (entry : Entry K V) (t : Table V) : Planned K V :=
  ⟨entry, .copyTable, none, none, t.parents.map fun name => ⟨entry.relation.schema, name⟩⟩

def macroBlockers (entry : Entry K V) (t : Table V) : List Error :=
  if t.macros.isEmpty then []
  else
    [⟨"export_dependency", relationSql entry.relation ++ " depends on SQL macro definitions (" ++
      String.intercalate ", " t.macros ++
        "). Use Complete project to preserve those definitions and their parameter defaults."⟩]

def tableBlockers (selected : List (List Char × List Char)) (entry : Entry K V) (t : Table V) : List Error :=
  macroBlockers entry t ++ (missingParents selected (planTable entry t).parents).map fun parent =>
    ⟨"export_dependency", relationSql entry.relation ++ " requires " ++ relationSql parent ++
      " through a foreign key. Include that Table in the selection."⟩

def planEntry (selected : List (List Char × List Char)) (entry : Entry K V) : Planned K V :=
  match entry.kind with
  | .table t => planTable entry t
  | .view definition _ => planView engine s selected entry definition

def entryBlockers (selected : List (List Char × List Char)) (entry : Entry K V) : List Error :=
  match entry.kind with
  | .table t => tableBlockers selected entry t
  | .view _ _ => []

/-- `plan` of a selection of objects. -/
def plan (objects : List ObjectTarget) : Except Error (Plan K V) :=
  if objects.isEmpty then .error (.invalid "Select at least one Data Block")
  else do
    let found ← select s [] objects
    let selected := found.1.map fun e => key e.relation
    return ⟨found.1.map (planEntry engine s selected), found.2 ++ found.1.flatMap (entryBlockers selected)⟩

end Planning

end Wordflow.Exports
