import Wordflow.Library.Worklist
import Wordflow.Registry.Database

namespace Wordflow.Deletion

open Library Library.Fallible Library.Identifier Objects
open Registry.Database (sql)

inductive ObjectKind
  | table
  | view
  | missing
  deriving DecidableEq

structure DependencyNode where
  object : Relation
  kind : ObjectKind
  registered : Bool
  uncertain : Bool
  deriving DecidableEq

structure DependencyEdge where
  source : Relation
  target : Relation
  deriving DecidableEq

structure DependencyGraph where
  nodes : List DependencyNode
  edges : List DependencyEdge

section Plan

variable (graph : DependencyGraph)

def select (target : ObjectTarget) : Except Error Relation :=
  match graph.nodes.find? fun node =>
      eqIgnoreAsciiCase node.object.schema (target.schema.getD "data") && eqIgnoreAsciiCase node.object.name target.name &&
        (target.schema.isSome || node.registered) with
  | some node => .ok node.object
  | none => .error ⟨"object_not_found", "Database object is unavailable"⟩

/-- What depends on an object. -/
def dependents (object : Relation) : List Relation :=
  (graph.edges.filter fun edge => edge.source = object).map DependencyEdge.target

def dependentObjects (edge : DependencyEdge) : Error :=
  ⟨"dependent_objects", String.ofList (sql edge.target) ++
    " also depends on this selection. Review the dependent Data Blocks again."⟩

def uncertainDependencies : Error :=
  ⟨"uncertain_dependencies",
    "A View has dynamic SQL dependencies. Resolve them before deleting this selection."⟩

def cycle : Error := .invalid "Dependent Data Blocks contain a cycle"

/-- The loop that takes the leaves of what remains, until nothing does. -/
def deletionOrder (selected : List Relation) (rounds : Nat) : Option (Except Error (List Relation)) :=
  Worklist.peel (dependents graph) (fun leaves => leaves.insertionSort fun a b => sql a ≤ sql b) cycle rounds selected []

/-- What is to be deleted for the targets, dependents first; `none` where the loop is not over in the given rounds. -/
def plan (targets : List ObjectTarget) (rounds : Nat) : Option (Except Error (List Relation)) :=
  if targets.isEmpty then some (.error (.invalid "Select at least one Data Block"))
  else
    match targets.mapM (select graph) with
    | .error e => some (.error e)
    | .ok selected =>
        match graph.edges.find? fun edge => edge.source ∈ selected && edge.target ∉ selected with
        | some edge => some (.error (dependentObjects edge))
        | none =>
            if graph.nodes.any fun node => node.object ∉ selected && node.uncertain then some (.error uncertainDependencies)
            else deletionOrder graph selected.dedup rounds

end Plan

structure Object where
  relation : Relation
  view : Bool
  deriving DecidableEq

structure Publication where
  nodeName : String
  relations : List Relation
  deriving DecidableEq

/-- What the statements of a deletion read and write. -/
structure Store where
  objects : List Object
  registrations : List String
  links : List (String × String)
  tokenizerModels : List (String × String × String)
  annotations : List (Relation × String)
  publications : List Publication
  deriving DecidableEq

abbrev Statement := Store → Except Error Store

/-- What the database and its parser tell the program: the references and the
uncertainty of each View, whether a View can be prepared, the scope of the change
that is pending, and the annotations of a publication that is bound again. -/
structure Environment where
  references : Store → Relation → List Relation
  uncertain : Store → Relation → Bool
  prepares : Store → Relation → Bool
  scope : Store → Store → List Relation → List Relation × Bool
  rebind : Store → Publication → List (Relation × String)
  /-- The suffix of a published relation is an id. -/
  isUuid : String → Bool

section Statements

variable (env : Environment)

def deleteRelation (relation : Relation) : Statement := fun s =>
  .ok { s with annotations := s.annotations.filter fun a => a.1 ≠ relation }

def deleteNode (name : String) : Statement := fun s =>
  .ok { s with
    links := s.links.filter fun link => link.1 ≠ name ∧ link.2 ≠ name
    tokenizerModels := s.tokenizerModels.filter fun model => model.1 ≠ name
    registrations := s.registrations.filter fun registration => registration ≠ name }

def lookup (s : Store) (relation : Relation) : Option Object := s.objects.find? fun o => o.relation.same relation

def remove (s : Store) (relation : Relation) : Store :=
  { s with objects := s.objects.filter fun o => !o.relation.same relation }

/-- `DROP VIEW` or `DROP TABLE`. -/
def drop (view : Bool) (relation : Relation) : Statement := fun s =>
  match lookup s relation with
  | none => .error ⟨"sql_error", "Catalog Error: the relation does not exist"⟩
  | some o =>
      if o.view = view then .ok (remove s relation)
      else .error ⟨"sql_error", "Catalog Error: existing object is of another type"⟩

/-- The relations of the application that a publication may own. -/
def isPublished (relation : Relation) : Bool :=
  relation.schema = "wordflow" && "published_".toList.isPrefixOf relation.name.toList &&
    env.isUuid (String.ofList (relation.name.toList.drop "published_".length))

/-- `DROP … IF EXISTS` of a relation that a publication owns. -/
def dropOwned (s : Store) (relation : Relation) : Store :=
  { remove s relation with annotations := s.annotations.filter fun a => a.1 ≠ relation }

def deletePublication (target : Relation) : Statement := fun s =>
  if target.schema ≠ "data" then .ok s
  else
    match s.publications.find? fun p => p.nodeName = target.name with
    | none => .ok s
    | some p =>
        if p.relations.all (isPublished env) = false then
          .error ⟨"publication_corrupt", "Published output ownership is invalid"⟩
        else
          let s := p.relations.reverse.foldl dropOwned s
          .ok { s with publications := s.publications.filter fun q => q.nodeName ≠ target.name }

def isView (s : Store) (relation : Relation) : Bool := s.objects.any fun o => o.relation = relation && o.view

/-- A publication whose Views can be prepared has them defined again as they are. -/
def refreshPublication (affected : List Relation) (all : Bool) (s : Store) (p : Publication) : Except Error Store :=
  let target : Relation := ⟨"data", p.nodeName⟩
  if !all && target ∉ affected then .ok s
  else
    match p.relations.getLast? with
    | none => .error (.invalid "Published output ownership is incomplete")
    | some joined =>
        if isView s joined && isView s target && env.prepares s joined && env.prepares s target then
          .ok { s with annotations := env.rebind s p }
        else .ok s

/-- The statements that delete an object. -/
def objectStatements (graph : DependencyGraph) (relation : Relation) : List Statement :=
  match graph.nodes.find? fun node => node.object = relation with
  | none => [fun _ => .error (.invalid "Data Block is unavailable")]
  | some node =>
      [deleteRelation relation] ++ (if node.registered then [deleteNode relation.name] else []) ++
        (match node.kind with
          | .missing => []
          | .view => [drop true relation]
          | .table => [drop false relation]) ++ [deletePublication env relation]

/-- The refresh of the publications in the scope of the change from the store before it. -/
def refresh (before : Store) (deleted : List Relation) : Statement := fun s =>
  let scope := env.scope before s deleted
  s.publications.foldlM (refreshPublication env scope.1 scope.2) s

/-- Where a run may be cancelled, or the commit fail. -/
def checkpoint : Statement := .ok

end Statements

section Inspection

variable (env : Environment) (s : Store)

def Object.kind (o : Object) : ObjectKind := if o.view then .view else .table

/-- The objects of the catalogue, and the Data Blocks that outlive theirs. -/
def inspectNodes : List DependencyNode :=
  ((s.objects.filter fun o => o.relation.schema ≠ "wordflow").map fun o =>
    ⟨o.relation, o.kind, o.relation.schema = "data" && s.registrations.any (eqIgnoreAsciiCase o.relation.name),
      o.view && env.uncertain s o.relation⟩) ++
  ((s.registrations.filter fun name => !s.objects.any fun o =>
      eqIgnoreAsciiCase o.relation.schema "data" && eqIgnoreAsciiCase o.relation.name name).map fun name =>
    ⟨⟨"data", name⟩, .missing, true, false⟩)

/-- From each relation that a View reads to the View. -/
def inspectEdges : List DependencyEdge :=
  (s.objects.filter fun o => o.relation.schema ≠ "wordflow" && o.view).flatMap fun o =>
    ((env.references s o.relation).dedup.filter fun source =>
        (s.objects.any fun other => other.relation = source) && !eqIgnoreAsciiCase source.schema "wordflow").map fun source =>
      ⟨source, o.relation⟩

def inspectDependencies : DependencyGraph :=
  ⟨(inspectNodes env s).insertionSort fun a b => sql a.object ≤ sql b.object, inspectEdges env s⟩

end Inspection

/-- A connection with a transaction: what is committed, and what the transaction sees. -/
structure Session where
  committed : Store
  working : Store

/-- Statements are run in turn in the transaction, up to the first that fails.
`fault` tells whether the database fails a statement, or the run is cancelled before it. -/
def runStatements (fault : Nat → Option Error) : Nat → List Statement → Session → Session × Option Error
  | _, [], session => (session, none)
  | k, statement :: statements, session =>
      match fault k with
      | some e => (session, some e)
      | none =>
          match statement session.working with
          | .error e => (session, some e)
          | .ok working => runStatements fault (k + 1) statements ⟨session.committed, working⟩

theorem runStatements_cons (fault : Nat → Option Error) (k : Nat) (statement : Statement) (statements : List Statement)
    (session : Session) :
    runStatements fault k (statement :: statements) session =
      match fault k with
      | some e => (session, some e)
      | none =>
          match statement session.working with
          | .error e => (session, some e)
          | .ok working => runStatements fault (k + 1) statements ⟨session.committed, working⟩ := rfl

/-- The statements for each object, the check for a cancellation, the refresh, the check before the commit and the commit. -/
def statements (env : Environment) (graph : DependencyGraph) (db : Store) (ordered : List Relation) : List Statement :=
  ordered.flatMap (objectStatements env graph) ++ [checkpoint, refresh env db ordered, checkpoint, checkpoint]

/-- A deletion as a whole, with what the inspection of the dependencies gives.
Without a commit the transaction is rolled back. -/
def deleteObjects (env : Environment) (fault : Nat → Option Error) (inspected : Except Error DependencyGraph)
    (targets : List ObjectTarget) (rounds : Nat) (db : Store) : Option (Store × Except Error (List Relation)) :=
  match inspected with
  | .error e => some (db, .error (if targets.isEmpty then .invalid "Select at least one Data Block" else e))
  | .ok graph =>
      (plan graph targets rounds).map fun
        | .error e => (db, .error e)
        | .ok ordered =>
            match runStatements fault 0 (statements env graph db ordered) ⟨db, db⟩ with
            | (session, some e) => (session.committed, .error e)
            | (session, none) => (session.working, .ok ordered)

end Wordflow.Deletion
