import Mathlib.Data.List.Dedup
import Mathlib.Data.List.Nodup
import Wordflow.Tables

namespace Wordflow.Registry

open Library.Identifier Objects Tables

/-- A View with the relations its query reads. -/
inductive Kind
  | table
  | view (sources : List Relation) (uncertain : Bool)
  deriving DecidableEq

def Kind.isView : Kind → Bool
  | .table => false
  | .view _ _ => true

/-- A Table or View of the catalogue, with the types of its columns. -/
structure Entry where
  relation : Relation
  kind : Kind
  columns : List (String × String)
  deriving DecidableEq

structure Node where
  tableName : String
  visible : Bool
  color : Option String
  documentColumn : Option String
  deriving DecidableEq

structure Edge where
  sourceName : String
  targetName : String
  deriving DecidableEq

structure TokenizerModel where
  tableName : String
  columnName : String
  tokenizerModel : String
  deriving DecidableEq

structure State where
  catalogue : List Entry
  nodes : List Node
  edges : List Edge
  tokenizerModels : List TokenizerModel
  deriving DecidableEq

structure ResolvedObject where
  relation : Relation
  registered : Bool
  deriving DecidableEq

structure ColumnMapping where
  source : String
  column : String
  output : String

section Catalogue

variable (s : State)

/-- A statement finds a relation in any letter case. -/
def State.lookup (relation : Relation) : Option Entry := s.catalogue.find? fun e => e.relation.same relation

/-- The catalogue views are filtered by the exact name. -/
def State.exact (relation : Relation) : Option Entry := s.catalogue.find? fun e => e.relation = relation

def State.columns (relation : Relation) : List (String × String) := ((s.exact relation).map Entry.columns).getD []

def State.dataType (relation : Relation) (column : String) : Option String :=
  ((s.columns relation).find? fun c => c.1 = column).map Prod.snd

/-- The keys, the index and the check that the schema declares. -/
def State.Checked : Prop :=
  (s.nodes.map fun n => asciiLower n.tableName).Nodup ∧ s.edges.Nodup ∧ (∀ e ∈ s.edges, e.sourceName ≠ e.targetName) ∧
    (s.tokenizerModels.map fun m => (m.tableName, m.columnName)).Nodup

instance : Decidable s.Checked := by
  unfold State.Checked
  infer_instance

/-- The state after a statement that writes to the metadata. -/
def checked : Except Error State := if s.Checked then .ok s else .error (sqlError "Constraint Error")

end Catalogue

namespace Metadata

variable (s : State)

def deleteNode (name : String) : State :=
  { s with
    edges := s.edges.filter fun e => !(e.sourceName = name || e.targetName = name)
    tokenizerModels := s.tokenizerModels.filter fun m => m.tableName ≠ name
    nodes := s.nodes.filter fun n => n.tableName ≠ name }

def cloneNode (id name : String) : Except Error State := do
  let nodes := (s.nodes.filter fun n => n.tableName = id).map fun n => { n with tableName := name, visible := true }
  let models := (s.tokenizerModels.filter fun m => m.tableName = id).map fun m => { m with tableName := name }
  let edges := (s.edges.filter fun e => e.targetName = id).map fun e => { e with targetName := name }
  let s ← checked { s with nodes := s.nodes ++ nodes }
  let s ← checked { s with tokenizerModels := s.tokenizerModels ++ models }
  checked { s with edges := s.edges ++ edges }

def renamed (source name : String) (value : String) : String := if value = source then name else value

def renameNode (object : ResolvedObject) (name : String) : Except Error State :=
  if object.registered then do
    let rename := renamed object.relation.name name
    let s ← checked { s with nodes := s.nodes.map fun n => { n with tableName := rename n.tableName } }
    let s ← checked { s with edges := s.edges.map fun e => { e with sourceName := rename e.sourceName } }
    let s ← checked { s with edges := s.edges.map fun e => { e with targetName := rename e.targetName } }
    checked { s with tokenizerModels := s.tokenizerModels.map fun m => { m with tableName := rename m.tableName } }
  else .ok s

def renameColumn (object : ResolvedObject) (before after : String) : Except Error State :=
  if object.registered then do
    let table := object.relation.name
    let s ← checked { s with
      tokenizerModels := s.tokenizerModels.map fun m =>
        if m.tableName = table then { m with columnName := renamed before after m.columnName } else m }
    checked { s with
      nodes := s.nodes.map fun n =>
        if n.tableName = table then { n with documentColumn := n.documentColumn.map (renamed before after) } else n }
  else .ok s

/-- The rows that say something of a column. -/
def dropColumn (table column : String) : State :=
  { s with
    tokenizerModels := s.tokenizerModels.filter fun m => !(m.tableName = table && m.columnName = column)
    nodes := s.nodes.map fun n =>
      if n.tableName = table ∧ n.documentColumn = some column then { n with documentColumn := none } else n }

def removeColumn (relation : Relation) (column : String) : State :=
  if relation.schema ≠ "data" then s else dropColumn s relation.name column

def isText (kind : String) : Bool := kind = "VARCHAR" || kind.toList.take 5 = "ENUM(".toList

def transformedColumn (object : ResolvedObject) (column : String) : Except Error State :=
  if !object.registered then .ok s
  else
    match s.dataType object.relation column with
    | none => .error (sqlError "Query returned no rows")
    | some kind => .ok (if isText kind then s else dropColumn s object.relation.name column)

section Copy

variable (name : String) (mappings : List ColumnMapping)

/-- The columns that the new relation shows with the type they have in their source. -/
def eligible : List ColumnMapping :=
  mappings.filter fun m =>
    (s.dataType ⟨"data", m.source⟩ m.column).isSome &&
      s.dataType ⟨"data", m.source⟩ m.column = s.dataType ⟨"data", name⟩ m.output

def eligibleText : List ColumnMapping :=
  (eligible s name mappings).filter fun m => (s.dataType ⟨"data", m.source⟩ m.column).any isText

/-- Whether as many rows agree on an output as columns are mapped to it. -/
def whole (output : String) (count : Nat) : Bool := count = (mappings.filter fun m => m.output = output).length

def copiedModels : List TokenizerModel :=
  let pairs := (eligibleText s name mappings).flatMap fun m =>
    (s.tokenizerModels.filter fun t => t.tableName = m.source ∧ t.columnName = m.column).map fun t =>
      (m.output, t.tokenizerModel)
  (pairs.dedup.filter fun p => whole mappings p.1 (pairs.count p)).map fun p => ⟨name, p.1, p.2⟩

def copiedDocument : Option String :=
  let outputs := ((eligibleText s name mappings).filter fun m =>
    s.nodes.any fun n => n.tableName = m.source ∧ n.documentColumn = some m.column).map ColumnMapping.output
  outputs.find? fun output => whole mappings output (outputs.count output)

def copyColumns : Except Error State :=
  if mappings.isEmpty then .ok s
  else do
    let document := copiedDocument s name mappings
    let s ← checked { s with tokenizerModels := s.tokenizerModels ++ copiedModels s name mappings }
    .ok { s with
      nodes := s.nodes.map fun n => if n.tableName = name then { n with documentColumn := document } else n }

end Copy

end Metadata

end Wordflow.Registry
