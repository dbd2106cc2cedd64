import Mathlib.Data.Char
import Mathlib.Data.List.Lex
import Mathlib.Data.List.Sort
import Wordflow.Library.Fresh
import Wordflow.Library.Text
import Wordflow.Registry.Metadata

namespace Wordflow.Registry

open Library Library.Identifier Objects Tables

/-- What the program takes from its libraries: the letters and numbers of
Unicode, and the tokenizer models it knows. -/
structure Environment where
  alphanumeric : Char → Bool
  tokenizerModels : List String

section Naming

variable (env : Environment) (s : State)

def sourceStem (limit : Nat) (source : String) : List Char :=
  let normalized := source.toList.foldl (fun acc c =>
    if env.alphanumeric c then acc ++ [c]
    else if acc ≠ [] ∧ acc.getLast? ≠ some '_' then acc ++ ['_']
    else acc) []
  let stem := (((normalized.take limit).dropWhile (· = '_')).reverse.dropWhile (· = '_')).reverse
  if stem.isEmpty then "data".toList else stem

def sourcePrefix (sources : List String) : List Char :=
  let parts := (sources.take 2).map (sourceStem env (if sources.length > 1 then 7 else 16))
  if parts.isEmpty then "data".toList else List.intercalate ['_'] parts

def occupiedObjectNames (schema : String) (registered : Bool) : List (List Char) :=
  let names := (s.catalogue.filter fun e => eqIgnoreAsciiCase e.relation.schema schema).map fun e => e.relation.name
  let names := if registered then names ++ s.nodes.map Node.tableName else names
  names.map asciiLower

def numbered (base : String) (n : Nat) : String := base ++ "_" ++ toString n

def uniqueObjectName (schema base : String) (registered : Bool) (reserved : List String) : String :=
  let names := occupiedObjectNames s schema registered ++ reserved.map asciiLower
  if asciiLower base ∈ names then
    numbered base (Fresh.firstFree names (fun n => asciiLower (numbered base n)) names.length 2)
  else base

def dataBlockName (schema : String) (sources : List String) (operation : String) (registered : Bool) : String :=
  let names := occupiedObjectNames s schema registered
  let stem := String.ofList (sourcePrefix env sources) ++ "_" ++ operation
  numbered stem (Fresh.firstFree names (fun n => asciiLower (numbered stem n)) names.length 1)

theorem asciiLower_digits (n : Nat) : (Nat.toDigits 10 n).map Char.toLower = Nat.toDigits 10 n := by
  refine (List.map_congr_left fun c hc => ?_).trans (List.map_id _)
  have hdigit := Nat.isDigit_of_mem_toDigits (by decide) (by decide) hc
  have hupper : ¬(c.val ≥ 65 ∧ c.val ≤ 90) := by
    simp only [Char.isDigit, Bool.and_eq_true, decide_eq_true_eq] at hdigit
    rintro ⟨hge, -⟩
    exact absurd (UInt32.le_trans hge hdigit.2) (by decide)
  exact dif_neg hupper

theorem numbered_injective (base : String) : Function.Injective fun n => asciiLower (numbered base n) := by
  intro m n h
  simp only [asciiLower, numbered, String.toList_append, List.map_append, List.append_cancel_left_eq,
    Nat.toString_eq_repr, Nat.toList_repr, asciiLower_digits] at h
  have hvalue := congrArg (fun digits => Nat.ofDigitChars 10 digits 0) h
  simpa only [Nat.ofDigitChars_toDigits (by decide : 1 < 10) (by decide : 10 ≤ 10)] using hvalue

theorem numbered_ne (base : String) (n : Nat) : numbered base n ≠ "" := by
  intro h
  have hlength := congrArg (fun name => name.toList.length) h
  simp only [numbered, String.toList_append, List.length_append] at hlength
  exact absurd hlength (by simp)

/-- A name that an import takes is not one of an object or of a Data Block. -/
theorem uniqueObjectName_free (schema base : String) (registered : Bool) (reserved : List String) :
    asciiLower (uniqueObjectName s schema base registered reserved) ∉
      occupiedObjectNames s schema registered ++ reserved.map asciiLower := by
  simp only [uniqueObjectName]
  split
  · exact Fresh.firstFree_free (numbered_injective base) 2
  · rename_i hfree
    exact hfree

theorem dataBlockName_free (schema : String) (sources : List String) (operation : String) (registered : Bool) :
    asciiLower (dataBlockName env s schema sources operation registered) ∉ occupiedObjectNames s schema registered :=
  Fresh.firstFree_free (numbered_injective _) 1

end Naming

section Objects

variable (s : State)

def node (name : String) : Except Error Node :=
  match s.nodes.find? fun n => eqIgnoreAsciiCase n.tableName name with
  | some n => .ok n
  | none => .error ⟨"node_not_found", "Data Block is not registered"⟩

def resolve (target : ObjectTarget) : Except Error ResolvedObject :=
  match target.schema with
  | none => (node s target.name).map fun n => ⟨⟨"data", n.tableName⟩, true⟩
  | some schema =>
      if eqIgnoreAsciiCase schema "wordflow" then .error (.invalid "Wordflow metadata is not a data object")
      else
        match s.catalogue.find? fun e =>
            eqIgnoreAsciiCase e.relation.schema schema && eqIgnoreAsciiCase e.relation.name target.name with
        | some e =>
            .ok ⟨e.relation, eqIgnoreAsciiCase e.relation.schema "data" &&
              s.nodes.any fun n => eqIgnoreAsciiCase n.tableName e.relation.name⟩
        | none => .error ⟨"object_not_found", "Database object is unavailable"⟩

structure DependencyNode where
  object : Relation
  /-- Absent where the object is missing. -/
  kind : Option Kind
  registered : Bool

/-- The objects of the catalogue, and the Data Blocks that outlive theirs. -/
def dependencyNodes : List DependencyNode :=
  ((s.catalogue.filter fun e => e.relation.schema ≠ "wordflow").map fun e =>
    ⟨e.relation, some e.kind, e.relation.schema = "data" &&
      s.nodes.any fun n => eqIgnoreAsciiCase e.relation.name n.tableName⟩) ++
  ((s.nodes.filter fun n => !s.catalogue.any fun e =>
      eqIgnoreAsciiCase e.relation.schema "data" && eqIgnoreAsciiCase e.relation.name n.tableName).map fun n =>
    ⟨⟨"data", n.tableName⟩, none, true⟩)

def Kind.sources : Kind → List Relation
  | .table => []
  | .view sources _ => sources

def Kind.uncertain : Kind → Bool
  | .table => false
  | .view _ uncertain => uncertain

/-- From each relation that a View reads to the View. -/
def dependencyEdges : List (Relation × Relation) :=
  (s.catalogue.filter fun e => e.relation.schema ≠ "wordflow").flatMap fun e =>
    (e.kind.sources.dedup.filter fun source =>
        (s.catalogue.any fun f => f.relation = source) && !eqIgnoreAsciiCase source.schema "wordflow").map fun source =>
      (source, e.relation)

end Objects

section Statements

variable (s : State)

def create (e : Entry) : Except Error State :=
  if (s.lookup e.relation).isSome then .error (sqlError "Catalog Error: an entry with this name already exists")
  else .ok { s with catalogue := s.catalogue ++ [e] }

def remove (relation : Relation) : State :=
  { s with catalogue := s.catalogue.filter fun e => !e.relation.same relation }

/-- `DROP … IF EXISTS` of a Table or of a View. -/
def drop (view : Bool) (relation : Relation) : Except Error State :=
  match s.lookup relation with
  | none => .ok s
  | some e =>
      if e.kind.isView = view then .ok (remove s relation)
      else .error (sqlError "Catalog Error: existing object is of another type")

def setColumns (relation : Relation) (columns : List (String × String)) : State :=
  { s with catalogue := s.catalogue.map fun e => if e.relation = relation then { e with columns := columns } else e }

def isView (relation : Relation) : Bool := (s.exact relation).any fun e => e.kind.isView

end Statements

structure PreparedSource where
  name : String
  columns : List (String × String)

/-- A View with what the database knows of its query. -/
structure CreateView where
  name : String
  columns : List (String × String)
  sources : List Relation
  uncertain : Bool
  mappings : List ColumnMapping

/-- An expression with the type the database gives it. -/
structure ColumnExpression where
  column : String
  kind : String
  replace : Bool

inductive ColumnChange
  | add (column kind : String)
  | cast (column kind : String)
  | rename (column name : String)
  | delete (column : String)
  | transform (column kind : String)
  | transformMany (columns : List ColumnExpression)
  | deleteMany (columns : List String)
  | orderCategories (column kind : String)

inductive NodePreference
  | documentColumn (value : Option String)
  | color (value : Option String)
  | tokenizer (column : String) (value : Option String)

namespace Database

variable (env : Environment) (s : State)

section Creation

def importSource (done : State × List String) (input : PreparedSource) : Except Error (State × List String) :=
  if (Text.trim input.name).isEmpty then .error (.invalid "Table name cannot be empty")
  else do
    let name := uniqueObjectName done.1 "data" input.name true done.2
    let raw := uniqueObjectName done.1 "data" (name ++ "_raw") true [name]
    let s ← create done.1 ⟨⟨"data", raw⟩, .table, input.columns⟩
    let s ← create s ⟨⟨"data", name⟩, .view [⟨"data", raw⟩] false, input.columns⟩
    let s ← checked { s with nodes := s.nodes ++ [⟨raw, false, none, none⟩, ⟨name, true, none, none⟩] }
    return (s, done.2 ++ [name])

def importSources (sources : List PreparedSource) : Except Error State :=
  (sources.foldlM importSource (s, [])).map Prod.fst

def createView (s : State) (view : CreateView) : Except Error State :=
  let name := Text.trim view.name
  if name.isEmpty then .error (.invalid "Enter a Data Block name")
  else do
    let s ← create s ⟨⟨"data", name⟩, .view view.sources view.uncertain, view.columns⟩
    let s ← checked { s with nodes := s.nodes ++ [⟨name, true, none, none⟩] }
    Metadata.copyColumns s name view.mappings

def createViews (views : List CreateView) : Except Error State :=
  if views.isEmpty ∨ views.length > 50 then .error (.invalid "Create between 1 and 50 Data Blocks at once")
  else views.foldlM createView s

def find (relation : Relation) : Except Error Entry :=
  match s.lookup relation with
  | some e => .ok e
  | none => .error (sqlError "Catalog Error: the relation does not exist")

def cloneNode (target : ObjectTarget) : Except Error State := do
  let object ← resolve s target
  let source := object.relation
  let name := dataBlockName env s source.schema [source.name] "cpy" target.schema.isNone
  let found ← find s source
  let s ← create s ⟨⟨source.schema, name⟩, if isView s source then found.kind else .table, found.columns⟩
  if target.schema.isNone then Metadata.cloneNode s source.name name else .ok s

/-- The virtual link to each registered source of a View that becomes a Table. -/
def linkSource (relation : Relation) (s : State) (source : Relation) : Except Error State :=
  let rows := (s.nodes.filter fun n => eqIgnoreAsciiCase n.tableName source.name).map fun n => Edge.mk n.tableName relation.name
  checked { s with edges := s.edges ++ rows.filter fun e => e ∉ s.edges }

def linkSources (object : ResolvedObject) : Except Error State :=
  let relation := object.relation
  let sources := ((dependencyEdges s).filter fun e =>
    e.2 = relation && eqIgnoreAsciiCase e.1.schema "data" && e.1 ≠ relation).map Prod.fst
  if object.registered then sources.foldlM (linkSource relation) s else .ok s

def materialize (target : ObjectTarget) : Except Error State := do
  let object ← resolve s target
  let relation := object.relation
  if !isView s relation then .ok s
  else
    let s ← linkSources s object
    return { s with
      catalogue := s.catalogue.map fun e => if e.relation.same relation then { e with relation := relation, kind := .table } else e }

end Creation

section Deletion

def deleteNode (target : ObjectTarget) : Except Error State := do
  let object ← resolve s target
  let deleted := if object.registered then Metadata.deleteNode s object.relation.name else s
  drop deleted (isView s object.relation) object.relation

def select (target : ObjectTarget) : Except Error Relation :=
  match (dependencyNodes s).find? fun n =>
      eqIgnoreAsciiCase n.object.schema (target.schema.getD "data") && eqIgnoreAsciiCase n.object.name target.name &&
        (target.schema.isSome || n.registered) with
  | some n => .ok n.object
  | none => .error ⟨"object_not_found", "Database object is unavailable"⟩

def quote (name : String) : List Char := '"' :: name.toList.flatMap (fun c => if c = '"' then ['"', '"'] else [c]) ++ ['"']

def sql (relation : Relation) : List Char := quote relation.schema ++ '.' :: quote relation.name

/-- The loop that takes the leaves of what remains, until nothing does. -/
def deletionOrder (edges : List (Relation × Relation)) : Nat → List Relation → Except Error (List Relation)
  | 0, _ => .ok []
  | rounds + 1, remaining =>
      if remaining.isEmpty then .ok []
      else
        let leaves := remaining.filter fun object => !edges.any fun e => e.1 = object && e.2 ∈ remaining
        if leaves.isEmpty then .error (.invalid "Dependent Data Blocks contain a cycle")
        else do
          let rest ← deletionOrder edges rounds (remaining.filter fun object => object ∉ leaves)
          return leaves.insertionSort (fun a b => sql a ≤ sql b) ++ rest

def deleteObject (nodes : List DependencyNode) (s : State) (relation : Relation) : Except Error State :=
  match nodes.find? fun n => n.object = relation with
  | none => .error (.invalid "Data Block is unavailable")
  | some n =>
      let s := if n.registered then Metadata.deleteNode s relation.name else s
      .ok (if n.kind.isSome then remove s relation else s)

def deleteObjects (targets : List ObjectTarget) : Except Error State :=
  if targets.isEmpty then .error (.invalid "Select at least one Data Block")
  else do
    let nodes := dependencyNodes s
    let edges := dependencyEdges s
    let selected ← targets.mapM (select s)
    let selected := selected.dedup
    if edges.any fun e => e.1 ∈ selected && e.2 ∉ selected then
      .error ⟨"dependent_objects", "Review the dependent Data Blocks again."⟩
    else if nodes.any fun n => n.object ∉ selected && n.kind.any Kind.uncertain then
      .error ⟨"uncertain_dependencies",
        "A View has dynamic SQL dependencies. Resolve them before deleting this selection."⟩
    else
      let ordered ← deletionOrder edges selected.length selected
      ordered.foldlM (deleteObject nodes) s

end Deletion

section Changes

/-- A reference to the renamed relation follows it. -/
def Kind.rename (source replacement : Relation) : Kind → Kind
  | .table => .table
  | .view sources uncertain => .view (sources.map fun r => if r.same source then replacement else r) uncertain

def renameNode (target : ObjectTarget) (name : String) : Except Error State :=
  let name := Text.trim name
  if name.isEmpty then .error (.invalid "Table name cannot be empty")
  else do
    let object ← resolve s target
    let source := object.relation
    let replacement : Relation := { source with name := name }
    if source.name = name then .ok s
    else
      match s.lookup source with
      | none => .error (sqlError "Catalog Error: the relation does not exist")
      | some e =>
          if e.kind.isView ≠ isView s source then
            .error (sqlError "Catalog Error: existing object is of another type")
          else if s.catalogue.any fun f => !f.relation.same source && f.relation.same replacement then
            .error (sqlError "Catalog Error: another entry with this name already exists")
          else
            let catalogue := s.catalogue.map fun f =>
              { f with
                relation := if f.relation.same source then replacement else f.relation
                kind := Kind.rename source replacement f.kind }
            Metadata.renameNode { s with catalogue := catalogue } object name

def findColumn (fields : List (String × String)) (name : String) : Option (String × String) :=
  fields.find? fun f => eqIgnoreAsciiCase f.1 name

def columnName (relation : Relation) (input : String) : Except Error String :=
  match findColumn (s.columns relation) input with
  | some f => .ok f.1
  | none => .error (.invalid ("Column is unavailable: " ++ input))

def setColumn (fields : List (String × String)) (column kind : String) : List (String × String) :=
  if fields.any fun f => f.1 = column then fields.map fun f => if f.1 = column then (column, kind) else f
  else fields ++ [(column, kind)]

def columnExists : Error := .invalid "A column with this name already exists"

/-- The column a single change is about. -/
def changedColumn (fields : List (String × String)) (adds creates : Bool) (requested : String) : Except Error String :=
  match findColumn fields requested with
  | some f => if adds then .error columnExists else .ok f.1
  | none =>
      if (adds || creates) && !(Text.trim requested).isEmpty then
        if (findColumn fields (Text.trim requested)).isSome then .error columnExists else .ok (Text.trim requested)
      else .error (.invalid ("Column is unavailable: " ++ requested))

/-- A new column of a Table that a single expression fills is a VARCHAR, and
one that exists keeps its type. -/
def storedKind (view : Bool) (fields : List (String × String)) (column kind fresh : String) : String :=
  if view then kind else ((fields.find? fun f => f.1 = column).map Prod.snd).getD fresh

def resolveItem (fields : List (String × String)) (done : List ColumnExpression) (item : ColumnExpression) :
    Except Error (List ColumnExpression) := do
  let column ←
    if item.replace then
      match findColumn fields item.column with
      | some f => .ok f.1
      | none => .error (.invalid ("Column is unavailable: " ++ item.column))
    else if (Text.trim item.column).isEmpty then .error (.invalid "Enter a column name")
    else if (findColumn fields (Text.trim item.column)).isSome then .error columnExists
    else .ok (Text.trim item.column)
  if done.any fun d => eqIgnoreAsciiCase d.column column then .error (.invalid "Output column names must be unique")
  else .ok (done ++ [{ item with column := column }])

def transformColumns (object : ResolvedObject) (requested : List ColumnExpression) : Except Error State :=
  if requested.isEmpty ∨ requested.length > 50 then .error (.invalid "Change between 1 and 50 columns at once")
  else do
    let fields := s.columns object.relation
    let resolved ← requested.foldlM (resolveItem fields) []
    let view := isView s object.relation
    let columns := resolved.foldl (fun columns item =>
      setColumn columns item.column (storedKind view fields item.column item.kind item.kind)) fields
    resolved.foldlM (fun s item => Metadata.transformedColumn s object item.column) (setColumns s object.relation columns)

def chooseColumn (relation : Relation) (done : List String) (requested : String) : Except Error (List String) := do
  let name ← columnName s relation requested
  if name ∈ done then .error (.invalid "Choose each column only once") else .ok (done ++ [name])

def deleteColumns (relation : Relation) (requested : List String) : Except Error State :=
  if requested.isEmpty then .error (.invalid "Choose columns to delete")
  else do
    let names ← requested.foldlM (chooseColumn s relation) []
    if names.length = (s.columns relation).length then .error (.invalid "Keep at least one column")
    else
      let columns := (s.columns relation).filter fun f => f.1 ∉ names
      return names.foldl (fun s name => Metadata.removeColumn s relation name) (setColumns s relation columns)

/-- A change of type: `CAST`, an order of categories, an expression. -/
def retypeColumn (object : ResolvedObject) (column kind : String) : Except Error State :=
  Metadata.transformedColumn (setColumns s object.relation (setColumn (s.columns object.relation) column kind)) object column

def renameColumn (object : ResolvedObject) (column name : String) : Except Error State := do
  let fields := s.columns object.relation
  let before ← columnName s object.relation column
  let name := Text.trim name
  if name.isEmpty then .error (.invalid "Column name cannot be empty")
  else if fields.any fun f => f.1 ≠ before && eqIgnoreAsciiCase f.1 name then .error columnExists
  else
    Metadata.renameColumn
      (setColumns s object.relation (fields.map fun f => if f.1 = before then (name, f.2) else f)) object before name

/-- A statement on a Table finds it in any letter case. -/
def addColumn (relation : Relation) (column kind : String) : Except Error State :=
  match s.lookup relation with
  | none => .error (sqlError "Catalog Error: the relation does not exist")
  | some e =>
      if e.kind.isView ≠ isView s relation ∨ (findColumn e.columns column).isSome then
        .error (sqlError "Catalog Error: the column cannot be added")
      else
        .ok { s with
          catalogue := s.catalogue.map fun f =>
            if f.relation.same relation then { f with columns := f.columns ++ [(column, kind)] } else f }

def deleteColumn (relation : Relation) (column : String) : Except Error State := do
  let fields := s.columns relation
  let column ← changedColumn fields false false column
  if fields.length ≤ 1 then .error (sqlError "Binder Error: a relation keeps at least one column")
  else return Metadata.removeColumn (setColumns s relation (fields.filter fun f => f.1 ≠ column)) relation column

def changeColumn (target : ObjectTarget) (change : ColumnChange) : Except Error State := do
  let object ← resolve s target
  let fields := s.columns object.relation
  match change with
  | .orderCategories column kind => do
      let column ← columnName s object.relation column
      retypeColumn s object column kind
  | .transformMany columns => transformColumns s object columns
  | .deleteMany columns => deleteColumns s object.relation columns
  | .add column kind => do
      let column ← changedColumn fields true true (Text.trim column)
      addColumn s object.relation column kind
  | .cast column kind => do
      let column ← changedColumn fields false false column
      retypeColumn s object column kind
  | .rename column name => renameColumn s object column name
  | .delete column => deleteColumn s object.relation column
  | .transform column kind => do
      let column ← changedColumn fields false true column
      retypeColumn s object column (storedKind (isView s object.relation) fields column kind "VARCHAR")

/-- A colour is written as `#` and six hexadecimal digits. -/
def hexadecimal (value : String) : Bool :=
  match value.toList with
  | '#' :: digits => digits.length = 6 && digits.all fun c => c.isDigit || c.toLower ∈ ['a', 'b', 'c', 'd', 'e', 'f']
  | _ => false

def setPreference (name : String) (input : NodePreference) : Except Error State :=
  match input with
  | .documentColumn value =>
      .ok { s with nodes := s.nodes.map fun n => if n.tableName = name then { n with documentColumn := value } else n }
  | .color value =>
      if value.any fun v => !hexadecimal v then
        .error ⟨"invalid_preference", "Color must be a six-digit hexadecimal color"⟩
      else .ok { s with nodes := s.nodes.map fun n => if n.tableName = name then { n with color := value } else n }
  | .tokenizer column (some value) =>
      if value ∉ env.tokenizerModels then .error ⟨"invalid_preference", "Unknown tokenizer model"⟩
      else
        let others := s.tokenizerModels.filter fun m => !(m.tableName = name && m.columnName = column)
        .ok { s with tokenizerModels := others ++ [⟨name, column, value⟩] }
  | .tokenizer column none =>
      .ok { s with tokenizerModels := s.tokenizerModels.filter fun m => !(m.tableName = name && m.columnName = column) }

def NodePreference.column : NodePreference → Option String
  | .documentColumn value => value
  | .tokenizer column _ => some column
  | .color _ => none

def setNodePreference (name : String) (input : NodePreference) : Except Error State := do
  let found ← node s name
  if (NodePreference.column input).any fun column =>
      s.dataType ⟨"data", found.tableName⟩ column ≠ some "VARCHAR" then
    .error ⟨"invalid_preference", "Choose an existing text column"⟩
  else setPreference env s found.tableName input

end Changes

end Database

/-- An operation of the program, or a statement that the user runs. -/
inductive Operation
  | importSources (sources : List PreparedSource)
  | createViews (views : List CreateView)
  | cloneNode (target : ObjectTarget)
  | renameNode (target : ObjectTarget) (name : String)
  | changeColumn (target : ObjectTarget) (change : ColumnChange)
  | materialize (target : ObjectTarget)
  | deleteNode (target : ObjectTarget)
  | deleteObjects (targets : List ObjectTarget)
  | setNodePreference (name : String) (input : NodePreference)
  | create (e : Entry)
  | drop (relation : Relation)

/-- An operation that is accepted; one that is refused is rolled back. -/
def apply (env : Environment) (s : State) : Operation → Option State
  | .importSources sources => (Database.importSources s sources).toOption
  | .createViews views => (Database.createViews s views).toOption
  | .cloneNode target => (Database.cloneNode env s target).toOption
  | .renameNode target name => (Database.renameNode s target name).toOption
  | .changeColumn target change => (Database.changeColumn s target change).toOption
  | .materialize target => (Database.materialize s target).toOption
  | .deleteNode target => (Database.deleteNode s target).toOption
  | .deleteObjects targets => (Database.deleteObjects s targets).toOption
  | .setNodePreference name input => (Database.setNodePreference env s name input).toOption
  | .create e => (create s e).toOption
  | .drop relation => some (remove s relation)

end Wordflow.Registry
