import Wordflow.Crates.Metadata
import Wordflow.Library.Entries
import Wordflow.Library.Fresh
import Wordflow.Library.Tally

namespace Wordflow.Crates

open Library Library.Fallible Library.Fresh Library.OrderedMap

structure TableConfig where
  ignoreProps : List String
  expandProps : List String
  junctions : List String

structure Config where
  tables : List (String × TableConfig)

abbrev Row := List (String × Json)

/-- A row of a companion table. -/
structure CompanionRow where
  sourceId : String
  ordinal : Nat
  targetId : Option String
  value : Json

def CompanionRow.toRow (r : CompanionRow) : Row :=
  [("source_id", .str r.sourceId), ("ordinal", .ofNat r.ordinal), ("target_id", .ofOption r.targetId), ("value", r.value)]

/-- What the rows written so far leave behind: the origin of each column, and the companion tables by property. -/
structure Builder where
  origins : Map String String
  companions : List (String × List CompanionRow)

def scalar (compatibility : Bool) (value : Json) : Json :=
  let normalized :=
    if compatibility then jsonldValue value
    else
      match value with
      | .obj [("@value", inner)] => inner
      | value => value
  match normalized with
  | .arr items => .str (canonicalJson compatibility (.arr items))
  | .obj fields => .str (canonicalJson compatibility (.obj fields))
  | other => other

/-- The name of the column that the value after `suffix` others goes to. -/
def columnName (name : String) (suffix : Nat) : String := if suffix = 0 then name else name ++ "_" ++ toString suffix

def collision (column : String) : Error := .conversion ("generated column collision: " ++ column)

section Rows

-- The scan for wide properties is over before the first row is written.
variable (krate : RoCrate) (config : TableConfig) (compatibility : Bool) (wide : List String)

def put (b : Builder) (row : Row) (name : String) (value : Json) (origin : String) : Except Error (Builder × Row) :=
  if !compatibility && (b.origins.get? name).any (· ≠ origin) then .error (collision name)
  else
    let suffix := firstFree (row.map Prod.fst) (columnName name) (row.map Prod.fst).length 0
    let column := columnName name suffix
    if suffix > 10 then .error (.conversion ("RO-Crate property has too many values: " ++ name))
    else if compatibility then .ok (b, row ++ [(column, value)])
    else if (b.origins.get? column).any (· ≠ origin) then .error (collision column)
    else .ok ({ b with origins := b.origins.insert column origin }, row ++ [(column, value)])

/-- An object with no other key than the identifier it refers to. -/
def bareReference (value : Json) : Option String :=
  match value with
  | .obj [_] => reference value
  | _ => none

def isJunction (name : String) : Bool := decide (name ∈ config.junctions) || decide (name ∈ wide)

def targetName (target : Option String) : String :=
  (((target.bind krate.entity).bind fun entity => firstString (Json.lookup entity "name"))).getD ""

/-- The ordinal after those of the entity whose rows end the table. -/
def nextOrdinal (rows : List CompanionRow) (id : String) : Nat :=
  match rows.getLast? with
  | some last => if last.sourceId = id then last.ordinal + 1 else 0
  | none => 0

def companionRow (id : String) (ordinal : Nat) (target : Option String) (value : Json) : CompanionRow where
  sourceId := id
  ordinal := ordinal
  targetId := target
  value := if target.isSome then .str (targetName krate target) else scalar compatibility value

def appendValue (id name origin : String) (state : Builder × Row) (value : Json) : Except Error (Builder × Row) :=
  let (b, row) := state
  let target := if compatibility then reference value else bareReference value
  if !compatibility && isJunction config wide name then
    let companions := Entries.change []
      (fun rows => rows ++ [companionRow krate compatibility id (nextOrdinal rows id) target value]) b.companions name
    .ok ({ b with companions }, row)
  else
    match target with
    | some targetId => do
        let (b, row) ← put compatibility b row name (.str (targetName krate target)) origin
        put compatibility b row (name ++ "_id") (.str targetId) (origin ++ "/@id")
    | none => put compatibility b row name (scalar compatibility value) origin

def append (id name : String) (raw : Json) (origin : String) (state : Builder × Row) : Except Error (Builder × Row) :=
  (asList raw).foldlM (appendValue krate config compatibility wide id name origin) state

/-- The properties of the entity a value refers to, under names that begin with the property's. -/
def expandValue (id name : String) (state : Builder × Row) (value : Json) : Except Error (Builder × Row) :=
  match (reference value).bind krate.entity with
  | some target =>
      target.foldlM (fun state property =>
        let expanded := name ++ "_" ++ property.1
        if property.1 = "@id" ∨ expanded ∈ config.ignoreProps then .ok state
        else append krate config compatibility wide id expanded property.2 (name ++ "/" ++ property.1) state) state
  | none => .ok state

def addProperty (id : String) (state : Builder × Row) (property : String × Json) : Except Error (Builder × Row) :=
  let (name, value) := property
  if name = "@id" then .ok state
  else
    let junction := isJunction config wide name
    if compatibility && junction then .ok state
    else if !compatibility && decide (name ∈ config.ignoreProps) then .ok state
    else if !compatibility && junction then append krate config compatibility wide id name value name state
    else if name ∈ config.expandProps then
      (asList value).foldlM (expandValue krate config compatibility wide id name) state
    else if name ∉ config.ignoreProps then append krate config compatibility wide id name value name state
    else .ok state

def entityRow (b : Builder) (entity : Entity) : Except Error (Builder × Row) :=
  match Json.lookup entity "@id" with
  | some (.str id) => do
      let state ← put compatibility b [] "entity_id" (.str id) "@id"
      entity.foldlM (addProperty krate config compatibility wide id) state
  | _ => .error (.invalidInput "missing entity ID")

def addRow (state : Builder × List Row) (entity : Entity) : Except Error (Builder × List Row) := do
  let (b, row) ← entityRow krate config compatibility wide state.1 entity
  .ok (b, state.2 ++ [row])

end Rows

section Scan

variable (krate : RoCrate) (config : TableConfig) (compatibility : Bool)

def references (values : List Json) : Nat := values.countP fun v => (reference v).isSome

/-- What expanding the properties of an entity adds to each expanded name: how many values, and how many references. -/
def expandedCounts (entity : Entity) : Map String (Nat × Nat) :=
  Map.tally (entity.flatMap fun property =>
    if property.1 ≠ "@id" ∧ compatibility = false ∧ property.1 ∈ config.expandProps then
      (asList property.2).flatMap fun value =>
        (((reference value).bind krate.entity).getD []).map fun target =>
          (property.1 ++ "_" ++ target.1, (asList target.2).length, references (asList target.2))
    else [])

def wideProperties (entity : Entity) : List String :=
  let direct := entity.filter fun property => property.1 ≠ "@id" ∧
    (references (asList property.2) > 10 ∨ compatibility = false ∧ (asList property.2).length > 11)
  let expanded := (expandedCounts krate config compatibility entity).entries.filter fun count =>
    count.2.1 > 11 ∨ count.2.2 > 10
  direct.map Prod.fst ++ expanded.map Prod.fst

def scanWide (entities : List Entity) : List String := entities.flatMap (wideProperties krate config compatibility)

end Scan

inductive TableKind
  | entity (origins : Map String String)
  | relationshipOrValue (property : String)

structure Table where
  name : String
  entityType : String
  kind : TableKind
  columns : List String
  rows : List Row

def fromRowsWithColumns (name entityType : String) (kind : TableKind) (initial : List String) (rows : List Row) : Table where
  name := name
  entityType := entityType
  kind := kind
  columns := (rows.flatMap fun row => row.map Prod.fst).foldl
    (fun columns key => if key ∈ columns then columns else columns ++ [key]) initial
  rows := rows

def mainTable (kind : String) (b : Builder) (rows : List Row) : Table :=
  fromRowsWithColumns kind kind (.entity b.origins) ["entity_id"] rows

def companionTable (kind : String) (companion : String × List CompanionRow) : Table :=
  fromRowsWithColumns (kind ++ "_" ++ companion.1) kind (.relationshipOrValue companion.1)
    ["source_id", "ordinal", "target_id", "value"] (companion.2.map CompanionRow.toRow)

def insertTable (output : List Table) (table : Table) : Except Error (List Table) :=
  if table.name ∈ output.map Table.name then .error (.conversion ("table name collision: " ++ table.name))
  else .ok (output ++ [table])

def tabulated (krate : RoCrate) (kind : String) : List (String × Entity) :=
  krate.entities.filter fun e => kind ∈ entityTypes e.2

/-- The main table of a type of entities, and its companion tables. -/
def tablesOf (krate : RoCrate) (config : TableConfig) (compatibility : Bool) (kind : String) : Except Error (List Table) :=
  let entities := (tabulated krate kind).map Prod.snd
  if compatibility && entities.isEmpty then .error (.conversion ("RO-Crate contains no " ++ kind ++ " metadata"))
  else do
    let wide := scanWide krate config compatibility entities
    let (b, rows) ← entities.foldlM (addRow krate config compatibility wide) (⟨.empty, []⟩, [])
    .ok (mainTable kind b rows :: b.companions.map (companionTable kind))

def addTables (krate : RoCrate) (compatibility : Bool) (output : List Table) (table : String × TableConfig) :
    Except Error (List Table) := do
  let tables ← tablesOf krate table.2 compatibility table.1
  tables.foldlM insertTable output

def convert (krate : RoCrate) (config : Config) (compatibility : Bool) : Except Error (List Table) :=
  if config.tables.isEmpty then .error (.invalidInput "RO-Crate tabular configuration has no tables")
  else config.tables.foldlM (addTables krate compatibility) []

end Wordflow.Crates
