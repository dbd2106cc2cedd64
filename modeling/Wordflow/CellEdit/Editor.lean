import Mathlib.Data.String.Basic
import Wordflow.Annotation
import Wordflow.Library.OrderedMap
import Wordflow.Protection

namespace Wordflow.CellEdit

open Library Library.Fallible Library.Identifier Objects Renames Tables Annotation

variable {V : Type}

structure Column where
  name : String
  dataType : String
  editable : Bool
  identifier : Bool
  deriving DecidableEq

/-- An editing session: the leased target, the relation it resolved to, the
catalogue as its reader sees it, and the change notifications not read yet.
`missed` is a receiver that lags behind the channel. -/
structure Session (V : Type) where
  target : ObjectTarget
  relation : Relation
  columns : List Column
  rowType : String
  annotation : Option EditRequest
  snapshot : Catalogue V
  pending : List (List Rename)
  missed : Bool
  lostNotifications : Bool
  deriving DecidableEq

structure Editor (V : Type) where
  sessions : List (String × Session V)
  completed : List (String × Bool)
  deriving DecidableEq

structure World (V : Type) where
  catalogue : Catalogue V
  editor : Editor V
  deriving DecidableEq

def editableTypes : List String :=
  ["VARCHAR", "BOOLEAN", "TINYINT", "SMALLINT", "INTEGER", "BIGINT", "HUGEINT", "UTINYINT", "USMALLINT",
    "UINTEGER", "UBIGINT", "UHUGEINT", "FLOAT", "DOUBLE", "DATE", "TIME", "TIME WITH TIME ZONE", "TIMESTAMP",
    "TIMESTAMP_S", "TIMESTAMP_MS", "TIMESTAMP_NS", "TIMESTAMP WITH TIME ZONE"]

def editableType (ty : String) : Bool :=
  ty ∈ editableTypes || "DECIMAL(".isPrefixOf ty || "ENUM(".isPrefixOf ty

def editingClosed : Error := ⟨"editing_closed", "This table editing session has ended"⟩

namespace Editor

def editing (e : Editor V) (id : String) : Except Error (Session V) :=
  match e.sessions.find? fun s => s.1 = id with
  | some s => .ok s.2
  | none => .error editingClosed

def setSession (e : Editor V) (id : String) (session : Session V) : Editor V :=
  { e with sessions := e.sessions.map fun s => if s.1 = id then (id, session) else s }

def remove (e : Editor V) (id : String) : Editor V :=
  { e with sessions := e.sessions.filter fun s => s.1 ≠ id }

/-- The end of a Save or Cancel. -/
def finish (e : Editor V) (id : String) (saved : Bool) : Editor V :=
  let completed := e.completed ++ [(id, saved)]
  { e.remove id with completed := if completed.length > 100 then completed.drop 1 else completed }

end Editor

/-- Whether two rows can be told apart by `rowid`. -/
def validateIdentifiers [DecidableEq V] (sql : Sql V) (rows : List (Row V)) : Except Error Unit :=
  if (rows.all fun r => (sql.text (r.key sql)).isSome) ∧ (rows.map fun r => sql.compare (r.key sql)).Nodup then .ok ()
  else
    .error (.invalid "The explicit rowid column must contain unique, non-NULL identifiers before editing")

/-- The columns of a new session with the type of its row references. -/
def markIdentifier : List (String × String) → Except Error (List Column × String)
  | [] => .ok ([], "BIGINT")
  | (name, ty) :: rest =>
      if eqIgnoreAsciiCase name "rowid" then
        if !editableType ty && ty ≠ "UUID" then
          .error (.invalid ("Column " ++ name ++ " has type " ++ ty ++
            ", which is not supported as an editing identifier"))
        else .ok (⟨name, ty, false, true⟩ :: rest.map fun c => ⟨c.1, c.2, editableType c.2, false⟩, ty)
      else (markIdentifier rest).map fun r => (⟨name, ty, editableType ty, false⟩ :: r.1, r.2)

/-- `stale` says that the caller expects another mutation stamp. The lease is
taken on the target before the editor is reached. -/
def beginCellEdit [DecidableEq V] (sql : Sql V) (c : Catalogue V) (e : Editor V) (target : ObjectTarget)
    (stale : Bool) (id : String) : Except Error (Editor V) := do
  match e.sessions.find? fun s => Protection.same s.2.target target with
  | some s => .error (Protection.editingActive ⟨some [s.2.target], .manual⟩)
  | none =>
      let relation ← resolve c target
      if stale then
        .error ⟨"editing_stale",
          "This Data Block has changed. Refresh Preview before editing corrections"⟩
      else match (c.table? relation).filter Table.base with
        | none => .error (.invalid "Materialise this View before editing its cells")
        | some t =>
            let (columns, rowType) ← markIdentifier t.columns
            (if columns.any Column.identifier then validateIdentifiers sql t.rows else .ok ())
            return { e with
              sessions := e.sessions ++ [(id, ⟨target, relation, columns, rowType, none, c, [], false, false⟩)] }

def restrictAnnotation (sql : Sql V) (e : Editor V) (id : String) (request : EditRequest) :
    Except Error (Editor V) := do
  let session ← e.editing id
  request.validate sql session.snapshot
  let columns := session.columns.map fun c => { c with editable := c.editable && request.columns.contains c.name }
  if request.columns.any fun name => !columns.any fun c => c.name = name && c.editable then
    .error (.invalid "An identifying column cannot be edited as an Annotation label or code")
  else return e.setSession id { session with columns := columns, annotation := some request }

/-- `setup` is what saving a manual setup returns. -/
def configure (sql : Sql V) (e : Editor V) ( annotation : Option EditRequest) (setup : Except Error Unit)
    (id : String) : Except Error (Editor V) :=
  match annotation with
  | none => .ok e
  | some request => do
      let e ← restrictAnnotation sql e id request
      setup
      return e

/-- `begin_editor`: an annotation session that cannot be set up is given up. -/
def beginEditor [DecidableEq V] (sql : Sql V) (w : World V) (target : ObjectTarget) (stale : Bool)
    ( annotation : Option EditRequest) (setup : Except Error Unit) (id : String) : Except Error Unit × World V :=
  match beginCellEdit sql w.catalogue w.editor target stale id with
  | .error error => (.error error, w)
  | .ok editor =>
      match configure sql editor annotation setup id with
      | .ok configured => (.ok (), { w with editor := configured })
      | .error error => (.error error, { w with editor := editor.remove id })

/-- The broadcast channel keeps the last 128 notifications for a receiver. -/
def Session.notify (s : Session V) (renames : List Rename) : Session V :=
  if s.pending.length < 128 then { s with pending := s.pending ++ [renames] }
  else { s with pending := s.pending.drop 1 ++ [renames], missed := true }

def publish (e : Editor V) (renames : List Rename) : Editor V :=
  { e with sessions := e.sessions.map fun s => (s.1, s.2.notify renames) }

/-- Read all notifications: the session's rules follow renames, unless some
were missed. -/
def Session.reconcile (s : Session V) : Session V × Except Error Unit :=
  if s.lostNotifications then
    (s, .error ⟨"editing_stale", "This editing session cannot reconcile missed source changes. Copy pending edits, Cancel and reopen it"⟩)
  else if s.missed ∧ s.annotation.isSome then
    ({ s with missed := false, lostNotifications := true },
      .error ⟨"editing_stale", "Too many source changes occurred to reconcile this editing session. Copy your pending edits, Cancel and reopen the editor"⟩)
  else
    ({ s with
      missed := false
      pending := []
      annotation := s.annotation.map fun request =>
        s.pending.flatten.foldl (fun request rename => renameRequest rename request) request }, .ok ())

def reconcileReferences (e : Editor V) (id : String) : Editor V × Except Error Unit :=
  match e.sessions.find? fun s => s.1 = id with
  | none => (e, .ok ())
  | some s => (e.setSession id s.2.reconcile.1, s.2.reconcile.2)

/-- The checks of a page request; the rows it reads change nothing. `read` is
what reading them returns. -/
def cellEditPage (w : World V) (id : String) (page pageSize : Nat) (sorting : List String)
    (read : Except Error Unit) : Except Error Unit × World V :=
  let (editor, reconciled) := reconcileReferences w.editor id
  let result := do
    reconciled
    let session ← editor.editing id
    if page = 0 ∨ pageSize = 0 ∨ pageSize > 1000 then
      .error (.invalid "Page must be positive and page size must be between 1 and 1000")
    else if (page - 1) * pageSize ≥ 2 ^ 63 then .error (.invalid "Page offset is too large")
    else if sorting.any fun name => !session.columns.any fun c => c.name = name then
      .error (.invalid "Unknown sort column")
    else read
  (result, { w with editor := editor })

/-- What a Save asks for, checked against the columns of its session. -/
structure Plan where
  rows : List (String × List (String × (String × Option String)))
  deletions : List (String × Unit)
  insertions : List (List (String × String × Option String))

def collectDeletion (deletions : List (String × Unit)) (rowRef : String) : Except Error (List (String × Unit)) :=
  if (OrderedMap.get? deletions rowRef).isSome then
    .error (.invalid "A row occurs more than once in the deletions")
  else .ok (OrderedMap.insert deletions rowRef ())

def editableColumn (columns : List Column) (name : String) : Except Error Column :=
  match columns.find? fun c => c.name = name && c.editable with
  | some column => .ok column
  | none => .error (.invalid ("Column " ++ name ++ " is not editable"))

def collectPatch (columns : List Column) (deletions : List (String × Unit))
    (rows : List (String × List (String × (String × Option String)))) (patch : Patch) :
    Except Error (List (String × List (String × (String × Option String)))) := do
  let column ← editableColumn columns patch.column
  if (OrderedMap.get? deletions patch.rowRef).isSome then
    .error (.invalid "A deleted row cannot also have cell changes")
  else
    let cells := (OrderedMap.get? rows patch.rowRef).getD []
    if (OrderedMap.get? cells column.name).isSome then
      .error (.invalid "A cell occurs more than once in the changes")
    else
      .ok (OrderedMap.insert rows patch.rowRef (OrderedMap.insert cells column.name (column.dataType, patch.value)))

def collectCell (columns : List Column) (value : String × Option String) :
    Except Error (String × String × Option String) :=
  match columns.find? fun c => c.name = value.1 && (c.editable || c.identifier) with
  | some column => .ok (value.1, column.dataType, value.2)
  | none => .error (.invalid ("Column " ++ value.1 ++ " is not editable"))

def insertionValue (insertion : Insertion) (name : String) : Option (Option String) :=
  (insertion.values.find? fun v => v.1 = name).map Prod.snd

def collectInsertion (columns : List Column) (insertion : Insertion) :
    Except Error (List (String × String × Option String)) :=
  match columns.find? Column.identifier with
  | some key =>
      if (insertionValue insertion key.name).join = none then
        .error (.invalid ("New rows require a non-NULL " ++ key.name ++ " identifier"))
      else insertion.values.mapM (collectCell columns)
  | none => insertion.values.mapM (collectCell columns)

def collect (columns : List Column) (input : Save) : Except Error Plan := do
  let deletions ← input.deletions.foldlM collectDeletion []
  let rows ← input.changes.foldlM (collectPatch columns deletions) []
  let insertions ← input.insertions.mapM (collectInsertion columns)
  return ⟨rows, deletions, insertions⟩

section Statements

variable [DecidableEq V] (sql : Sql V)

def denotesKey (rowRef : String) (key : V) (row : Row V) : Bool :=
  sql.equal (row.key sql) key && sql.text (row.key sql) = some rowRef

/-- `EXISTS` of the row a reference names, in the snapshot of the session. -/
def checkReference (session : Session V) (rowRef : String) : Except Error Unit := do
  let key ← sql.cast session.rowType (some rowRef)
  if (((session.snapshot.table? session.relation).map Table.rows).getD []).any (denotesKey sql rowRef key) then .ok ()
  else .error (.invalid "An edited row is unavailable")

def matched (key : V) (row : Row V) : Bool := sql.equal (row.key sql) key

def deleteRow (session : Session V) (t : Table V) (rowRef : String) : Except Error (Table V) := do
  let key ← sql.cast session.rowType (some rowRef)
  let changed := t.delete (matched sql key)
  sql.constraints session.relation changed.rows
  if (t.rows.filter (matched sql key)).length ≠ 1 then .error (.invalid "A deleted row is unavailable")
  else return changed

def castCells (cells : List (String × (String × Option String))) : Except Error (List (String × V)) :=
  cells.mapM fun c => (sql.cast c.2.1 c.2.2).map fun v => (c.1, v)

def assign (values : List (String × V)) (cell : String × V) : V :=
  ((values.find? fun v => v.1 = cell.1).map Prod.snd).getD cell.2

def updateCells (session : Session V) (t : Table V) (row : String × List (String × (String × Option String))) :
    Except Error (Table V) := do
  let values ← castCells sql row.2
  let key ← sql.cast session.rowType (some row.1)
  let changed := t.update (matched sql key) (assign values) (sql.moves session.relation (row.2.map Prod.fst))
  sql.constraints session.relation changed.rows
  if (t.rows.filter (matched sql key)).length ≠ 1 then .error (.invalid "An edited row is unavailable")
  else return changed

/-- One cell of a row an INSERT writes; columns it does not name take their
default. -/
def insertCell (relation : Relation) (values : List (String × V)) (column : String × String) :
    Except Error (String × V) :=
  match values.find? fun v => v.1 = column.1 with
  | some v => .ok (column.1, v.2)
  | none => (sql.default relation column.1).map fun v => (column.1, v)

def insertRow (session : Session V) (t : Table V) (cells : List (String × String × Option String)) :
    Except Error (Table V) := do
  let values ← castCells sql cells
  let row ← t.columns.mapM (insertCell sql session.relation values)
  if h : row.map Prod.fst = t.columns.map Prod.fst then
    let changed := t.insert row h
    sql.constraints session.relation changed.rows
    return changed
  else .error (sqlError "Binder Error: column count mismatch")

/-- The statements of a Save in their order. -/
def applyPlan (session : Session V) (t : Table V) (plan : Plan) : Except Error (Table V) := do
  let t ← plan.deletions.foldlM (fun t d => deleteRow sql session t d.1) t
  let t ← plan.rows.foldlM (updateCells sql session) t
  plan.insertions.foldlM (insertRow sql session) t

def acceptedChanges (live : Catalogue V) (session : Session V) (input : Save) : Except Error Save :=
  match session.annotation with
  | some rules => rules.validateChanges sql live input
  | none => .ok input

def validateResult (session : Session V) (live : Catalogue V) (t : Table V) : Except Error Unit := do
  (if session.columns.any Column.identifier then validateIdentifiers sql t.rows else .ok ())
  match session.annotation with
  | some rules => rules.validateSaved sql (live.set session.relation t)
  | none => .ok ()

def Plan.isEmpty (plan : Plan) : Bool := plan.rows.isEmpty && plan.deletions.isEmpty && plan.insertions.isEmpty

/-- The write transaction of a Save; `none` is a Save that asks for nothing. -/
def saveTransaction (live : Catalogue V) (session : Session V) (input : Save) : Except Error (Option (Catalogue V)) := do
  let input ← acceptedChanges sql live session input
  let plan ← collect session.columns input
  (plan.rows.map Prod.fst ++ plan.deletions.map Prod.fst).forM (checkReference sql session)
  if plan.isEmpty then return none
  else match live.table? session.relation with
    | none => .error (sqlError "Catalog Error: Table does not exist")
    | some t =>
        let changed ← applyPlan sql session t plan
        validateResult sql session live changed
        return some (live.set session.relation changed)

/-- `writer` is what opening a connection returns, `commit` how the commit
ends. -/
def saveCellEdit (w : World V) (id : String) (input : Save) (writer commit : Except Error Unit) :
    Except Error Bool × World V :=
  if w.editor.completed.any fun c => c.1 = id && c.2 then (.ok true, w)
  else
    let (editor, reconciled) := reconcileReferences w.editor id
    let w := { w with editor := editor }
    let result := do
      reconciled
      let session ← editor.editing id
      writer
      let changed ← saveTransaction sql w.catalogue session input
      (if changed.isSome then commit else .ok ())
      return changed
    match result with
    | .error error => (.error error, w)
    | .ok none => (.ok true, { w with editor := editor.finish id true })
    | .ok (some catalogue) => (.ok true, ⟨catalogue, (publish editor []).finish id true⟩)

end Statements

def cancelCellEdit (w : World V) (id : String) : Except Error Bool × World V :=
  if w.editor.completed.any fun c => c.1 = id && !c.2 then (.ok false, w)
  else match w.editor.editing id with
    | .error error => (.error error, w)
    | .ok _ => (.ok false, { w with editor := w.editor.finish id false })

end Wordflow.CellEdit
