import Mathlib.Algebra.GroupWithZero.Nat
import Wordflow.AnnotationRun.Inference
import Wordflow.CellEdit.Save

namespace Wordflow.AnnotationRun

open Library Library.Chunks Library.Identifier Objects Tables Annotation CellEdit

inductive Processing
  | all
  | missing
  deriving DecidableEq

structure Request where
  setup : ManualSetup
  inference : Inference
  processing : Processing
  deriving DecidableEq

structure Report where
  processed : Nat
  preserved : Nat
  skipped : Nat
  failed : Nat
  deriving DecidableEq

/-- The order in which the database gives distinct texts. -/
structure DistinctOrder where
  order : List String → List String
  nodup : ∀ texts, (order texts).Nodup
  mem : ∀ texts text, text ∈ order texts ↔ text ∈ texts

variable {V : Type}

/-- A run on the table it captured. The captured references and texts, the
distinct texts, numbered from 1, and the predictions are temporary relations. -/
structure Run (V : Type) where
  request : Request
  codes : List Code
  relation : Relation
  rowType : String
  table : Table V
  captured : List (String × String)
  inputs : List String
  predictions : List (Nat × Prediction)
  total : Nat
  eligible : Nat
  skipped : Nat
  after : Nat
  processed : Nat
  failed : Nat

section Source

variable (sql : Sql V) (request : Request) (row : Row V)

def document : Option String := cellText sql row request.setup.document

/-- Whether a text is NULL or blank. -/
def blank (text : Option String) : Bool := text.all fun t => Text.trim t = ""

def missing : Bool :=
  match request.processing with
  | .all => true
  | .missing => blank (cellText sql row request.setup.annotation)

def eligible : Bool := !blank (document sql request row) && missing sql request row

def rowRef : String := (sql.text (row.key sql)).getD ""

def documentText : String := (document sql request row).getD ""

end Source

section Capture

variable (sql : Sql V) (c : Catalogue V)

def fields (source : ObjectTarget) (names : List String) : Except Error Relation := do
  let relation ← resolve c source
  match names.find? fun name => !(c.columns relation).any fun f => f.1 = name ∧ f.2 = "VARCHAR" with
  | some name => .error (.invalid ("Column " ++ name ++ " must be a string column"))
  | none => .ok relation

def stored (relation : Relation) (request : Request) : Except Error (Table V) :=
  match (c.table? relation).filter Table.base with
  | none => .error (.invalid "Materialise this View in place before running Annotation")
  | some t =>
      if eqIgnoreAsciiCase request.setup.annotation "rowid" then
        .error (.invalid "The row identifier cannot be an annotation destination")
      else .ok t

/-- `Request::validate` of a run that writes. -/
def Request.validate (request : Request) : Except Error (Relation × Table V) := do
  let relation ← fields c request.setup.source [request.setup.document]
  if request.setup.codebook.isNone then .error (.invalid "Choose a Codebook")
  else do
    (EditRequest.manual request.setup).validate sql c
    let t ← stored c relation request
    return (relation, t)

def captureContext (request : Request) : Except Error (List Code) :=
  match request.setup.codebook with
  | none => .error (.invalid "Choose a Codebook")
  | some book => readCodebook sql c book

def rowType (columns : List (String × String)) : String :=
  ((columns.find? fun f => eqIgnoreAsciiCase f.1 "rowid").map Prod.snd).getD "BIGINT"

def capture [DecidableEq V] (distinct : DistinctOrder) (request : Request) : Except Error (Run V) := do
  let found ← request.validate sql c
  let rows := found.2.rows
  let type := rowType found.2.columns
  if !editableType type && type ≠ "UUID" then
    .error (.invalid "The rowid column has an unsupported editing identifier type")
  else do
    validateIdentifiers sql rows
    let codes ← captureContext sql c request
    let captured := (rows.filter (eligible sql request)).map fun r => (rowRef sql r, documentText sql request r)
    return {
      request := request
      codes := codes
      relation := found.1
      rowType := type
      table := found.2
      captured := captured
      inputs := distinct.order (captured.map Prod.snd)
      predictions := []
      total := rows.length
      eligible := captured.length
      skipped := (rows.filter fun r => blank (document sql request r)).length
      after := 0
      processed := 0
      failed := 0 }

end Capture

/-- One row of an UPDATE that gives a column a value in the rows that have one. -/
def relabelRow (next : Nat) (column : String) (value : Row V → Option V) (moves : Bool) (row : Row V) : Row V :=
  Table.updateRow next (fun r => (value r).isSome) (fun c => if c.1 = column then (value row).getD c.2 else c.2) moves row

theorem relabelRow_rowid (next : Nat) (column : String) (value : Row V → Option V) (moves : Bool) (row : Row V) :
    (relabelRow next column value moves row).rowid = row.rowid ∨
      (relabelRow next column value moves row).rowid = next + row.rowid := Table.updateRow_rowid _ _ _ _ _

theorem relabelled_below (t : Table V) (column : String) (value : Row V → Option V) (moves : Bool) :
    ∀ r ∈ t.rows.map (relabelRow t.next column value moves), r.rowid < t.next + t.next := by
  intro r hr
  obtain ⟨old, hold, rfl⟩ := List.mem_map.mp hr
  have hlt := t.below old hold
  rcases relabelRow_rowid t.next column value moves old with h | h <;> rw [h] <;> omega

/-- The new rowids are as distinct as the old ones. -/
theorem relabelled_distinct (t : Table V) (column : String) (value : Row V → Option V) (moves : Bool) :
    ((t.rows.map (relabelRow t.next column value moves)).map Row.rowid).Nodup := by
  rw [List.map_map]
  refine (List.nodup_map_iff_inj_on (List.Nodup.of_map _ t.distinct)).mpr ?_
  intro a ha b hb hab
  have halt := t.below a ha
  have hblt := t.below b hb
  apply List.inj_on_of_nodup_map t.distinct ha hb
  simp only [Function.comp_apply] at hab
  rcases relabelRow_rowid t.next column value moves a with h₁ | h₁ <;>
    rcases relabelRow_rowid t.next column value moves b with
      h₂ | h₂ <;> rw [h₁, h₂] at hab <;> omega

def relabel (t : Table V) (column : String) (value : Row V → Option V) (moves : Bool) : Table V :=
  { t with
    rows := t.rows.map (relabelRow t.next column value moves)
    next := t.next + t.next
    shaped := by
      intro r hr
      obtain ⟨old, hold, rfl⟩ := List.mem_map.mp hr
      rw [relabelRow, Table.updateRow_names]
      exact t.shaped old hold
    below := relabelled_below t column value moves
    distinct := relabelled_distinct t column value moves }

namespace Run

variable (sql : Sql V) (run : Run V)

/-- The next window of texts with their numbers. -/
def next : List (Nat × String) × Run V :=
  let limit := run.request.inference.batchSize * run.request.inference.concurrency
  let rows := (((run.inputs.zipIdx 1).map Prod.swap).filter fun r => run.after < r.1).take limit
  (rows, { run with after := (rows.getLast?.map Prod.fst).getD run.after })

def input (ref : Nat) : Option String := if ref = 0 then none else run.inputs[ref - 1]?

/-- The captured rows of a text. -/
def rowsOf (ref : Nat) : List (String × String) := run.captured.filter fun e => run.input ref = some e.2

structure Assignment where
  row : String
  text : String
  label : Option String

/-- What the UPDATE of a batch gives each captured row. -/
def assignments (predictions : List (Nat × Prediction)) (refs : List Nat) : List Assignment :=
  predictions.flatMap fun p =>
    match p.2 with
    | .success label => if p.1 ∈ refs then (run.rowsOf p.1).map fun e => ⟨e.1, e.2, label⟩ else []
    | .failed _ => []

def update [DecidableEq V] (predictions : List (Nat × Prediction)) (refs : List Nat) : Except Error (Table V) := do
  let found := run.assignments predictions refs
  let _ ← found.mapM fun a => sql.cast run.rowType (some a.row)
  let values ← found.mapM fun a => (sql.cast "VARCHAR" a.label).map fun v => (a, v)
  let annotation := run.request.setup.annotation
  let table := relabel run.table annotation (fun row =>
    (values.find? fun a => denotes sql run.rowType a.1.row row && document sql run.request row = some a.1.text).map Prod.snd)
    (sql.moves run.relation [ annotation])
  sql.constraints run.relation table.rows
  return table

def succeeded (p : Nat × Prediction) : Nat :=
  match p.2 with
  | .success _ => (run.rowsOf p.1).length
  | .failed _ => 0

def lost (p : Nat × Prediction) : Nat :=
  match p.2 with
  | .success _ => 0
  | .failed _ => (run.rowsOf p.1).length

def stage [DecidableEq V] (refs : List Nat) (predictions : List Prediction) : Except Error (Run V) :=
  if refs.length ≠ predictions.length then .error ⟨"worker_failed", "Annotation lost prediction alignment"⟩
  else if refs.isEmpty then .ok run
  else
    let rows := refs.zip predictions
    if ¬((run.predictions ++ rows).map Prod.fst).Nodup then
      .error (sqlError "Constraint Error: Duplicate key violates primary key constraint")
    else do
      let table ← run.update sql (run.predictions ++ rows) refs
      return { run with
        table := table
        predictions := run.predictions ++ rows
        processed := run.processed + (rows.map run.succeeded).sum
        failed := run.failed + (rows.map run.lost).sum }

def diagnostics : List (String × Error) :=
  run.predictions.flatMap fun p =>
    match p.2 with
    | .success _ => []
    | .failed error => (run.rowsOf p.1).map fun e => (e.1, error)

def publish : Report × List (String × Error) :=
  (⟨run.processed, run.total - run.eligible - run.skipped, run.skipped, run.failed⟩, run.diagnostics)

end Run

/-- The loop of `submit_annotation`: the numbers of the current window, its
requests that have not completed, the windows so far, what was answered of each
text, and what became of the run. -/
structure Live (V : Type) where
  run : Run V
  refs : List Nat
  batches : List (Nat × List String)
  windows : List (List String)
  answered : List (String × Prediction)
  drained : Bool
  outcome : Option (Except Error (Report × List (String × Error)))

/-- Requests of a window complete in any order, each with the answers that the
provider gives; an error or a cancellation ends the run. -/
inductive Event
  | next
  | completed (offset : Nat) (answers : List Attempt)
  | stop (error : Error)
  | publish

namespace Live

variable [DecidableEq V] (sql : Sql V)

def start (distinct : DistinctOrder) (c : Catalogue V) (request : Request) : Except Error (Live V) := do
  let run ← capture sql c distinct request
  request.inference.prepare
  return ⟨run, [], [], [], [], false, none⟩

def next (s : Live V) : Live V :=
  let found := s.run.next
  let texts := found.1.map Prod.snd
  if texts.isEmpty then { s with drained := true }
  else
    match checkCodes sql.fold [] s.run.codes with
    | .error error => { s with outcome := some (.error error) }
    | .ok _ =>
        { s with
          run := found.2
          refs := found.1.map Prod.fst
          batches := chunks s.run.request.inference.batchSize texts
          windows := s.windows ++ [texts] }

def complete (s : Live V) (job : Nat × List String) (answers : List Attempt) : Live V :=
  match predictBatch sql.fold s.run.codes s.run.request.inference.retries answers job.2 with
  | .error error => { s with outcome := some (.error error) }
  | .ok predictions =>
      match s.run.stage sql ((s.refs.drop job.1).take predictions.length) predictions with
      | .error error => { s with outcome := some (.error error) }
      | .ok run =>
          { s with
            run := run
            batches := s.batches.erase job
            answered := s.answered ++ job.2.zip predictions }

/-- A step of a run that has not ended. -/
def step (s : Live V) (event : Event) : Option (Live V) :=
  if s.outcome.isSome then none
  else
    match event with
    | .next => if s.drained || !s.batches.isEmpty then none else some (next sql s)
    | .completed offset answers => (s.batches.find? fun job => job.1 = offset).map fun job => complete sql s job answers
    | .stop error => some { s with outcome := some (.error error) }
    | .publish => if s.drained then some { s with outcome := some (.ok s.run.publish) } else none

end Live

end Wordflow.AnnotationRun
