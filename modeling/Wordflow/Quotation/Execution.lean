import Mathlib.Data.List.Sort
import Mathlib.Data.Nat.Basic
import Wordflow.Library.OrderedMap
import Wordflow.Library.Run
import Wordflow.Objects

namespace Wordflow.Quotation

open Library.OrderedMap Objects

abbrev Uuid := Nat

/-- The column that a request binds, with its text of every source row. -/
structure CapturedDocuments where
  column : String
  texts : List (Option String)

structure QuotationPartial where
  checkedTexts : Nat
  totalTexts : Nat

structure Checkpoint where
  version : Nat
  extractorVersion : Nat
  model : String
  generation : Uuid
  processedColumn : Option String
  progress : QuotationPartial

/-- The checkpoint of an analysis with the rows of its documents and matches. -/
structure Artifacts (Quote : Type) where
  checkpointId : Uuid
  checkpoint : Checkpoint
  documents : List (Uuid × String)
  matched : List (Uuid × Quote)

structure Analysis (Quote : Type) where
  id : Uuid
  request : DocumentInput
  finished : Bool
  artifacts : Option (Artifacts Quote)

structure Tab (Quote : Type) where
  kind : String
  analysis : Option (Analysis Quote)

/-- A tab with its analysis, and what `capture_documents` reads of a source. -/
structure Database (Quote : Type) where
  tab : Option (Tab Quote)
  source : DocumentInput → Except Error CapturedDocuments

abbrev Batch := List (Uuid × String)

abbrev Completed (Quote : Type) := List (Uuid × String × List Quote)

structure Work where
  checkpointId : Uuid
  checkpoint : Checkpoint
  docs : List String
  todo : Batch
  offset : Nat

def extractorVersion : Nat := 1

def batchSize : Nat := 8

def interrupted : Error := ⟨"interrupted", "Operation interrupted"⟩

def tabNotFound : Error :=
  ⟨"analysis_tab_not_found", "Analysis tab is unavailable or has a different kind"⟩

def unavailable : Error :=
  ⟨"analysis_unavailable", "The Quotation run was cleared, replaced or already completed"⟩

def unsupported : Error :=
  ⟨"analysis_version_unsupported", "Unsupported partial Quotation result version"⟩

def noPartial : Error := .invalid "No partial Quotation run to resume"

def duplicateArtifacts : Error := ⟨"sql_error", "Duplicate key: analysis_id, name"⟩

section Transactions

variable {Quote : Type} (db : Database Quote)

def readTab : Except Error (Tab Quote) :=
  match db.tab with
  | some tab => .ok tab
  | none => .error ⟨"analysis_tab_not_found", "Analysis tab is no longer available"⟩

def claimTab (kind : String) : Except Error (Tab Quote) :=
  match db.tab with
  | some tab => if tab.kind = kind then .ok tab else .error tabNotFound
  | none => .error tabNotFound

def findAnalysis (id : Uuid) : Option (Analysis Quote) :=
  (db.tab.bind Tab.analysis).filter fun a => a.id = id

def readAnalysis (id : Uuid) : Except Error (Analysis Quote) :=
  match findAnalysis db id with
  | some analysis => .ok analysis
  | none => .error ⟨"analysis_not_found", "Analysis is no longer available"⟩

/-- The artifacts of an analysis, where it has them. -/
def retained (id : Uuid) : Option (Artifacts Quote) := (findAnalysis db id).bind Analysis.artifacts

def checkpoint (id : Uuid) : Except Error (Option (Artifacts Quote)) :=
  match retained db id with
  | some artifacts => if artifacts.checkpoint.version ≠ 1 then .error unsupported else .ok (some artifacts)
  | none => .ok none

def claim (id : Uuid) : Except Error Unit := do
  let _ ← claimTab db "quotation"
  match (findAnalysis db id).filter fun a => !a.finished with
  | some _ => .ok ()
  | none => .error unavailable

def setAnalysis (id : Uuid) (change : Analysis Quote → Analysis Quote) : Database Quote :=
  { db with tab := db.tab.map fun tab => { tab with
      analysis := tab.analysis.map fun a => if a.id = id then change a else a } }

def setArtifacts (id : Uuid) (artifacts : Option (Artifacts Quote)) : Database Quote :=
  setAnalysis db id fun a => { a with artifacts := artifacts }

/-- A new run of the tab takes the place of the one before. -/
def beginAnalysisRun (id : Uuid) (request : DocumentInput) : Except Error (Database Quote) := do
  let tab ← claimTab db "quotation"
  .ok { db with tab := some { tab with analysis := some ⟨id, request, false, none⟩ } }

def clearAnalysisTab : Except Error (Database Quote) := do
  let tab ← readTab db
  .ok { db with tab := some { tab with analysis := tab.analysis.map fun a =>
    { a with artifacts := none, finished := false } } }

def quotationResume (modelSha256 : String) (request : DocumentInput) : Except Error Uuid := do
  let tab ← readTab db
  match tab.analysis with
  | none => .error noPartial
  | some current =>
      match ← checkpoint db current.id with
      | none => .error (.invalid "No partial Quotation run to resume. Start a fresh Run.")
      | some retained =>
          if tab.kind ≠ "quotation" ∨ current.finished ∨ current.request ≠ request ∨
              retained.checkpoint.extractorVersion ≠ extractorVersion ∨ retained.checkpoint.model ≠ modelSha256 then
            .error (.invalid "Extraction settings changed or this run is complete. Start a fresh Run.")
          else .ok current.id

/-- Keep one exact text of each, in the order of their first rows. -/
def distinctDocuments : List (Option String) → List String
  | [] => []
  | none :: rest => distinctDocuments rest
  | some text :: rest => text :: (distinctDocuments rest).filter (· ≠ text)

def Artifacts.checked (artifacts : Artifacts Quote) (text : String) : Bool :=
  artifacts.documents.any fun d => d.2 = text

/-- The texts that are not checked yet, each with a document of its own. -/
def pendingDocuments (artifacts : Artifacts Quote) (texts : List String) (uuid : Nat → Uuid) : Batch :=
  let todo := texts.filter fun text => !artifacts.checked text
  ((List.range todo.length).map uuid).zip todo

def freshArtifacts (modelSha256 : String) (checkpointId generation : Uuid) (docs : CapturedDocuments) :
    Artifacts Quote :=
  ⟨checkpointId, ⟨1, extractorVersion, modelSha256, generation, some docs.column,
    ⟨0, (distinctDocuments docs.texts).length⟩⟩, [], []⟩

/-- The checkpoint of a resumed run, or that of a new one. -/
def retainedOr (resume : Bool) (existing : Option (Artifacts Quote)) (fresh : Artifacts Quote) :
    Except Error (Artifacts Quote) :=
  match resume, existing with
  | true, some artifacts => .ok artifacts
  | true, none => .error noPartial
  | false, none => .ok fresh
  | false, some _ => .error duplicateArtifacts

def startQuotation (modelSha256 : String) (id : Uuid) (request : DocumentInput) (resume : Bool)
    (checkpointId generation : Uuid) (uuid : Nat → Uuid) : Except Error (Database Quote × Work) := do
  claim db id
  let docs ← db.source request
  let texts := distinctDocuments docs.texts
  let existing ← checkpoint db id
  let artifacts ← retainedOr resume existing (freshArtifacts modelSha256 checkpointId generation docs)
  match artifacts.checkpoint.processedColumn with
  | none => .error (.invalid "Partial Quotation text binding is unavailable")
  | some _ =>
      let todo := pendingDocuments artifacts texts uuid
      let checkedTexts := artifacts.checkpoint.progress.checkedTexts
      let checkpoint := { artifacts.checkpoint with
        generation := generation, progress := ⟨checkedTexts, checkedTexts + todo.length⟩ }
      .ok (setArtifacts db id (some { artifacts with checkpoint := checkpoint }),
        ⟨artifacts.checkpointId, checkpoint, texts, todo, 0⟩)

def quotationBatch (work : Work) : Batch :=
  ((work.todo.insertionSort fun a b => a.1 ≤ b.1).drop work.offset).take batchSize

/-- The rows of one checked text. -/
def insertDocument (artifacts : Artifacts Quote) (document : Uuid × String × List Quote) : Artifacts Quote :=
  { artifacts with
    documents := artifacts.documents ++ [(document.1, document.2.1)]
    matched := artifacts.matched ++ document.2.2.map fun quote => (document.1, quote)
    checkpoint := { artifacts.checkpoint with progress :=
      { artifacts.checkpoint.progress with checkedTexts := artifacts.checkpoint.progress.checkedTexts + 1 } } }

def commitQuotationBatch (id : Uuid) (work : Work) (completed : Completed Quote) :
    Except Error (Database Quote × Work) := do
  claim db id
  match ← checkpoint db id with
  | none => .error (.invalid "This Quotation run was cleared")
  | some current =>
      if current.checkpoint.generation ≠ work.checkpoint.generation then
        .error (.invalid "This Quotation run was superseded")
      else
        match current.checkpoint.processedColumn with
        | none =>
            .error ⟨"analysis_corrupt", "Partial Quotation text binding is unavailable. Start a fresh Run."⟩
        | some _ =>
            let next := completed.foldl insertDocument current
            -- the update names the blob that the run has seen
            let stored := if current.checkpointId = work.checkpointId then next.checkpoint else current.checkpoint
            .ok (setArtifacts db id (some { next with checkpoint := stored }), { work with checkpoint := next.checkpoint })

/-- What is checked of a run before its result is published. -/
def manifest (id : Uuid) : Except Error Unit := do
  let analysis ← readAnalysis db id
  if !analysis.finished then
    match ← checkpoint db id with
    | none =>
        .error ⟨"result_unavailable", "This Quotation run has no committed output. Start Run."⟩
    | some _ => .ok ()
  let _ ← db.source analysis.request
  .ok ()

def publishAnalysis (id : Uuid) : Except Error (Database Quote) := do
  let _ ← claimTab db "quotation"
  match (findAnalysis db id).filter fun a => !a.finished with
  | some _ => .ok (setAnalysis db id fun a => { a with finished := true })
  | none =>
      .error ⟨"analysis_unavailable", "The submitted analysis was removed, replaced or already completed"⟩

end Transactions

def workerCount (available remainingTexts : Nat) : Nat :=
  min (max available 1) ((remainingTexts + batchSize - 1) / batchSize)

/-- Where the thread of a run is: before one more of its first batches, with
`left` to follow it; at its channel of results; before the batch that follows a
result; and past its loop. -/
inductive Position
  | filling (left : Nat)
  | waiting
  | refilling
  | saving
  | publishing
  | finished
  deriving DecidableEq

def fill : Nat → Position
  | 0 => .waiting
  | left + 1 => .filling left

/-- A run with its channels. A worker sends the quotes of the batch it has taken,
or the error that stopped it. -/
structure Running (Quote : Type) where
  analysis : Uuid
  work : Work
  workers : Nat
  jobs : List Batch
  results : List (Batch × Except Error (Completed Quote))
  active : Nat

inductive Phase (Quote : Type)
  | submitted
  | accepted (analysis : Uuid)
  | verified (analysis : Uuid)
  | running (run : Running Quote) (position : Position)
  | failed (error : Error)

structure Task (Quote : Type) where
  request : DocumentInput
  resume : Bool
  phase : Phase Quote

inductive TaskEvent
  | begin (analysis : Uuid)
  | resume
  | verify
  | start (available : Nat) (checkpointId generation : Uuid) (uuid : Nat → Uuid)
  | fetch
  | extract (index : Nat) (interrupted : Bool)
  | loadFailed (error : Error)
  | receive
  | leave
  | manifest
  | publish
  | fail (error : Error)

inductive Event
  | submit (id : Uuid) (request : DocumentInput) (resume : Bool)
  | task (id : Uuid) (event : TaskEvent)
  | edit (source : DocumentInput → Except Error CapturedDocuments)
  | rename (request : DocumentInput)
  | clear
  | delete
  | crash

structure State (Quote : Type) where
  database : Database Quote
  tasks : Map Uuid (Task Quote)
  used : List Uuid

section Steps

variable {Quote : Type} (modelSha256 : String) (extract : Uuid → String → Except Error (List Quote))

/-- What a worker makes of a batch; `extract` is the extractor. -/
def extractBatch (interrupt : Bool) (batch : Batch) : Except Error (Completed Quote) :=
  if interrupt then .error interrupted
  else batch.mapM fun d => (extract d.1 d.2).map fun quotes => (d.1, d.2, quotes)

def Running.fetch (run : Running Quote) : Running Quote × Bool :=
  let batch := quotationBatch run.work
  let work := { run.work with offset := run.work.offset + batch.length }
  if batch.isEmpty then (run, false)
  else ({ run with work := work, jobs := run.jobs ++ [batch], active := run.active + 1 }, true)

/-- A step of a task: what it leaves of the database and where the task is then,
or the error that ends it, with its transaction undone. -/
def taskStep (db : Database Quote) (task : Task Quote) :
    TaskEvent → Phase Quote → Option (Except Error (Database Quote × Phase Quote))
  | .begin analysis, .submitted =>
      if task.resume then none
      else some do
        let db ← beginAnalysisRun db analysis task.request
        .ok (db, .accepted analysis)
  | .resume, .submitted =>
      if task.resume then
        some do
          let analysis ← quotationResume db modelSha256 task.request
          .ok (db, .accepted analysis)
      else none
  | .verify, .accepted analysis =>
      if task.resume then
        some do
          let current ← quotationResume db modelSha256 task.request
          if current ≠ analysis then .error (.invalid "The partial run was replaced") else .ok (db, .verified analysis)
      else some (.ok (db, .verified analysis))
  | .start available checkpointId generation uuid, .verified analysis =>
      some do
        let (db, work) ← startQuotation db modelSha256 analysis task.request task.resume checkpointId generation uuid
        let progress := work.checkpoint.progress
        let workers := workerCount available (progress.totalTexts - progress.checkedTexts)
        .ok (db, .running ⟨analysis, work, workers, [], [], 0⟩ (fill workers))
  | .fetch, .running run (.filling left) =>
      some (.ok (db, .running run.fetch.1 (if run.fetch.2 then fill left else .waiting)))
  | .fetch, .running run .refilling => some (.ok (db, .running run.fetch.1 .waiting))
  | .extract index interrupt, .running run position =>
      (run.jobs[index]?).map fun batch =>
        .ok (db, .running { run with
          jobs := run.jobs.eraseIdx index
          results := run.results ++ [(batch, extractBatch extract interrupt batch)] } position)
  | .loadFailed error, .running run position =>
      some (.ok (db, .running { run with results := run.results ++ [([], .error error)] } position))
  | .receive, .running run .waiting =>
      if run.active = 0 then none
      else
        match run.results with
        | [] => none
        | (_, .error error) :: _ => some (.error error)
        | (_, .ok completed) :: rest =>
            some do
              let (db, work) ← commitQuotationBatch db run.analysis run.work completed
              .ok (db, .running { run with work := work, results := rest, active := run.active - 1 } .refilling)
  | .leave, .running run .waiting => if run.active = 0 then some (.ok (db, .running run .saving)) else none
  | .manifest, .running run .saving =>
      some do
        manifest db run.analysis
        .ok (db, .running run .publishing)
  | .publish, .running run .publishing =>
      some do
        let db ← publishAnalysis db run.analysis
        .ok (db, .running run .finished)
  | .fail error, phase =>
      match phase with
      | .failed _ | .running _ .finished => none
      | _ => some (.error error)
  | _, _ => none

/-- The identifiers that a step of a task draws. -/
def drawn (event : TaskEvent) (phase : Phase Quote) : List Uuid :=
  match event, phase with
  | .begin analysis, _ => [analysis]
  | .start _ checkpointId generation _, .running run _ =>
      checkpointId :: generation :: run.work.todo.map Prod.fst
  | _, _ => []

def Task.enter (task : Task Quote) (phase : Phase Quote) : Task Quote := { task with phase := phase }

def step (s : State Quote) : Event → Option (State Quote)
  | .submit id request resume =>
      if id ∈ s.used then none
      else some { s with tasks := s.tasks.insert id ⟨request, resume, .submitted⟩, used := id :: s.used }
  | .task id event => do
      let task ← s.tasks.get? id
      match ← taskStep modelSha256 extract s.database task event task.phase with
      | .error error => some { s with tasks := s.tasks.insert id (task.enter (.failed error)) }
      | .ok (db, phase) =>
          let fresh := drawn event phase
          if fresh.Nodup ∧ ∀ uuid ∈ fresh, uuid ∉ s.used then
            some ⟨db, s.tasks.insert id (task.enter phase), fresh ++ s.used⟩
          else none
  | .edit source => some { s with database := { s.database with source := source } }
  | .rename request =>
      some { s with database := { s.database with tab := s.database.tab.map fun tab =>
        { tab with analysis := tab.analysis.map fun a => { a with request := request } } } }
  | .clear =>
      match clearAnalysisTab s.database with
      | .ok db => some { s with database := db }
      | .error _ => some s
  | .delete => some { s with database := { s.database with tab := none } }
  | .crash => some { s with tasks := .empty }

end Steps

end Wordflow.Quotation
