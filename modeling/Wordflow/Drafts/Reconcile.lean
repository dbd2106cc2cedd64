import Wordflow.Renames

namespace Wordflow.Drafts

open Library Objects Renames

/-- The analysis tabs; `kind` is the text the backend stores. -/
inductive Kind
  | frequency
  | concordance
  | topicModeling
  | annotation
  | quotation
  | trends
  | compare
  | scatter
  | heatmap
  | sankey
  deriving DecidableEq, Repr

def Kind.kind : Kind → String
  | .frequency => "frequency"
  | .concordance => "concordance"
  | .topicModeling => "topic-modeling"
  | Kind.annotation => "annotation"
  | .quotation => "quotation"
  | .trends => "trends"
  | .compare => "compare"
  | .scatter => "scatter"
  | .heatmap => "heatmap"
  | .sankey => "sankey"

def objectRef (source : Json) : Relation where
  schema := ((source.get? "schema").bind Json.asStr?).getD "data"
  name := ((source.get? "name").bind Json.asStr?).getD ""

section Rename

-- `toLowerCase` is that of the JavaScript strings.
variable (toLowerCase : String → String)

def isRenameSource (source : Json) (rename : Rename) : Bool :=
  toLowerCase (objectRef source).schema == toLowerCase rename.source.schema &&
    toLowerCase (objectRef source).name == toLowerCase rename.source.name

def column (before after : String) (value : Json) : Json :=
  match value with
  | .str name => if toLowerCase name = toLowerCase before then .str after else .str name
  | value => value

def columns (before after : String) (value : Json) : Json :=
  match value with
  | .arr values => .arr (values.map (column toLowerCase before after))
  | value => column toLowerCase before after value

/-- A field that is `undefined` in the result is a field that JSON leaves out. -/
def renameInput (input : Json) (rename : Rename) (fields : List String) : Json :=
  if !isRenameSource toLowerCase (input.get "source") rename then input
  else
    match rename with
    | .table _ name => input.set "source" ((input.get "source").set "name" (.str name))
    | .column _ before after =>
        fields.foldl (fun renamed field =>
          match input.get? field with
          | some value => renamed.set field (columns toLowerCase before after value)
          | none => renamed) input

def renameInputs (request : Json) (rename : Rename) : Json :=
  match request.get "inputs" with
  | .arr inputs =>
      request.set "inputs" (.arr (inputs.map fun input => renameInput toLowerCase input rename ["column"]))
  | _ => request

def renameStudy (draft : Json) (rename : Rename) : Json :=
  match rename, draft.get "study" with
  | .table source name, .str study =>
      if source.schema = "data" ∧ toLowerCase study = toLowerCase source.name then .str name else .str study
  | _, study => study

def renameFrequencyDraft (draft : Json) (rename : Rename) : Json :=
  (renameInputs toLowerCase draft rename).set "study" (renameStudy toLowerCase draft rename)

/-- `reference ? renameInput(reference, rename, fields) : null` -/
def renameOptional (reference : Json) (rename : Rename) (fields : List String) : Json :=
  match reference with
  | .obj _ => renameInput toLowerCase reference rename fields
  | _ => .null

def renameSetup (setup : Json) (rename : Rename) : Json :=
  (renameInput toLowerCase setup rename ["document", "annotation", "correction"]).set "codebook"
    (renameOptional toLowerCase (setup.get "codebook") rename ["code", "description"])

def renameExecution (execution : Json) (rename : Rename) : Json :=
  execution.set "examples" (renameOptional toLowerCase (execution.get "examples") rename ["text", "label"])

def renameAnnotationDraft (request : Json) (rename : Rename) : Json :=
  let renamed := request.set "setup" (renameSetup toLowerCase (request.get "setup") rename)
  match request.get? "execution" with
  | some execution => renamed.set "execution" (renameExecution toLowerCase execution rename)
  | none => renamed

def renameQuotation (request : Json) (rename : Rename) : Json :=
  request.set "input" (renameInput toLowerCase (request.get "input") rename ["column"])

/-- The fields by which `renamePlotRequest` takes a request for one of a mode. -/
def plotGuess (request : Json) : List String :=
  if (request.get? "axis").isSome then ["axis", "groups", "value"]
  else if (request.get? "category").isSome then ["category", "stack", "value"]
  else if (request.get? "x").isSome then ["x", "y", "color", "size", "label"]
  else if (request.get? "row").isSome then ["row", "column", "value"]
  else ["stages", "value"]

def renamePlotRequest (request : Json) (rename : Rename) : Json :=
  renameInput toLowerCase request rename (plotGuess request)

/-- What the store of a kind does with its drafts. -/
def renameRequest (kind : Kind) (request : Json) (rename : Rename) : Json :=
  match kind with
  | .frequency => renameFrequencyDraft toLowerCase request rename
  | .concordance | .topicModeling => renameInputs toLowerCase request rename
  | Kind.annotation => renameAnnotationDraft toLowerCase request rename
  | .quotation => renameQuotation toLowerCase request rename
  | .trends | .compare | .scatter | .heatmap | .sankey => renamePlotRequest toLowerCase request rename

end Rename

/-- A draft of a window, under the key `[base, id]` of the store of its kind. -/
structure Draft where
  base : String
  id : String
  kind : Kind
  value : Json
  deriving DecidableEq

/-- The drafts of a window, and the changes it has received. -/
structure Window where
  drafts : List Draft
  receipts : List (String × String)

section Reconcile

variable (toLowerCase : String → String)

def renamedDrafts (drafts : List Draft) (base : String) (rename : Rename) : List Draft :=
  drafts.map fun draft =>
    if draft.base = base then { draft with value := renameRequest toLowerCase draft.kind draft.value rename } else draft

def reconcileAnalysisDrafts (drafts : List Draft) (base : String) (renames : List Rename) : List Draft :=
  renames.foldl (fun drafts rename => renamedDrafts toLowerCase drafts base rename) drafts

def reconcileProjectRenames (w : Window) (base : String) (renames : List Rename) (changeId : Option String) : Window :=
  match changeId with
  | none => { w with drafts := reconcileAnalysisDrafts toLowerCase w.drafts base renames }
  | some id =>
      if id = "" then { w with drafts := reconcileAnalysisDrafts toLowerCase w.drafts base renames }
      else if (base, id) ∈ w.receipts then w
      else
        { w with
          drafts := reconcileAnalysisDrafts toLowerCase w.drafts base renames
          receipts := (base, id) :: w.receipts }

end Reconcile

/-- A committed change of a project as a mutation response or the event stream
carries it. -/
structure Delivery where
  base : String
  id : String
  renames : List Rename

def receive (toLowerCase : String → String) (w : Window) (delivery : Delivery) : Window :=
  reconcileProjectRenames toLowerCase w delivery.base delivery.renames (some delivery.id)

/-- The request that is stored when a draft is run. -/
def stored (kind : Kind) (draft : Json) : Json :=
  match kind with
  | .frequency => .obj [("inputs", draft.get "inputs")]
  | Kind.annotation => ((draft.get? "execution").getD (.obj [])).set "setup" (draft.get "setup")
  | _ => draft

end Wordflow.Drafts
