import Mathlib.Data.List.Forall2
import Wordflow.Drafts.Inputs

namespace Wordflow.Drafts

open Library Library.Json Library.Identifier Objects Renames

/-- The inputs of a request with a list of them. -/
def inputs (request : Json) : List Json :=
  match request.get "inputs" with
  | .arr inputs => inputs
  | _ => []

def setupFields : List String := ["document", "annotation", "correction"]

def codebookFields : List String := ["code", "description"]

def exampleFields : List String := ["text", "label"]

/-- The kinds of the plot store. -/
def Kind.plot : Kind → Bool
  | .trends | .compare | .scatter | .heatmap | .sankey => true
  | _ => false

def ListsInputs (request : Json) : Prop :=
  ∃ inputs, request.get? "inputs" = some (.arr inputs) ∧ ∀ input ∈ inputs, Input ["column"] input

/-- An optional part of a request: a `null` or an input. -/
def Optional (fields : List String) (part : Json) : Prop := part = .null ∨ Input fields part

structure AnnotationDraft (draft : Json) : Prop where
  setup : (draft.get? "setup").isSome ∧ Input setupFields (draft.get "setup")
  codebook : Optional codebookFields ((draft.get "setup").get "codebook")
  execution : ∀ execution, draft.get? "execution" = some execution →
    (∃ members, execution = .obj members) ∧ execution.get? "setup" = none ∧
      Optional exampleFields (execution.get "examples")

/-- The JSON that a draft of a kind can be. -/
def WellTyped (kind : Kind) (draft : Json) : Prop :=
  match kind with
  | .frequency => ListsInputs draft ∧ (draft.get? "study").isSome
  | .concordance | .topicModeling => ListsInputs draft
  | Kind.annotation => AnnotationDraft draft
  | .quotation => (draft.get? "input").isSome ∧ Input ["column"] (draft.get "input")
  | .trends | .compare | .scatter | .heatmap | .sankey => Input (plotFields kind.kind) draft

/-- Whether the backend takes a part of a request for a reference to the renamed
relation. -/
def refersTo (part : Json) (rename : Rename) : Bool :=
  match part.get? "source" with
  | none => false
  | some source =>
      match ((source.get? "name").bind Json.asStr?).or ((source.get? "table_name").bind Json.asStr?) with
      | none => false
      | some name => Relation.same ⟨((source.get? "schema").bind Json.asStr?).getD "data", name⟩ rename.source

structure AnnotationAgrees (toLowerCase : String → String) (rename : Rename) (draft : Json) : Prop where
  setup : InputAgrees toLowerCase rename setupFields (draft.get "setup")
  hasCodebook : ((draft.get "setup").get? "codebook").isSome
  codebook : (draft.get "setup").get "codebook" ≠ .null →
    InputAgrees toLowerCase rename codebookFields ((draft.get "setup").get "codebook")
  hasExamples : ∀ execution, draft.get? "execution" = some execution → (execution.get? "examples").isSome
  examples : ∀ execution, draft.get? "execution" = some execution → execution.get "examples" ≠ .null →
    InputAgrees toLowerCase rename exampleFields (execution.get "examples")
  noCodebook : ∀ execution, draft.get? "execution" = some execution → ∀ codebook,
    execution.get? "codebook" = some codebook → refersTo codebook rename = false

structure PlotAgrees (toLowerCase : String → String) (kind : Kind) (rename : Rename) (draft : Json) : Prop where
  input : InputAgrees toLowerCase rename (plotFields kind.kind) draft
  mode : isSource (draft.get "source") rename = true → ∀ source before after, rename = .column source before after →
    plotGuess draft = plotFields kind.kind

/-- A rename of which the window and the database make the same of a draft. -/
def Agrees (toLowerCase : String → String) (kind : Kind) (rename : Rename) (draft : Json) : Prop :=
  match kind with
  | .frequency | .concordance | .topicModeling =>
      ∀ input ∈ inputs draft, InputAgrees toLowerCase rename ["column"] input
  | Kind.annotation => AnnotationAgrees toLowerCase rename draft
  | .quotation => InputAgrees toLowerCase rename ["column"] (draft.get "input")
  | .trends | .compare | .scatter | .heatmap | .sankey => PlotAgrees toLowerCase kind rename draft

def blankInputs (draft : Json) : Json :=
  draft.modify "inputs" fun _ => .arr ((inputs draft).map (blankInput ["column"]))

def blankSetup (setup : Json) : Json :=
  (blankInput setupFields setup).modify "codebook" (blankInput codebookFields)

def blankExecution (execution : Json) : Json := execution.modify "examples" (blankInput exampleFields)

/-- A draft with `null` for every reference. -/
def skeleton (kind : Kind) (draft : Json) : Json :=
  match kind with
  | .frequency => (blankInputs draft).modify "study" fun _ => .null
  | .concordance | .topicModeling => blankInputs draft
  | Kind.annotation => (draft.modify "setup" blankSetup).modify "execution" blankExecution
  | .quotation => draft.modify "input" (blankInput ["column"])
  | .trends | .compare | .scatter | .heatmap | .sankey => blankInput (plotFields kind.kind) draft

/-- The references of a draft: a source and the columns under it. -/
def readings (kind : Kind) (draft : Json) : List (List Json) :=
  match kind with
  | .frequency | .concordance | .topicModeling => (inputs draft).map (reading ["column"])
  | Kind.annotation =>
      [reading setupFields (draft.get "setup"), reading codebookFields ((draft.get "setup").get "codebook"),
        reading exampleFields ((draft.get "execution").get "examples")]
  | .quotation => [reading ["column"] (draft.get "input")]
  | .trends | .compare | .scatter | .heatmap | .sankey => [reading (plotFields kind.kind) draft]

/-- References that may differ only where their source is the renamed one. -/
def Kept (rename : Rename) (a b : List Json) : Prop :=
  isSource (a.headD .null) rename = false → b = a

/-- One rename, applied to a draft and to its stored copy. -/
structure Renamed (kind : Kind) (rename : Rename) (a b : Json) : Prop where
  typed : WellTyped kind b
  stored : stored kind b = (rename.request kind.kind (stored kind a)).2
  skeleton : skeleton kind b = skeleton kind a
  readings : List.Forall₂ (Kept rename) (readings kind a) (readings kind b)

section Step

variable {toLowerCase : String → String}
  (hlower : ∀ a b : String, asciiLower a = asciiLower b → toLowerCase a = toLowerCase b)
  {rename : Rename} {fields : List String} {v : Json}

include hlower

theorem kept_renameInput (h : InputAgrees toLowerCase rename fields v) :
    Kept rename (reading fields v) (reading fields (renameInput toLowerCase v rename fields)) := fun hs =>
  reading_renameInput ((h.source_eq hlower).trans hs)

omit hlower in
theorem inputs_of_get? {request : Json} {items : List Json} (h : request.get? "inputs" = some (.arr items)) :
    inputs request = items := by
  rw [inputs, Json.get, h, Option.getD_some]

omit hlower in
theorem renameInputs_of_get? {request : Json} {items : List Json} (h : request.get? "inputs" = some (.arr items)) :
    renameInputs toLowerCase request rename =
      request.set "inputs" (.arr (items.map fun input => renameInput toLowerCase input rename ["column"])) := by
  rw [renameInputs, Json.get, h, Option.getD_some]

omit hlower in
theorem request_inputs {kind : String} {request : Json} {items : List Json}
    (hkind : kind = "frequency" ∨ kind = "concordance" ∨ kind = "topic-modeling")
    (h : request.get? "inputs" = some (.arr items)) :
    (rename.request kind request).2 =
      request.set "inputs" (.arr (items.map fun input => (rename.input input ["column"]).2)) := by
  rcases hkind with rfl | rfl | rfl <;> simp [Rename.request, h, Function.comp_def]

theorem renameInputs_eq {items : List Json} (hitems : ∀ input ∈ items, Input ["column"] input)
    (ha : ∀ input ∈ items, InputAgrees toLowerCase rename ["column"] input) :
    (items.map fun input => renameInput toLowerCase input rename ["column"]) =
      items.map fun input => (rename.input input ["column"]).2 :=
  List.map_congr_left fun input hmem => renameInput_eq hlower (by decide) (hitems input hmem) (ha input hmem)

omit hlower in
theorem listsInputs_renameInputs {request : Json} (h : ListsInputs request) :
    ListsInputs (renameInputs toLowerCase request rename) := by
  obtain ⟨items, hget, hitems⟩ := h
  rw [renameInputs_of_get? hget]
  refine ⟨_, get?_set_self (by simp [hget]), fun input hmem => ?_⟩
  obtain ⟨old, hold, rfl⟩ := List.mem_map.mp hmem
  exact (hitems old hold).renameInput (by decide) (by decide)

omit hlower in
theorem blankInputs_renameInputs {request : Json} (h : ListsInputs request) :
    blankInputs (renameInputs toLowerCase request rename) = blankInputs request := by
  obtain ⟨items, hget, hitems⟩ := h
  have hnew : renameInputs toLowerCase request rename = _ := renameInputs_of_get? hget
  have hitems' : inputs (renameInputs toLowerCase request rename) =
      items.map fun input => renameInput toLowerCase input rename ["column"] := by
    rw [hnew]
    exact inputs_of_get? (get?_set_self (by simp [hget]))
  rw [blankInputs, blankInputs, hitems', inputs_of_get? hget, hnew, set_eq_modify hget, modify_modify, List.map_map]
  refine modify_congr fun _ _ => congrArg Json.arr (List.map_congr_left fun input hmem => ?_)
  exact blankInput_renameInput (by decide) (by decide) (hitems input hmem)

theorem readings_renameInputs {request : Json} (h : ListsInputs request)
    (ha : ∀ input ∈ inputs request, InputAgrees toLowerCase rename ["column"] input) :
    List.Forall₂ (Kept rename) ((inputs request).map (reading ["column"]))
      ((inputs (renameInputs toLowerCase request rename)).map (reading ["column"])) := by
  obtain ⟨items, hget, -⟩ := h
  rw [inputs_of_get? hget] at ha
  rw [renameInputs_of_get? hget, inputs_of_get? (get?_set_self (by simp [hget])), inputs_of_get? hget, List.map_map,
    List.forall₂_map_left_iff, List.forall₂_map_right_iff, List.forall₂_same]
  exact fun input hmem => kept_renameInput hlower (ha input hmem)

theorem renamed_frequency (hw : WellTyped .frequency v) (ha : Agrees toLowerCase .frequency rename v) :
    Renamed .frequency rename v (renameFrequencyDraft toLowerCase v rename) := by
  obtain ⟨hlists, hstudy⟩ := hw
  obtain ⟨study, hstudy⟩ := Option.isSome_iff_exists.mp hstudy
  obtain ⟨items, hget, hitems⟩ := id hlists
  have hne : ("inputs" : String) ≠ "study" := by decide
  have hinputs : renameInputs toLowerCase v rename = _ := renameInputs_of_get? hget
  have hkeep : (renameInputs toLowerCase v rename).get? "study" = some study := by
    rw [hinputs, get?_set_of_ne hne.symm (by simp [hget]), hstudy]
  have hset : renameFrequencyDraft toLowerCase v rename =
      (renameInputs toLowerCase v rename).modify "study" fun _ => renameStudy toLowerCase v rename := by
    rw [renameFrequencyDraft, set_eq_modify hkeep]
  have hget' : (renameFrequencyDraft toLowerCase v rename).get? "inputs" =
      (renameInputs toLowerCase v rename).get? "inputs" := by
    rw [hset, get?_modify_of_ne hne]
  have hnew : (renameInputs toLowerCase v rename).get? "inputs" =
      some (.arr (items.map fun input => renameInput toLowerCase input rename ["column"])) := by
    rw [hinputs]
    exact get?_set_self (by simp [hget])
  have hsame : inputs (renameFrequencyDraft toLowerCase v rename) = inputs (renameInputs toLowerCase v rename) := by
    rw [inputs, inputs, Json.get, Json.get, hget']
  have hagrees : ∀ input ∈ inputs v, InputAgrees toLowerCase rename ["column"] input := ha
  rw [inputs_of_get? hget] at hagrees
  refine ⟨⟨?_, ?_⟩, ?_, ?_, ?_⟩
  · obtain ⟨items', hitems'⟩ : ListsInputs (renameInputs toLowerCase v rename) := listsInputs_renameInputs hlists
    exact ⟨items', by rw [hget', hitems'.1], hitems'.2⟩
  · rw [hset, get?_modify_self, hkeep]
    rfl
  · have hstored : (stored .frequency v).get? "inputs" = some (.arr items) := by
      simp [stored, Json.get, Json.get?, lookup] at hget ⊢
      simp [hget]
    have hrequest : (rename.request Kind.frequency.kind (stored .frequency v)).2 = _ := request_inputs (.inl rfl) hstored
    rw [hrequest, ← renameInputs_eq hlower hitems hagrees]
    simp [stored, Json.get, hget', hnew, Json.set, Json.insert]
  · rw [skeleton, skeleton, ← blankInputs_renameInputs hlists, blankInputs, blankInputs, hsame, hset,
      modify_comm hne.symm, modify_modify]
  · rw [readings, readings, hsame]
    exact readings_renameInputs hlower hlists ha

theorem renamed_inputs {kind : Kind} (hkind : kind = .concordance ∨ kind = .topicModeling) (hw : WellTyped kind v)
    (ha : Agrees toLowerCase kind rename v) : Renamed kind rename v (renameInputs toLowerCase v rename) := by
  have hlists : ListsInputs v := by rcases hkind with rfl | rfl <;> exact hw
  have hagrees : ∀ input ∈ inputs v, InputAgrees toLowerCase rename ["column"] input := by
    rcases hkind with rfl | rfl <;> exact ha
  obtain ⟨items, hget, hitems⟩ := id hlists
  have hstored : (rename.request kind.kind v).2 = renameInputs toLowerCase v rename := by
    rw [request_inputs (by rcases hkind with rfl | rfl <;> simp [Kind.kind]) hget, renameInputs_of_get? hget,
      renameInputs_eq hlower hitems (inputs_of_get? hget ▸ hagrees)]
  have htyped : ListsInputs (renameInputs toLowerCase v rename) := listsInputs_renameInputs hlists
  have hreadings := readings_renameInputs hlower hlists hagrees
  have hskeleton : blankInputs (renameInputs toLowerCase v rename) = blankInputs v := blankInputs_renameInputs hlists
  rcases hkind with rfl | rfl
  · exact ⟨htyped, hstored.symm, hskeleton, hreadings⟩
  · exact ⟨htyped, hstored.symm, hskeleton, hreadings⟩

theorem renamed_quotation (hw : WellTyped .quotation v) (ha : Agrees toLowerCase .quotation rename v) :
    Renamed .quotation rename v (renameQuotation toLowerCase v rename) := by
  obtain ⟨hsome, hinput⟩ := hw
  obtain ⟨input, hget⟩ := Option.isSome_iff_exists.mp hsome
  have hinput' : v.get "input" = input := by rw [Json.get, hget, Option.getD_some]
  rw [hinput'] at hinput
  have hagrees : InputAgrees toLowerCase rename ["column"] input := hinput' ▸ ha
  have hset : renameQuotation toLowerCase v rename = v.set "input" (renameInput toLowerCase input rename ["column"]) := by
    rw [renameQuotation, hinput']
  have hnew : (renameQuotation toLowerCase v rename).get? "input" =
      some (renameInput toLowerCase input rename ["column"]) := by
    rw [hset]
    exact get?_set_self (by simp [hget])
  have hnew' : (renameQuotation toLowerCase v rename).get "input" =
      renameInput toLowerCase input rename ["column"] := by
    rw [Json.get, hnew, Option.getD_some]
  refine ⟨⟨by simp [hnew], ?_⟩, ?_, ?_, ?_⟩
  · rw [hnew']
    exact hinput.renameInput (by decide) (by decide)
  · have hrequest : (rename.request "quotation" v).2 = v.set "input" (rename.input input ["column"]).2 := by
      simp [Rename.request, Rename.part, hget]
    have hsame : renameQuotation toLowerCase v rename = (rename.request "quotation" v).2 := by
      rw [hset, hrequest, renameInput_eq hlower (by decide) hinput hagrees]
    exact hsame
  · rw [skeleton, skeleton, hset, set_eq_modify hget, modify_modify]
    refine modify_congr fun value hvalue => ?_
    obtain rfl : input = value := Option.some.inj (hget.symm.trans hvalue)
    exact blankInput_renameInput (by decide) (by decide) hinput
  · rw [readings, readings, hnew', hinput']
    exact .cons (kept_renameInput hlower hagrees) .nil

omit hlower in
theorem plotFields_facts {kind : Kind} (hkind : kind.plot = true) :
    (plotFields kind.kind).Nodup ∧ "source" ∉ plotFields kind.kind := by
  cases kind with
  | trends | compare | scatter | heatmap | sankey => decide
  | _ => cases hkind

theorem renamePlotRequest_eq {kind : Kind} (ha : PlotAgrees toLowerCase kind rename v) :
    renamePlotRequest toLowerCase v rename = renameInput toLowerCase v rename (plotFields kind.kind) := by
  have hsource := ha.input.source_eq hlower
  rw [renamePlotRequest]
  cases his : isSource (v.get "source") rename with
  | false => rw [renameInput_of_not (hsource.trans his), renameInput_of_not (hsource.trans his)]
  | true =>
      cases rename with
      | table source name => simp only [renameInput]
      | column source before after => rw [ha.mode his source before after rfl]

theorem renamed_plot {kind : Kind} (hkind : kind.plot = true) (hw : WellTyped kind v)
    (ha : Agrees toLowerCase kind rename v) : Renamed kind rename v (renamePlotRequest toLowerCase v rename) := by
  obtain ⟨hnodup, hnot⟩ := plotFields_facts hkind
  have hinput : Input (plotFields kind.kind) v := by
    cases kind with
    | trends | compare | scatter | heatmap | sankey => exact hw
    | _ => cases hkind
  have hagrees : PlotAgrees toLowerCase kind rename v := by
    cases kind with
    | trends | compare | scatter | heatmap | sankey => exact ha
    | _ => cases hkind
  have hrequest : (rename.request kind.kind v).2 = (rename.input v (plotFields kind.kind)).2 := by
    cases kind with
    | trends | compare | scatter | heatmap | sankey => rfl
    | _ => cases hkind
  have hstored : renamePlotRequest toLowerCase v rename = (rename.request kind.kind v).2 := by
    rw [renamePlotRequest_eq hlower hagrees, hrequest, renameInput_eq hlower hnodup hinput hagrees.input]
  have htyped : Input (plotFields kind.kind) (renamePlotRequest toLowerCase v rename) := by
    rw [renamePlotRequest_eq hlower hagrees]
    exact hinput.renameInput hnodup hnot
  have hskeleton : blankInput (plotFields kind.kind) (renamePlotRequest toLowerCase v rename) =
      blankInput (plotFields kind.kind) v := by
    rw [renamePlotRequest_eq hlower hagrees, blankInput_renameInput hnodup hnot hinput]
  have hkept : Kept rename (reading (plotFields kind.kind) v)
      (reading (plotFields kind.kind) (renamePlotRequest toLowerCase v rename)) := by
    rw [renamePlotRequest_eq hlower hagrees]
    exact kept_renameInput hlower hagrees.input
  cases kind with
  | trends | compare | scatter | heatmap | sankey => exact ⟨htyped, hstored, hskeleton, .cons hkept .nil⟩
  | _ => cases hkind

section Optional

variable {part : Json}

theorem renameOptional_eq (hfields : fields.Nodup) (h : Optional fields part)
    (ha : part ≠ .null → InputAgrees toLowerCase rename fields part) :
    renameOptional toLowerCase part rename fields = (rename.input part fields).2 := by
  rcases h with rfl | h
  · rfl
  · obtain ⟨members, rfl⟩ := h.exists_obj
    rw [renameOptional, renameInput_eq hlower hfields h (ha (by simp))]

theorem kept_renameOptional (h : Optional fields part)
    (ha : part ≠ .null → InputAgrees toLowerCase rename fields part) :
    Kept rename (reading fields part) (reading fields (renameOptional toLowerCase part rename fields)) := by
  rcases h with rfl | h
  · exact fun _ => rfl
  · obtain ⟨members, rfl⟩ := h.exists_obj
    exact kept_renameInput hlower (ha (by simp))

omit hlower in
theorem optional_renameOptional (hfields : fields.Nodup) (hnot : "source" ∉ fields) (h : Optional fields part) :
    Optional fields (renameOptional toLowerCase part rename fields) := by
  rcases h with rfl | h
  · exact .inl rfl
  · obtain ⟨members, rfl⟩ := h.exists_obj
    exact .inr (h.renameInput hfields hnot)

omit hlower in
theorem blankInput_renameOptional (hfields : fields.Nodup) (hnot : "source" ∉ fields) (h : Optional fields part) :
    blankInput fields (renameOptional toLowerCase part rename fields) = blankInput fields part := by
  rcases h with rfl | h
  · rfl
  · obtain ⟨members, rfl⟩ := h.exists_obj
    exact blankInput_renameInput hfields hnot h

end Optional

omit hlower in
theorem renameSetup_eq {setup codebook : Json} (hsetup : Input setupFields setup)
    (hget : setup.get? "codebook" = some codebook) :
    renameSetup toLowerCase setup rename =
      (renameInput toLowerCase setup rename setupFields).modify "codebook" fun _ =>
        renameOptional toLowerCase codebook rename codebookFields := by
  have hkeep : (renameInput toLowerCase setup rename setupFields).get? "codebook" = some codebook := by
    rw [get?_renameInput (by decide) hsetup (by decide) (by decide), hget]
  have hcodebook : setup.get "codebook" = codebook := by rw [Json.get, hget, Option.getD_some]
  rw [modify_of_some hkeep, renameSetup, hcodebook]
  rfl

omit hlower in
theorem get_codebook_renameSetup {setup codebook : Json} (hsetup : Input setupFields setup)
    (hget : setup.get? "codebook" = some codebook) :
    (renameSetup toLowerCase setup rename).get "codebook" =
      renameOptional toLowerCase codebook rename codebookFields := by
  rw [renameSetup_eq hsetup hget, Json.get, get?_modify_self,
    get?_renameInput (by decide) hsetup (by decide) (by decide), hget]
  rfl

theorem setup_eq {setup codebook : Json} (hsetup : Input setupFields setup)
    (hget : setup.get? "codebook" = some codebook) (hcodebook : Optional codebookFields codebook)
    (ha : InputAgrees toLowerCase rename setupFields setup)
    (hac : codebook ≠ .null → InputAgrees toLowerCase rename codebookFields codebook) :
    (rename.setup setup).2 = renameSetup toLowerCase setup rename := by
  have hkeep : (renameInput toLowerCase setup rename setupFields).get? "codebook" = some codebook := by
    rw [get?_renameInput (by decide) hsetup (by decide) (by decide), hget]
  have hinput : (rename.input setup ["document", "annotation", "correction"]).2 = _ :=
    (renameInput_eq hlower (by decide) hsetup ha).symm
  have hoptional : (rename.input codebook ["code", "description"]).2 = _ :=
    (renameOptional_eq hlower (by decide) hcodebook hac).symm
  rw [renameSetup_eq hsetup hget, modify_of_some hkeep]
  simp only [Rename.setup, Rename.part, hinput, hkeep, hoptional]

omit hlower in
theorem blankSetup_renameSetup {setup codebook : Json} (hsetup : Input setupFields setup)
    (hget : setup.get? "codebook" = some codebook) (hcodebook : Optional codebookFields codebook) :
    blankSetup (renameSetup toLowerCase setup rename) = blankSetup setup := by
  rw [renameSetup_eq hsetup hget, blankSetup, blankSetup, blankInput_modify (by decide) (by decide), modify_modify,
    blankInput_renameInput (by decide) (by decide) hsetup]
  refine modify_congr fun value hvalue => ?_
  rw [get?_blankInput (by decide) (by decide), hget] at hvalue
  obtain rfl := Option.some.inj hvalue
  exact blankInput_renameOptional (by decide) (by decide) hcodebook

omit hlower in
theorem renameExecution_eq {execution examples : Json} (hget : execution.get? "examples" = some examples) :
    renameExecution toLowerCase execution rename =
      execution.modify "examples" fun _ => renameOptional toLowerCase examples rename exampleFields := by
  have hexamples : execution.get "examples" = examples := by rw [Json.get, hget, Option.getD_some]
  rw [modify_of_some hget, renameExecution, hexamples]
  rfl

omit hlower in
theorem input_of_refersTo {part : Json} (h : refersTo part rename = false) :
    (rename.input part fields).2 = part := by
  simp only [refersTo] at h
  simp only [Rename.input]
  split
  · rfl
  · rename_i source hsource
    rw [hsource] at h
    split
    · rfl
    · rename_i name hname
      simp only [hname, Relation.same, Bool.and_eq_false_iff] at h
      rcases h with h | h <;> simp [h]

omit hlower in
theorem part_snd {value : Json} {key : String} {f : Json → Bool × Json} :
    (Rename.part value key f).2 = value.modify key fun part => (f part).2 := by
  cases h : value.get? key with
  | none => rw [modify_of_none h, Rename.part, h]
  | some part => rw [modify_of_some h, Rename.part, h]

omit hlower in
theorem request_of_setup {members : List (String × Json)} {setup : Json}
    (hcodebook : ∀ codebook, (Json.obj members).get? "codebook" = some codebook → refersTo codebook rename = false) :
    (rename.request "annotation" ((Json.obj members).set "setup" setup)).2 =
      ((Json.obj members).modify "examples" fun examples => (rename.input examples exampleFields).2).set "setup"
        (rename.setup setup).2 := by
  have hsetup : (Rename.part ((Json.obj members).set "setup" setup) "setup" rename.setup).2 =
      (Json.obj members).set "setup" (rename.setup setup).2 := by
    rw [part_snd, modify_of_some get?_set_obj, set_set_obj]
  have hkeep : (Rename.part ((Json.obj members).set "setup" (rename.setup setup).2) "codebook" fun v =>
      rename.input v ["code", "description"]).2 = (Json.obj members).set "setup" (rename.setup setup).2 := by
    rw [part_snd]
    refine modify_eq_self fun codebook hget => ?_
    rw [get?_set_obj_of_ne (by decide)] at hget
    exact input_of_refersTo (hcodebook codebook hget)
  simp only [Rename.request, hsetup, hkeep]
  rw [part_snd, modify_set_comm (by decide)]
  rfl

omit hlower in
theorem input_renameSetup {setup codebook : Json} (hsetup : Input setupFields setup)
    (hget : setup.get? "codebook" = some codebook) : Input setupFields (renameSetup toLowerCase setup rename) := by
  have hinput : Input setupFields (renameInput toLowerCase setup rename setupFields) :=
    hsetup.renameInput (by decide) (by decide)
  rw [renameSetup_eq hsetup hget]
  obtain ⟨source, hsource, hs⟩ := hinput.source
  refine ⟨⟨source, by rw [get?_modify_of_ne (by decide), hsource], hs⟩, fun field hfield value hvalue => ?_⟩
  have hne : field ≠ "codebook" := by
    rintro rfl
    revert hfield
    decide
  rw [get?_modify_of_ne hne] at hvalue
  exact hinput.references field hfield value hvalue

/-- The setup of a draft: the same in the window and in the database. -/
structure SetupFacts (toLowerCase : String → String) (rename : Rename) (setup : Json) : Prop where
  typed : Input setupFields (renameSetup toLowerCase setup rename)
  codebook : Optional codebookFields ((renameSetup toLowerCase setup rename).get "codebook")
  stored : (rename.setup setup).2 = renameSetup toLowerCase setup rename
  blank : blankSetup (renameSetup toLowerCase setup rename) = blankSetup setup
  kept : Kept rename (reading setupFields setup) (reading setupFields (renameSetup toLowerCase setup rename))
  keptCodebook : Kept rename (reading codebookFields (setup.get "codebook"))
    (reading codebookFields ((renameSetup toLowerCase setup rename).get "codebook"))

theorem setup_facts {setup codebook : Json} (hsetup : Input setupFields setup)
    (hget : setup.get? "codebook" = some codebook) (hcodebook : Optional codebookFields codebook)
    (ha : InputAgrees toLowerCase rename setupFields setup)
    (hac : codebook ≠ .null → InputAgrees toLowerCase rename codebookFields codebook) :
    SetupFacts toLowerCase rename setup := by
  refine ⟨input_renameSetup hsetup hget, ?_, setup_eq hlower hsetup hget hcodebook ha hac,
    blankSetup_renameSetup hsetup hget hcodebook, ?_, ?_⟩
  · rw [get_codebook_renameSetup hsetup hget]
    exact optional_renameOptional (by decide) (by decide) hcodebook
  · rw [renameSetup_eq hsetup hget, reading_modify (by decide) (by decide)]
    exact kept_renameInput hlower ha
  · have hold : setup.get "codebook" = codebook := by rw [Json.get, hget, Option.getD_some]
    rw [get_codebook_renameSetup hsetup hget, hold]
    exact kept_renameOptional hlower hcodebook hac

/-- The execution of a draft, where it has one. -/
structure ExecutionFacts (toLowerCase : String → String) (rename : Rename) (execution : Json) : Prop where
  object : ∃ members, execution = .obj members
  examples : ∃ examples, execution.get? "examples" = some examples ∧ Optional exampleFields examples ∧
    (examples ≠ .null → InputAgrees toLowerCase rename exampleFields examples)
  noSetup : execution.get? "setup" = none
  noCodebook : ∀ codebook, execution.get? "codebook" = some codebook → refersTo codebook rename = false

omit hlower in
theorem execution_facts (hw : AnnotationDraft v) (ha : AnnotationAgrees toLowerCase rename v) {execution : Json}
    (h : v.get? "execution" = some execution) : ExecutionFacts toLowerCase rename execution := by
  obtain ⟨hobject, hsetup, hoptional⟩ := hw.execution execution h
  obtain ⟨examples, hget⟩ := Option.isSome_iff_exists.mp (ha.hasExamples execution h)
  have hexamples : execution.get "examples" = examples := by rw [Json.get, hget, Option.getD_some]
  exact ⟨hobject, ⟨examples, hget, hexamples ▸ hoptional, hexamples ▸ ha.examples execution h⟩, hsetup,
    ha.noCodebook execution h⟩

section Execution

variable {execution : Json} (h : ExecutionFacts toLowerCase rename execution)

include h

omit hlower in
theorem ExecutionFacts.typed : (∃ members, renameExecution toLowerCase execution rename = .obj members) ∧
    (renameExecution toLowerCase execution rename).get? "setup" = none ∧
    Optional exampleFields ((renameExecution toLowerCase execution rename).get "examples") := by
  obtain ⟨members, rfl⟩ := h.object
  obtain ⟨examples, hget, hoptional, -⟩ := h.examples
  refine ⟨⟨_, rfl⟩, ?_, ?_⟩
  · rw [renameExecution_eq hget, get?_modify_of_ne (by decide), h.noSetup]
  · rw [renameExecution_eq hget, Json.get, get?_modify_self, hget]
    exact optional_renameOptional (by decide) (by decide) hoptional

theorem ExecutionFacts.stored {setup : Json} :
    (rename.request "annotation" (execution.set "setup" setup)).2 =
      (renameExecution toLowerCase execution rename).set "setup" (rename.setup setup).2 := by
  obtain ⟨members, rfl⟩ := h.object
  obtain ⟨examples, hget, hoptional, ha⟩ := h.examples
  rw [request_of_setup h.noCodebook, renameExecution_eq hget, renameOptional_eq hlower (by decide) hoptional ha]
  refine congrArg (Json.set · "setup" _) (modify_congr fun value hvalue => ?_)
  obtain rfl := Option.some.inj (hget.symm.trans hvalue)
  rfl

omit hlower in
theorem ExecutionFacts.blank : blankExecution (renameExecution toLowerCase execution rename) = blankExecution execution := by
  obtain ⟨examples, hget, hoptional, -⟩ := h.examples
  rw [renameExecution_eq hget, blankExecution, blankExecution, modify_modify]
  refine modify_congr fun value hvalue => ?_
  obtain rfl := Option.some.inj (hget.symm.trans hvalue)
  exact blankInput_renameOptional (by decide) (by decide) hoptional

theorem ExecutionFacts.kept : Kept rename (reading exampleFields (execution.get "examples"))
    (reading exampleFields ((renameExecution toLowerCase execution rename).get "examples")) := by
  obtain ⟨examples, hget, hoptional, ha⟩ := h.examples
  have hold : execution.get "examples" = examples := by rw [Json.get, hget, Option.getD_some]
  have hnew : (renameExecution toLowerCase execution rename).get "examples" =
      renameOptional toLowerCase examples rename exampleFields := by
    rw [renameExecution_eq hget, Json.get, get?_modify_self, hget]
    rfl
  rw [hold, hnew]
  exact kept_renameOptional hlower hoptional ha

end Execution

omit hlower in
theorem renameAnnotationDraft_eq {setup : Json} (hget : v.get? "setup" = some setup) :
    renameAnnotationDraft toLowerCase v rename =
      (v.modify "setup" fun _ => renameSetup toLowerCase setup rename).modify "execution" fun execution =>
        renameExecution toLowerCase execution rename := by
  have hne : ("execution" : String) ≠ "setup" := by decide
  have hsetup : v.get "setup" = setup := by rw [Json.get, hget, Option.getD_some]
  rw [renameAnnotationDraft, hsetup, set_eq_modify hget]
  cases hexecution : v.get? "execution" with
  | none => exact (modify_of_none (by rw [get?_modify_of_ne hne, hexecution])).symm
  | some execution =>
      have hkeep : (v.modify "setup" fun _ => renameSetup toLowerCase setup rename).get? "execution" = some execution := by
        rw [get?_modify_of_ne hne, hexecution]
      rw [modify_of_some hkeep]

theorem renamed_annotation (hw : WellTyped Kind.annotation v) (ha : Agrees toLowerCase Kind.annotation rename v) :
    Renamed Kind.annotation rename v (renameAnnotationDraft toLowerCase v rename) := by
  have hdraft : AnnotationDraft v := hw
  have hagrees : AnnotationAgrees toLowerCase rename v := ha
  obtain ⟨setup, hget⟩ := Option.isSome_iff_exists.mp hdraft.setup.1
  have hsetup : v.get "setup" = setup := by rw [Json.get, hget, Option.getD_some]
  obtain ⟨codebook, hgetc⟩ := Option.isSome_iff_exists.mp hagrees.hasCodebook
  have hcodebook : (v.get "setup").get "codebook" = codebook := by rw [Json.get, hgetc, Option.getD_some]
  have hfacts : SetupFacts toLowerCase rename setup := hsetup ▸
    setup_facts hlower hdraft.setup.2 hgetc (hcodebook ▸ hdraft.codebook) hagrees.setup (hcodebook ▸ hagrees.codebook)
  have hne : ("execution" : String) ≠ "setup" := by decide
  have hsome : (renameAnnotationDraft toLowerCase v rename).get? "setup" =
      some (renameSetup toLowerCase setup rename) := by
    rw [renameAnnotationDraft_eq hget, get?_modify_of_ne hne.symm, get?_modify_self, hget, Option.map_some]
  have hnew : (renameAnnotationDraft toLowerCase v rename).get "setup" = renameSetup toLowerCase setup rename := by
    rw [Json.get, hsome, Option.getD_some]
  have hexecution : (renameAnnotationDraft toLowerCase v rename).get? "execution" =
      (v.get? "execution").map fun execution => renameExecution toLowerCase execution rename := by
    rw [renameAnnotationDraft_eq hget, get?_modify_self, get?_modify_of_ne hne]
  refine ⟨⟨⟨by rw [hsome]; rfl, hnew ▸ hfacts.typed⟩, hnew ▸ hfacts.codebook, fun execution hex => ?_⟩, ?_, ?_, ?_⟩
  · rw [hexecution] at hex
    obtain ⟨old, hold, rfl⟩ := Option.map_eq_some_iff.mp hex
    exact (execution_facts hdraft hagrees hold).typed
  · rw [stored, stored, hexecution, hnew, hsetup, ← hfacts.stored]
    cases hold : v.get? "execution" with
    | none => exact (@request_of_setup _ [] _ (by intro codebook h; cases h)).symm
    | some execution => exact ((execution_facts hdraft hagrees hold).stored hlower).symm
  · rw [skeleton, skeleton, renameAnnotationDraft_eq hget, modify_comm hne, modify_modify, modify_modify]
    have hblank : (v.modify "setup" fun _ => blankSetup (renameSetup toLowerCase setup rename)) =
        v.modify "setup" blankSetup := by
      refine modify_congr fun value hvalue => ?_
      obtain rfl := Option.some.inj (hget.symm.trans hvalue)
      exact hfacts.blank
    rw [hblank]
    refine modify_congr fun execution hvalue => ?_
    rw [get?_modify_of_ne hne] at hvalue
    exact (execution_facts hdraft hagrees hvalue).blank
  · rw [readings, readings, hnew, hsetup]
    refine .cons hfacts.kept (.cons hfacts.keptCodebook (.cons ?_ .nil))
    have hnewExecution : (renameAnnotationDraft toLowerCase v rename).get "execution" =
        ((v.get? "execution").map fun execution => renameExecution toLowerCase execution rename).getD .null := by
      rw [← hexecution]
      rfl
    rw [hnewExecution, show v.get "execution" = (v.get? "execution").getD .null from rfl]
    cases hold : v.get? "execution" with
    | none => exact fun _ => rfl
    | some execution => exact (execution_facts hdraft hagrees hold).kept hlower

/-- One rename of a draft. -/
theorem renamed {kind : Kind} (hw : WellTyped kind v) (ha : Agrees toLowerCase kind rename v) :
    Renamed kind rename v (renameRequest toLowerCase kind v rename) := by
  cases kind with
  | frequency => exact renamed_frequency hlower hw ha
  | concordance => exact renamed_inputs hlower (.inl rfl) hw ha
  | topicModeling => exact renamed_inputs hlower (.inr rfl) hw ha
  | annotation => exact renamed_annotation hlower hw ha
  | quotation => exact renamed_quotation hlower hw ha
  | trends | compare | scatter | heatmap | sankey => exact renamed_plot hlower rfl hw ha

end Step

end Wordflow.Drafts
