import Wordflow.Annotation
import Wordflow.Library.Chunks

namespace Wordflow.AnnotationRun

open Library Library.Fallible Objects Annotation

structure Inference where
  model : String
  batchSize : Nat
  retries : Nat
  concurrency : Nat
  deriving DecidableEq

inductive Prediction
  | success (label : Option String)
  | failed (error : Error)
  deriving DecidableEq

inductive FailureKind
  | fatal
  | transient
  | response
  | context
  | timeout
  deriving DecidableEq

structure Failure where
  kind : FailureKind
  error : Error
  deriving DecidableEq

def invalidResponse (message : String) : Failure := ⟨.response, ⟨"annotation_provider_invalid_response", message⟩⟩

def interrupted : Error := ⟨"interrupted", "Annotation interrupted"⟩

/-- A value of the labels array of a response. -/
inductive LabelValue
  | null
  | text (value : String)
  | other

/-- What a response reads as. -/
inductive Content
  | notJson
  | noLabels
  | labels (values : List LabelValue)

/-- What an attempt to have a request completed gives. -/
abbrev Attempt := Except Failure Content

/-- The configuration that a provider is prepared with. -/
def Inference.prepare (config : Inference) : Except Error Unit :=
  if Text.trim config.model = "" ∨ ¬(1 ≤ config.batchSize ∧ config.batchSize ≤ 100) ∨ 10 < config.retries ∨
      ¬(1 ≤ config.concurrency ∧ config.concurrency ≤ 32) then
    .error (.invalid "Choose a model, batch size 1–100, retries 0–10 and concurrency 1–32")
  else .ok ()

section Labels

variable (fold : String → String) (codes : List Code)

def readLabel : LabelValue → Except Failure (Option String)
  | .null => .ok none
  | .text label =>
      match codes.find? fun c => fold (Text.trim c.code) = fold (Text.trim label) with
      | some c => .ok (some c.code)
      | none => .error (invalidResponse "Annotation response contained an unknown code")
  | .other => .error (invalidResponse "Labels must be Codebook codes or null")

def labels (content : Content) (count : Nat) : Except Failure (List (Option String)) :=
  match content with
  | .notJson => .error (invalidResponse "Annotation response was not valid JSON")
  | .noLabels => .error (invalidResponse "Annotation response must contain a labels array")
  | .labels values =>
      if values.length ≠ count then .error (invalidResponse "Annotation response has the wrong number of labels")
      else values.mapM (readLabel fold codes)

/-- The codes that `predict_batches` accepts, with the folded codes met so far. -/
def checkCodes : List String → List Code → Except Error Unit
  | _, [] => .ok ()
  | names, c :: rest =>
      if Text.trim c.code = "" ∨ fold (Text.trim c.code) ∈ names then
        .error (.invalid "Codebook codes must be nonblank and unique ignoring case")
      else checkCodes (fold (Text.trim c.code) :: names) rest

/-- The labels of a segment are written from its start on. -/
def writeLabels (output : List (Option Prediction)) : Nat → List (Option String) → List (Option Prediction)
  | _, [] => output
  | start, label :: rest => writeLabels (output.set start (some (.success label))) (start + 1) rest

/-- The loop of `predict_batch` over its stack of segments. Each attempt takes the
next answer of the provider; when there is none the run has been cancelled. -/
def predictLoop (retries : Nat) : List Attempt → List (Nat × Nat) → Nat → List (Option Prediction) →
    Except Error (List (Option Prediction))
  | _, [], _, output => .ok output
  | [], _ :: _, _, _ => .error interrupted
  | answer :: answers, (start, stop) :: pending, attempts, output =>
      match answer >>= fun body => labels fold codes body (stop - start) with
      | .ok found => predictLoop retries answers pending 0 (writeLabels output start found)
      | .error failure =>
          if (failure.kind = .transient ∨ failure.kind = .response) ∧ attempts < retries then
            predictLoop retries answers ((start, stop) :: pending) (attempts + 1) output
          else if failure.kind = .context ∨ failure.kind = .response then
            if 1 < stop - start then
              let middle := start + (stop - start) / 2
              predictLoop retries answers ((start, middle) :: (middle, stop) :: pending) 0 output
            else predictLoop retries answers pending 0 (output.set start (some (.failed failure.error)))
          else .error failure.error

def lostRow : Error := ⟨"worker_failed", "Annotation batch lost a row"⟩

def predictBatch (retries : Nat) (answers : List Attempt) (texts : List String) : Except Error (List Prediction) := do
  let output ← predictLoop fold codes retries answers [(0, texts.length)] 0 (List.replicate texts.length none)
  output.mapM fun row =>
    match row with
    | some p => .ok p
    | none => .error lostRow

end Labels

section Segments

variable {fold : String → String} {codes : List Code}

/-- A prediction that gives no label, or one of the Codebook. -/
def Prediction.Coded (codes : List Code) : Prediction → Prop
  | .success label => ∀ code ∈ label, ∃ c ∈ codes, c.code = code
  | .failed _ => True

/-- Each position is decided or lies in a segment that waits. -/
structure Segmented (codes : List Code) (count : Nat) (pending : List (Nat × Nat)) (output : List (Option Prediction)) :
    Prop where
  length : output.length = count
  decided : ∀ i < count, (∃ p, output[i]? = some (some p)) ∨ ∃ segment ∈ pending, segment.1 ≤ i ∧ i < segment.2
  coded : ∀ p, some p ∈ output → p.Coded codes

theorem labels_length {content : Content} {count : Nat} {found : List (Option String)}
    (h : labels fold codes content count = .ok found) : found.length = count := by
  cases content with
  | notJson | noLabels => cases h
  | labels values =>
      rw [labels, guard_eq_ok, not_not] at h
      exact ((mapM_eq_ok.mp h.2).length_eq.symm.trans h.1)

theorem labels_coded {content : Content} {count : Nat} {found : List (Option String)}
    (h : labels fold codes content count = .ok found) : ∀ label ∈ found, (Prediction.success label).Coded codes := by
  cases content with
  | notJson | noLabels => cases h
  | labels values =>
      rw [labels, guard_eq_ok] at h
      intro label hlabel
      obtain ⟨value, -, hvalue⟩ := forall₂_mem_right (mapM_eq_ok.mp h.2) hlabel
      cases value with
      | null =>
          obtain rfl := Except.ok.inj hvalue
          exact fun code hcode => by cases hcode
      | text value =>
          rw [readLabel] at hvalue
          split at hvalue
          · rename_i c hc
            obtain rfl := Except.ok.inj hvalue
            intro code hcode
            obtain rfl := Option.some.inj hcode
            exact ⟨c, List.mem_of_find?_eq_some hc, rfl⟩
          · cases hvalue
      | other => cases hvalue

theorem Segmented.set {length start : Nat} {pending rest : List (Nat × Nat)} {output : List (Option Prediction)} {p : Prediction}
    (h : Segmented codes length pending output) (hp : p.Coded codes)
    (hrest : ∀ i < length, i ≠ start → (∃ segment ∈ pending, segment.1 ≤ i ∧ i < segment.2) →
      ∃ segment ∈ rest, segment.1 ≤ i ∧ i < segment.2) : Segmented codes length rest (output.set start (some p)) where
  length := (List.length_set).trans h.length
  decided := by
    intro i hi
    rw [List.getElem?_set]
    by_cases hstart : start = i
    · have hlt : start < output.length := by
        rw [h.length]
        omega
      rw [if_pos hstart, if_pos hlt]
      exact .inl ⟨p, rfl⟩
    · rw [if_neg hstart]
      exact (h.decided i hi).imp_right (hrest i hi (Ne.symm hstart))
  coded := by
    intro q hq
    rcases List.mem_or_eq_of_mem_set hq with hold | hnew
    · exact h.coded q hold
    · exact Option.some.inj hnew ▸ hp

theorem Segmented.write {length start stop : Nat} {pending : List (Nat × Nat)} {output : List (Option Prediction)}
    {found : List (Option String)} (h : Segmented codes length ((start, stop) :: pending) output)
    (hfound : found.length = stop - start) (hcoded : ∀ label ∈ found, (Prediction.success label).Coded codes) :
    Segmented codes length pending (writeLabels output start found) := by
  induction found generalizing start output with
  | nil =>
      refine ⟨h.length, fun i hi => (h.decided i hi).imp_right ?_, h.coded⟩
      rintro ⟨segment, hsegment, hi⟩
      rcases List.mem_cons.mp hsegment with rfl | hsegment
      · simp only [List.length_nil] at hfound
        omega
      · exact ⟨segment, hsegment, hi⟩
  | cons label found ih =>
      obtain ⟨hlabel, hcoded⟩ := List.forall_mem_cons.mp hcoded
      simp only [List.length_cons] at hfound
      refine ih (h.set hlabel ?_) (by omega) hcoded
      rintro i hi hne ⟨segment, hsegment, hbounds⟩
      rcases List.mem_cons.mp hsegment with rfl | hsegment
      · exact ⟨_, List.mem_cons_self, by omega⟩
      · exact ⟨segment, List.mem_cons_of_mem _ hsegment, hbounds⟩

/-- Every loop that ends has decided every position. -/
theorem predictLoop_decides {retries length : Nat} {answers : List Attempt} {pending : List (Nat × Nat)} {attempts : Nat}
    {output result : List (Option Prediction)} (h : Segmented codes length pending output)
    (hloop : predictLoop fold codes retries answers pending attempts output = .ok result) : Segmented codes length [] result := by
  induction answers generalizing pending attempts output with
  | nil =>
      cases pending with
      | nil =>
          simp only [predictLoop] at hloop
          exact Except.ok.inj hloop ▸ h
      | cons segment pending => cases hloop
  | cons answer answers ih =>
      cases pending with
      | nil =>
          simp only [predictLoop] at hloop
          exact Except.ok.inj hloop ▸ h
      | cons segment pending =>
          obtain ⟨start, stop⟩ := segment
          simp only [predictLoop] at hloop
          split at hloop
          · rename_i found hfound
            obtain ⟨body, -, hlabels⟩ := bind_eq_ok.mp hfound
            exact ih (h.write (labels_length hlabels) (labels_coded hlabels)) hloop
          · split at hloop
            · exact ih h hloop
            · split at hloop
              · split at hloop
                · -- the halves cover the segment
                  refine ih ⟨h.length, fun i hi => (h.decided i hi).imp_right ?_, h.coded⟩ hloop
                  rintro ⟨segment, hsegment, hbounds⟩
                  rcases List.mem_cons.mp hsegment with rfl | hsegment
                  · by_cases hmiddle : i < start + (stop - start) / 2
                    · exact ⟨_, List.mem_cons_self, hbounds.1, hmiddle⟩
                    · exact ⟨_, List.mem_cons_of_mem _ List.mem_cons_self, by omega, hbounds.2⟩
                  · exact ⟨segment, List.mem_cons_of_mem _ (List.mem_cons_of_mem _ hsegment), hbounds⟩
                · refine ih (h.set (p := .failed _) trivial ?_) hloop
                  rintro i hi hne ⟨segment, hsegment, hbounds⟩
                  rcases List.mem_cons.mp hsegment with rfl | hsegment
                  · simp only at hbounds
                    omega
                  · exact ⟨segment, hsegment, hbounds⟩
              · cases hloop

theorem predictBatch_segmented {retries : Nat} {answers : List Attempt} {texts : List String}
    {output : List (Option Prediction)}
    (h : predictLoop fold codes retries answers [(0, texts.length)] 0 (List.replicate texts.length none) = .ok output) :
    Segmented codes texts.length [] output := by
  refine predictLoop_decides ⟨List.length_replicate, fun i hi => ?_, fun p hp => ?_⟩ h
  · exact .inr ⟨_, List.mem_cons_self, Nat.zero_le i, hi⟩
  · cases List.eq_of_mem_replicate hp

/-- A batch loses no row: each text has one prediction, in the order of the texts. -/
theorem predictBatch_spec {retries : Nat} {answers : List Attempt} {texts : List String} {predictions : List Prediction}
    (h : predictBatch fold codes retries answers texts = .ok predictions) :
    predictions.length = texts.length ∧ ∀ p ∈ predictions, p.Coded codes := by
  rw [predictBatch, bind_eq_ok] at h
  obtain ⟨output, hloop, h⟩ := h
  have hsegmented := predictBatch_segmented hloop
  have hrows := mapM_eq_ok.mp h
  refine ⟨hrows.length_eq.symm.trans hsegmented.length, fun p hp => ?_⟩
  obtain ⟨row, hrow, heq⟩ := forall₂_mem_right hrows hp
  cases row with
  | none => cases heq
  | some q =>
      obtain rfl := Except.ok.inj heq
      exact hsegmented.coded q hrow

theorem predictBatch_ne_lostRow {retries : Nat} {answers : List Attempt} {texts : List String}
    {output : List (Option Prediction)}
    (h : predictLoop fold codes retries answers [(0, texts.length)] 0 (List.replicate texts.length none) = .ok output) :
    ∃ predictions, predictBatch fold codes retries answers texts = .ok predictions := by
  have hsegmented := predictBatch_segmented h
  have hall : ∀ row ∈ output, ∃ p, row = some p := by
    intro row hrow
    obtain ⟨i, hi, rfl⟩ := List.mem_iff_getElem.mp hrow
    rcases hsegmented.decided i (hsegmented.length ▸ hi) with ⟨p, hp⟩ | ⟨segment, hsegment, -⟩
    · exact ⟨p, Option.some.inj ((List.getElem?_eq_getElem hi).symm.trans hp)⟩
    · cases hsegment
  refine ⟨output.filterMap id, ?_⟩
  rw [predictBatch, bind_eq_ok]
  refine ⟨output, h, mapM_eq_ok.mpr ?_⟩
  clear h hsegmented
  induction output with
  | nil => exact .nil
  | cons row output ih =>
      obtain ⟨⟨p, rfl⟩, hrest⟩ := List.forall_mem_cons.mp hall
      exact .cons rfl (ih hrest)

end Segments

end Wordflow.AnnotationRun
