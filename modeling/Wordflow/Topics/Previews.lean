import Mathlib.Data.List.Find
import Wordflow.Library.Chunks
import Wordflow.Library.Tally
import Wordflow.Topics.Adjust

namespace Wordflow.Topics

open Library Library.Chunks Segmentation

section Preview

variable {Cell : Type} (cast display : Cell → String)

/-- The texts of a source, each once, in the order of the rows that have them first. -/
def distinctDocuments (rows : List (Option Cell)) : List String := (rows.filterMap fun row => row.map cast).eraseDups

/-- The texts that a source gives to the fit, read 256 at a time. -/
def captureTexts (rows : List (Option Cell)) : List String := (chunks 256 (distinctDocuments cast rows)).flatMap Prod.snd

structure PreviewDocuments (Cell : Type) where
  cells : List (Option Cell)
  processedIds : Option (List Nat)

/-- The rows of a source joined with its texts; a null is equal to no text. -/
def captureJoined (rows : List (Option Cell)) : PreviewDocuments Cell :=
  let joined := rows.flatMap fun row =>
    ((distinctDocuments cast rows).zipIdx.filter fun text => row.map cast = some text.1).map fun text => (row, text.2 + 1)
  ⟨joined.map Prod.fst, some (joined.map Prod.snd)⟩

def PreviewDocuments.texts (documents : PreviewDocuments Cell) : List String :=
  let texts := documents.cells.map fun cell => (cell.map display).getD ""
  match documents.processedIds with
  | some ids => (OrderedMap.Map.firsts (ids.zip texts)).entries.map Prod.snd
  | none => texts

/-- Each cell that is the first with its text is displayed as this text. -/
def Displayed (rows : List (Option Cell)) : Prop :=
  ∀ cell, (rows.filterMap id).find? (fun other => cast other = cast cell) = some cell → display cell = cast cell

variable {cast display} {rows : List (Option Cell)}

theorem filterMap_cast (rows : List (Option Cell)) :
    (rows.filterMap fun row => row.map cast) = (rows.filterMap id).map cast := by
  rw [List.map_filterMap]
  rfl

theorem mem_distinctDocuments {text : String} :
    text ∈ distinctDocuments cast rows ↔ ∃ cell ∈ rows.filterMap id, cast cell = text := by
  rw [distinctDocuments, List.mem_eraseDups, filterMap_cast, List.mem_map]

theorem nodup_eraseDups {α : Type} [DecidableEq α] (items : List α) : items.eraseDups.Nodup := by
  induction items using List.reverseRecOn with
  | nil => exact List.nodup_nil
  | append_singleton items item ih =>
      rw [List.eraseDups_append]
      apply ih.append
      · by_cases h : item ∈ items <;> simp [List.removeAll, List.eraseDups_cons, h]
      · intro other hother hnew
        rw [List.mem_eraseDups] at hother hnew
        obtain ⟨-, hnew⟩ := List.mem_filter.mp hnew
        simp [hother] at hnew

theorem captureTexts_eq (rows : List (Option Cell)) : captureTexts cast rows = distinctDocuments cast rows :=
  chunks_flatten (by decide)

theorem filter_zipIdx {α : Type} [DecidableEq α] {items : List α} (hnodup : items.Nodup) {item : α} (h : item ∈ items) (k : Nat) :
    ((items.zipIdx k).filter fun e => some item = some e.1) = [(item, k + items.idxOf item)] := by
  induction items generalizing k with
  | nil => cases h
  | cons other items ih =>
      obtain ⟨hother, hnodup⟩ := List.nodup_cons.mp hnodup
      rw [List.zipIdx_cons]
      by_cases hsame : other = item
      · subst hsame
        have hrest : ((items.zipIdx (k + 1)).filter fun e => some other = some e.1) = [] := by
          apply List.filter_eq_nil_iff.mpr
          intro e he hmatch
          have heq := Option.some.inj (of_decide_eq_true hmatch)
          exact hother (heq ▸ List.fst_mem_of_mem_zipIdx he)
        rw [List.filter_cons_of_pos (by simp), hrest, List.idxOf_cons_self, Nat.add_zero]
      · have hmem := (List.mem_cons.mp h).resolve_left (Ne.symm hsame)
        rw [List.filter_cons_of_neg (by simpa using Ne.symm hsame), ih hnodup hmem, List.idxOf_cons_ne _ hsame,
          Nat.add_assoc, Nat.add_comm 1]

/-- Each row that has a text is joined with the number of this text. -/
theorem captureJoined_eq (rows : List (Option Cell)) : captureJoined cast rows =
    ⟨(rows.filterMap id).map some,
      some ((rows.filterMap id).map fun cell => (distinctDocuments cast rows).idxOf (cast cell) + 1)⟩ := by
  have hjoined : (rows.flatMap fun row =>
      ((distinctDocuments cast rows).zipIdx.filter fun text => row.map cast = some text.1).map fun text => (row, text.2 + 1)) =
        (rows.filterMap id).map fun cell => (some cell, (distinctDocuments cast rows).idxOf (cast cell) + 1) := by
    have hall : ∀ cell ∈ rows.filterMap id, cast cell ∈ distinctDocuments cast rows :=
      fun cell hcell => mem_distinctDocuments.mpr ⟨cell, hcell, rfl⟩
    have hnodup : (distinctDocuments cast rows).Nodup := nodup_eraseDups _
    generalize distinctDocuments cast rows = documents at hall hnodup
    induction rows with
    | nil => rfl
    | cons row rows ih =>
        cases row with
        | none =>
            rw [List.flatMap_cons, ih hall]
            simp
        | some cell =>
            obtain ⟨hcell, hall⟩ := List.forall_mem_cons.mp hall
            rw [List.flatMap_cons, ih hall, Option.map_some, filter_zipIdx hnodup hcell]
            simp
  rw [captureJoined, hjoined, List.map_map, List.map_map]
  rfl

/-- What the first cell with a text is displayed as. -/
def rebuilt (cast display : Cell → String) (rows : List (Option Cell)) (text : String) : String :=
  (((rows.filterMap id).find? fun cell => cast cell = text).map display).getD ""

theorem texts_captureJoined (rows : List (Option Cell)) :
    (captureJoined cast rows).texts display = (distinctDocuments cast rows).map (rebuilt cast display rows) := by
  have hmem : ∀ cell ∈ rows.filterMap id, cast cell ∈ distinctDocuments cast rows :=
    fun cell hcell => mem_distinctDocuments.mpr ⟨cell, hcell, rfl⟩
  have hnodup : (distinctDocuments cast rows).Nodup := nodup_eraseDups _
  have hkeys : ((List.range (distinctDocuments cast rows).length).map (· + 1)).Pairwise (· < ·) :=
    List.pairwise_map.mpr (List.pairwise_lt_range.imp Nat.succ_lt_succ)
  have hentries := @OrderedMap.Map.entries_firsts _ _ _
    ((rows.filterMap id).map fun cell => ((distinctDocuments cast rows).idxOf (cast cell) + 1, display cell)) _ hkeys ?_
    (fun key => rebuilt cast display rows ((distinctDocuments cast rows).getD (key - 1) "")) ?_
  · have hzip : ((rows.filterMap id).map fun cell => (distinctDocuments cast rows).idxOf (cast cell) + 1).zip
        (((rows.filterMap id).map some).map fun cell => (cell.map display).getD "") =
          (rows.filterMap id).map fun cell => ((distinctDocuments cast rows).idxOf (cast cell) + 1, display cell) := by
      rw [List.map_map, List.zip_map']
      rfl
    calc
      (captureJoined cast rows).texts display = (OrderedMap.Map.firsts (((rows.filterMap id).map fun cell =>
          (distinctDocuments cast rows).idxOf (cast cell) + 1).zip (((rows.filterMap id).map some).map fun cell =>
            (cell.map display).getD ""))).entries.map Prod.snd := by
        rw [captureJoined_eq]
        rfl
      _ = (distinctDocuments cast rows).map (rebuilt cast display rows) := by
        rw [hzip, hentries, List.map_map, List.map_map]
        apply List.ext_getElem
        · simp
        · intro i hi hi'
          rw [List.length_map] at hi'
          simp [hi']
  · intro key
    simp only [List.mem_map, List.mem_range]
    constructor
    · rintro ⟨i, hi, rfl⟩
      obtain ⟨cell, hcell, hcast⟩ := mem_distinctDocuments.mp (List.getElem_mem hi)
      exact ⟨_, ⟨cell, hcell, rfl⟩, by rw [hcast, hnodup.idxOf_getElem]⟩
    · rintro ⟨e, ⟨cell, hcell, rfl⟩, rfl⟩
      exact ⟨_, List.idxOf_lt_length_of_mem (hmem cell hcell), rfl⟩
  · intro key hkey
    obtain ⟨i, hi, rfl⟩ := List.mem_map.mp hkey
    rw [List.mem_range] at hi
    -- the cells with the number of a text are those with the text
    have hsame : ∀ cell ∈ rows.filterMap id,
        decide ((distinctDocuments cast rows).idxOf (cast cell) + 1 = i + 1) = decide (cast cell = (distinctDocuments cast rows)[i]) := by
      intro cell hcell
      apply decide_eq_decide.mpr
      constructor
      · intro heq
        have hidx := Nat.succ.inj heq
        subst hidx
        exact (List.getElem_idxOf _).symm
      · intro heq
        rw [heq, hnodup.idxOf_getElem]
    obtain ⟨cell, hcell, hcast⟩ := mem_distinctDocuments.mp (List.getElem_mem hi)
    obtain ⟨first, hfirst⟩ : ∃ first, (rows.filterMap id).find? (fun cell => cast cell = (distinctDocuments cast rows)[i]) = some first := by
      rw [← Option.isSome_iff_exists, List.find?_isSome]
      exact ⟨cell, hcell, decide_eq_true hcast⟩
    have hget : (distinctDocuments cast rows).getD (i + 1 - 1) "" = (distinctDocuments cast rows)[i] := by simp [hi]
    rw [List.find?_map, Function.comp_def, List.find?_congr hsame, hfirst, hget, rebuilt, hfirst]
    rfl

/-- The texts of a preview are those of its fit where the first cell with each text is displayed as the text. -/
theorem texts_eq_iff (rows : List (Option Cell)) :
    (captureJoined cast rows).texts display = captureTexts cast rows ↔ Displayed cast display rows := by
  have hself := List.map_inj_left (f := rebuilt cast display rows) (g := id) (l := distinctDocuments cast rows)
  rw [List.map_id] at hself
  rw [texts_captureJoined, captureTexts_eq, hself]
  constructor
  · intro h cell hfind
    have hrebuilt := h _ (mem_distinctDocuments.mpr ⟨cell, List.mem_of_find?_eq_some hfind, rfl⟩)
    rwa [rebuilt, hfind] at hrebuilt
  · intro h text htext
    obtain ⟨cell, hcell, rfl⟩ := mem_distinctDocuments.mp htext
    obtain ⟨first, hfirst⟩ : ∃ first, (rows.filterMap id).find? (fun other => cast other = cast cell) = some first := by
      rw [← Option.isSome_iff_exists, List.find?_isSome]
      exact ⟨cell, hcell, decide_eq_true rfl⟩
    have hpass := List.find?_some hfirst
    have hsame : cast first = cast cell := of_decide_eq_true hpass
    have hdisplay := h first (by rw [hsame, hfirst])
    rw [rebuilt, hfirst]
    exact hdisplay.trans hsame

/-- The texts of all sources are those of the fit where this holds of each source. -/
theorem flatMap_texts_eq_iff (sources : List (List (Option Cell))) :
    (sources.flatMap fun rows => (captureJoined cast rows).texts display) = sources.flatMap (captureTexts cast) ↔
      ∀ rows ∈ sources, Displayed cast display rows := by
  induction sources with
  | nil => simp
  | cons rows sources ih =>
      have hlength : ((captureJoined cast rows).texts display).length = (captureTexts cast rows).length := by
        rw [texts_captureJoined, captureTexts_eq, List.length_map]
      have happend : ∀ before after : List String, (captureJoined cast rows).texts display ++ before = captureTexts cast rows ++ after ↔
          (captureJoined cast rows).texts display = captureTexts cast rows ∧ before = after :=
        fun _ _ => ⟨fun h => List.append_inj h hlength, fun h => by rw [h.1, h.2]⟩
      rw [List.flatMap_cons, List.flatMap_cons, happend, texts_eq_iff, ih, List.forall_mem_cons]

end Preview

section Agreement

variable {Point Embedding Distance Word Coordinate Topics Bytes Cell : Type}

/-- Adjustments are path-independent, and preview texts those of the fit, exactly where
the maximum size has an effect, if there is one, and the first cell with each text is displayed as it. -/
theorem adjustments_agree (engine : Engine Point Embedding Distance Word Coordinate Topics Bytes) (documents : List Document)
    (s : RetainedStages Point) (a b : Adjustment) (cast display : Cell → String) (sources : List (List (Option Cell)))
    (hs : Reached engine documents s) (ha : a.Valid) :
    (a.Effective s.segments.length → PathIndependent engine documents s a b) ∧
    ∀ m, adjust engine documents s a = .ok m →
      (PathIndependent engine documents s a b ∧
          (sources.flatMap fun rows => (captureJoined cast rows).texts display) = sources.flatMap (captureTexts cast) ↔
        a.Effective s.segments.length ∧ ∀ rows ∈ sources, Displayed cast display rows) := by
  refine ⟨pathIndependent_of_effective hs.settled ha, fun m h => ?_⟩
  rw [flatMap_texts_eq_iff]
  apply and_congr_left'
  exact ⟨effective_of_pathIndependent hs.settled h, pathIndependent_of_effective hs.settled ha⟩

/-- An engine that finds no topic. -/
def noise : Engine Unit Unit Unit Unit Unit Unit Unit where
  hdbscan := ⟨fun points _ _ => .ok (List.replicate points.length (-1)), by
    rintro points _ _ _ h
    obtain rfl := Except.ok.inj h
    exact List.length_replicate⟩
  countTopicTerms count _ _ _ := .ok (List.replicate count [])
  cached _ texts := .ok (texts.map fun _ => ())
  numerics := ⟨fun _ => true, fun _ => (), fun _ => (), fun _ => 1, fun _ => true, fun _ _ => (), fun _ _ => .eq, fun _ _ _ _ => ()⟩
  reports := ⟨fun _ _ => [], fun _ _ => .ok [], fun _ _ _ _ => []⟩
  serializeContext _ := .ok ()

def letters : List Document := [['a'], ['b'], ['c']]

/-- The stages of a run on three segments, with at least ten and at most 25 segments a topic. -/
def lettersStages : RetainedStages Unit where
  version := 1
  segments := [⟨0, 0, 1, 1⟩, ⟨1, 0, 1, 1⟩, ⟨2, 0, 1, 1⟩]
  reduced := [(), (), ()]
  labels := [-1, -1, -1]
  seed := 7
  minimumTopicSize := 10
  maximumTopicSize := some 25
  automaticLimit := false
  tokenizer := plainWordsEnModelId
  lowercase := true
  scope := ⟨"model", "fingerprint", "cpu"⟩

theorem lettersStages_reached : Reached noise letters lettersStages := by
  have hrun : run noise letters lettersStages.segments lettersStages.reduced [(), (), ()] ⟨7, 10, .fixed 25, none, true⟩
      lettersStages.scope = .ok { noTopicResult noise letters [0, 1, 2] [1, 1, 1] with retainedStages := some lettersStages } := rfl
  exact .run rfl hrun rfl

/-- The same adjustment twice reports no maximum size, and then a maximum size. -/
theorem letters_report_differs :
    Reached noise letters lettersStages ∧ (⟨10, some 30, plainWordsEnModelId⟩ : Adjustment).Valid ∧
      ∃ first second t, adjust noise letters lettersStages ⟨10, some 30, plainWordsEnModelId⟩ = .ok first ∧
        first.retainedStages = some t ∧ adjust noise letters t ⟨10, some 30, plainWordsEnModelId⟩ = .ok second ∧
          first.maxTopicSize = none ∧ second.maxTopicSize = some 30 ∧
            ¬PathIndependent noise letters lettersStages ⟨10, some 30, plainWordsEnModelId⟩ ⟨10, none, plainWordsEnModelId⟩ := by
  refine ⟨lettersStages_reached, ⟨by decide, by simp⟩, _, _, _, rfl, rfl, rfl, rfl, rfl, fun h => ?_⟩
  have htwice := h.twice _ _ rfl rfl
  exact absurd (congrArg Model.maxTopicSize (Except.ok.inj htwice)) (by decide)

/-- Without a maximum size, and with texts for cells, adjustments and preview texts agree. -/
theorem letters_agree :
    (PathIndependent noise letters lettersStages ⟨10, none, plainWordsEnModelId⟩ ⟨10, some 30, plainWordsEnModelId⟩ ∧
        ([[some "a", none, some "b", some "a"]].flatMap fun rows => (captureJoined id rows).texts id) =
          [[some "a", none, some "b", some "a"]].flatMap (captureTexts id)) ↔
      (⟨10, none, plainWordsEnModelId⟩ : Adjustment).Effective 3 ∧
        ∀ rows ∈ [[some "a", none, some "b", some "a"]], Displayed id id rows :=
  (adjustments_agree noise letters lettersStages ⟨10, none, plainWordsEnModelId⟩ ⟨10, some 30, plainWordsEnModelId⟩ id id
    [[some "a", none, some "b", some "a"]] lettersStages_reached ⟨by decide, by simp⟩).2 _ rfl

end Agreement

end Wordflow.Topics
