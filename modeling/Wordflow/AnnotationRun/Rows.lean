import Wordflow.AnnotationRun.Execution

namespace Wordflow.AnnotationRun

open Library Library.Chunks Library.Fallible Objects Tables Annotation CellEdit

variable {V : Type} {sql : Sql V} {t : Table V}

/-- What was answered of the text of a captured row. -/
def decided (sql : Sql V) (request : Request) (answered : List (String × Prediction)) (row : Row V) : Option Prediction :=
  if eligible sql request row then
    (answered.find? fun a => a.1 = documentText sql request row).map Prod.snd
  else none

/-- A row of the table and the row it was captured as. -/
def Labelled (sql : Sql V) (request : Request) (answered : List (String × Prediction)) (base row : Row V) : Prop :=
  match decided sql request answered base with
  | some (.success label) => ∃ value, sql.cast "VARCHAR" label = .ok value ∧
      row.cells = base.cells.map fun c => (c.1, if c.1 = request.setup.annotation then value else c.2)
  | _ => row = base

/-- A cast to VARCHAR and back gives the identifier of a row. -/
def Identified (sql : Sql V) [DecidableEq V] (type : String) (rows : List (Row V)) : Prop :=
  ∀ row ∈ rows, ∀ ref, sql.text (row.key sql) = some ref →
    ∃ key, sql.cast type (some ref) = .ok key ∧ sql.equal (row.key sql) key = true

/-- What a run captured of a table. -/
structure Captured [DecidableEq V] (sql : Sql V) (t : Table V) (run : Run V) : Prop where
  columns : run.request.setup.document ≠ run.request.setup.annotation
  keyed : Keyed sql t.rows
  texts : ∀ row ∈ t.rows, (sql.text (row.key sql)).isSome = true
  identified : Identified sql run.rowType t.rows
  captured : run.captured = (t.rows.filter (eligible sql run.request)).map fun r => (rowRef sql r, documentText sql run.request r)
  nodup : run.inputs.Nodup
  inputs : ∀ text, text ∈ run.inputs ↔ text ∈ run.captured.map Prod.snd
  total : run.total = t.rows.length
  eligible : run.eligible = run.captured.length
  skipped : run.skipped = (t.rows.filter fun r => blank (document sql run.request r)).length
  batchSize : 0 < run.request.inference.batchSize
  concurrency : 0 < run.request.inference.concurrency

section Source

variable {request : Request} {row : Row V}

theorem document_of_eligible (h : eligible sql request row = true) :
    document sql request row = some (documentText sql request row) := by
  rw [eligible, Bool.and_eq_true] at h
  rw [documentText]
  cases hdocument : document sql request row with
  | none =>
      rw [hdocument] at h
      cases h.1
  | some text => rfl

theorem find_setCell {cells : List (String × V)} {target name : String} (value : V) (h : name ≠ target) :
    (cells.map fun c => (c.1, if c.1 = target then value else c.2)).find? (fun c => c.1 = name) =
      cells.find? fun c => c.1 = name := by
  induction cells with
  | nil => rfl
  | cons c cells ih =>
      obtain ⟨column, cell⟩ := c
      by_cases hname : column = name
      · simp [hname, h]
      · simp only [List.map_cons, List.find?_cons, hname, decide_false, ih]

/-- A label does not change the text of a row. -/
theorem Labelled.document {answered : List (String × Prediction)} {base : Row V}
    (hcolumns : request.setup.document ≠ request.setup.annotation) (h : Labelled sql request answered base row) :
    document sql request row = document sql request base := by
  rw [Labelled] at h
  split at h
  · obtain ⟨value, -, hcells⟩ := h
    rw [AnnotationRun.document, AnnotationRun.document, cellText, cellText, hcells, find_setCell value hcolumns]
  · rw [h]

theorem find_setCell_self {cells : List (String × V)} {target : String} (value : V) :
    (cells.map fun c => (c.1, if c.1 = target then value else c.2)).find? (fun c => c.1 = target) =
      if target ∈ cells.map Prod.fst then some (target, value) else none := by
  induction cells with
  | nil => rfl
  | cons c cells ih =>
      obtain ⟨column, cell⟩ := c
      by_cases hname : column = target
      · simp [hname]
      · have hmem : target ∈ ((column, cell) :: cells).map Prod.fst ↔ target ∈ cells.map Prod.fst := by
          rw [List.map_cons, List.mem_cons, or_iff_right (Ne.symm hname)]
        rw [List.map_cons, List.find?_cons_of_neg (by simpa using hname), ih]
        simp only [hmem]

/-- Rows with the same label hold the same value. -/
theorem Labelled.equal {answered : List (String × Prediction)} {base base' row row' : Row V} {label : Option String}
    (h : Labelled sql request answered base row) (h' : Labelled sql request answered base' row')
    (hlabel : decided sql request answered base = some (.success label))
    (hlabel' : decided sql request answered base' = some (.success label))
    (hcolumns : base.cells.map Prod.fst = base'.cells.map Prod.fst) :
    cellText sql row request.setup.annotation = cellText sql row' request.setup.annotation := by
  rw [Labelled, hlabel] at h
  rw [Labelled, hlabel'] at h'
  obtain ⟨value, hvalue, hcells⟩ := h
  obtain ⟨value', hvalue', hcells'⟩ := h'
  obtain rfl := Except.ok.inj (hvalue.symm.trans hvalue')
  rw [cellText, cellText, hcells, hcells', find_setCell_self, find_setCell_self, hcolumns]

end Source

section Denotes

variable [DecidableEq V] {type : String} {rows : List (Row V)}

theorem denotes_iff {ref : String} {row : Row V} : denotes sql type ref row = true ↔
    ∃ key, sql.cast type (some ref) = .ok key ∧ sql.equal (row.key sql) key = true ∧ sql.text (row.key sql) = some ref := by
  rw [denotes]
  split
  · rename_i key hkey
    rw [denotesKey_iff, matched]
    constructor
    · rintro ⟨hequal, htext⟩
      exact ⟨key, hkey, hequal, htext⟩
    · rintro ⟨key', hkey', hequal, htext⟩
      obtain rfl := Except.ok.inj (hkey.symm.trans hkey')
      exact ⟨hequal, htext⟩
  · rename_i error herror
    simp [herror]

theorem denotes_self (hrefs : Identified sql type rows) (htexts : ∀ row ∈ rows, (sql.text (row.key sql)).isSome = true)
    {row : Row V} (hrow : row ∈ rows) : denotes sql type (rowRef sql row) row = true := by
  obtain ⟨ref, href⟩ := Option.isSome_iff_exists.mp (htexts row hrow)
  obtain ⟨key, hkey, hequal⟩ := hrefs row hrow ref href
  rw [denotes_iff, rowRef, href]
  exact ⟨key, hkey, hequal, rfl⟩

/-- A reference names the row it was taken from. -/
theorem eq_of_denotes (hkeyed : Keyed sql rows) (hrefs : Identified sql type rows)
    (htexts : ∀ row ∈ rows, (sql.text (row.key sql)).isSome = true) {row other : Row V} (hrow : row ∈ rows)
    (hother : other ∈ rows) (h : denotes sql type (rowRef sql other) row = true) : row = other := by
  obtain ⟨key, hkey, hequal, -⟩ := denotes_iff.mp h
  obtain ⟨key', hkey', hequal', -⟩ := denotes_iff.mp (denotes_self hrefs htexts hother)
  obtain rfl := Except.ok.inj (hkey.symm.trans hkey')
  exact hkeyed row hrow other hother ((equal_iff.mp hequal).2.2.trans (equal_iff.mp hequal').2.2.symm)

end Denotes

section Numbers

variable {run : Run V}

theorem input_injective (hnodup : run.inputs.Nodup) {a b : Nat} {text : String} (ha : run.input a = some text)
    (hb : run.input b = some text) : a = b := by
  rw [Run.input] at ha hb
  split at ha
  · cases ha
  · split at hb
    · cases hb
    · obtain ⟨hlt, ha⟩ := List.getElem?_eq_some_iff.mp ha
      obtain ⟨hlt', hb⟩ := List.getElem?_eq_some_iff.mp hb
      have heq := (hnodup.getElem_inj_iff).mp (ha.trans hb.symm)
      omega

/-- The next window is what follows the texts asked so far, with their numbers. -/
theorem next_eq : run.next.1 =
    (((run.inputs.drop run.after).take (run.request.inference.batchSize * run.request.inference.concurrency)).zipIdx
      (run.after + 1)).map Prod.swap := by
  have hfilter : ∀ (items : List String) (after k : Nat),
      ((items.zipIdx (k + 1)).map Prod.swap).filter (fun r => k + after < r.1) = ((items.drop after).zipIdx (k + after + 1)).map Prod.swap := by
    intro items
    induction items with
    | nil => simp
    | cons item items ih =>
        intro after k
        cases after with
        | zero =>
            have hrest := ih 0 (k + 1)
            simp only [Nat.add_zero, List.drop_zero] at hrest ⊢
            rw [List.zipIdx_cons, List.map_cons, List.filter_cons]
            have hall : ((items.zipIdx (k + 1 + 1)).map Prod.swap).filter (fun r => decide (k < r.1)) =
                (items.zipIdx (k + 1 + 1)).map Prod.swap := by
              rw [List.filter_eq_self]
              intro r hr
              obtain ⟨q, hq, rfl⟩ := List.mem_map.mp hr
              have hle := List.le_snd_of_mem_zipIdx hq
              simp only [Prod.fst_swap, decide_eq_true_eq]
              omega
            simp [hall]
        | succ after =>
            have hrest := ih after (k + 1)
            rw [List.zipIdx_cons, List.map_cons, List.filter_cons, List.drop_succ_cons]
            have hnot : ¬(k + (after + 1) < (Prod.swap (item, k + 1)).1) := by
              simp only [Prod.fst_swap]
              omega
            rw [decide_eq_false hnot, if_neg Bool.false_ne_true]
            have hsum : k + (after + 1) = k + 1 + after := by omega
            rw [hsum]
            exact hrest
  have h := hfilter run.inputs run.after 0
  simp only [Nat.zero_add] at h
  simp only [Run.next, h]
  refine List.ext_getElem? fun i => ?_
  simp only [List.getElem?_take, List.getElem?_map, List.getElem?_zipIdx]
  split <;> rfl

theorem next_texts (run : Run V) : run.next.1.map Prod.snd =
    (run.inputs.drop run.after).take (run.request.inference.batchSize * run.request.inference.concurrency) := by
  rw [next_eq, List.map_map]
  exact List.zipIdx_map_fst _ _

theorem next_numbers (run : Run V) : List.Forall₂ (fun ref text => run.input ref = some text) (run.next.1.map Prod.fst)
    (run.next.1.map Prod.snd) := by
  rw [List.forall₂_map_left_iff, List.forall₂_map_right_iff, List.forall₂_same]
  intro r hr
  rw [next_eq] at hr
  obtain ⟨q, hq, rfl⟩ := List.mem_map.mp hr
  obtain ⟨hle, hlt, htext⟩ := List.mem_zipIdx hq
  rw [Prod.fst_swap, Prod.snd_swap, Run.input, if_neg (by omega), htext, List.getElem_take, List.getElem_drop]
  have hindex : q.2 - 1 = run.after + (q.2 - (run.after + 1)) := by omega
  rw [hindex, List.getElem?_eq_getElem]

theorem next_after (hne : run.next.1 ≠ []) : run.next.2.after = run.after + run.next.1.length := by
  have hlast : run.next.2.after = (run.next.1.getLast?.map Prod.fst).getD run.after := rfl
  rw [hlast, List.getLast?_eq_getElem?]
  rw [next_eq] at hne ⊢
  generalize (run.inputs.drop run.after).take (run.request.inference.batchSize * run.request.inference.concurrency) = texts at hne ⊢
  have hpos : 0 < texts.length := by
    rw [List.length_pos_iff]
    rintro rfl
    exact hne rfl
  simp only [List.length_map, List.length_zipIdx, List.getElem?_map, List.getElem?_zipIdx]
  rw [List.getElem?_eq_getElem (by omega)]
  simp only [Option.map_some, Prod.fst_swap, Option.getD_some]
  omega

end Numbers

section Keys

variable {answered fresh : List (String × Prediction)} {text : String} {p : Prediction}

theorem forall₂_zip {α β γ : Type*} {R : α → β → Prop} {as : List α} {bs : List β} (cs : List γ)
    (h : List.Forall₂ R as bs) : List.Forall₂ (fun p q => R p.1 q.1 ∧ p.2 = q.2) (as.zip cs) (bs.zip cs) := by
  induction h generalizing cs with
  | nil => exact .nil
  | cons hhead _ ih =>
      cases cs with
      | nil => exact .nil
      | cons c cs => exact .cons ⟨hhead, rfl⟩ (ih cs)

theorem forall₂_chunk {α β : Type*} {R : α → β → Prop} {as : List α} {bs : List β} {size : Nat} {chunk : Nat × List β}
    (h : List.Forall₂ R as bs) (hchunk : chunk ∈ chunks size bs) :
    List.Forall₂ R ((as.drop chunk.1).take chunk.2.length) chunk.2 := by
  have htake : (bs.drop chunk.1).take chunk.2.length = chunk.2 := by
    rw [mem_chunks hchunk, List.length_take, ← List.take_eq_take_min]
  have hslice := List.forall₂_take chunk.2.length (List.forall₂_drop chunk.1 h)
  rw [htake] at hslice
  exact hslice

theorem forall₂_nodup {α β γ : Type*} {R : α → β → Prop} {f : α → γ} {as : List α} {bs : List β}
    (hR : ∀ a a' b, R a b → R a' b → f a = f a') (h : List.Forall₂ R as bs) (hnodup : (as.map f).Nodup) : bs.Nodup := by
  induction h with
  | nil => exact List.nodup_nil
  | cons hhead hrest ih =>
      obtain ⟨hnot, hnodup⟩ := List.nodup_cons.mp hnodup
      refine List.nodup_cons.mpr ⟨fun hmem => hnot ?_, ih hnodup⟩
      obtain ⟨a, ha, hab⟩ := forall₂_mem_right hrest hmem
      rw [hR _ _ _ hhead hab]
      exact List.mem_map_of_mem ha

/-- Where a text was answered once, finding it gives that answer. -/
theorem find_answer (hnodup : (answered.map Prod.fst).Nodup) :
    (answered.find? fun a => a.1 = text).map Prod.snd = some p ↔ (text, p) ∈ answered := by
  rw [Option.map_eq_some_iff]
  constructor
  · rintro ⟨a, ha, rfl⟩
    have htext : a.1 = text := by simpa using List.find?_some ha
    exact htext ▸ List.mem_of_find?_eq_some ha
  · intro hmem
    cases hfind : answered.find? fun a => a.1 = text with
    | none => exact absurd (decide_eq_true rfl) (List.find?_eq_none.mp hfind _ hmem)
    | some a =>
        have htext : a.1 = text := by simpa using List.find?_some hfind
        obtain rfl := List.inj_on_of_nodup_map hnodup (List.mem_of_find?_eq_some hfind) hmem htext
        exact ⟨_, rfl, rfl⟩

theorem find_answer_none : (answered.find? fun a => a.1 = text).map Prod.snd = none ↔ text ∉ answered.map Prod.fst := by
  simp only [Option.map_eq_none_iff, List.find?_eq_none, decide_eq_true_eq, List.mem_map, not_exists, not_and]

/-- Answers to other texts leave what was answered of a text as it was. -/
theorem find_answer_append (fresh : List (String × Prediction)) (h : text ∉ answered.map Prod.fst) :
    ((answered ++ fresh).find? fun a => a.1 = text).map Prod.snd = (fresh.find? fun a => a.1 = text).map Prod.snd := by
  rw [List.find?_append, Option.map_eq_none_iff.mp (find_answer_none.mpr h), Option.none_or]

theorem find_answer_kept (h : (answered.find? fun a => a.1 = text).map Prod.snd = some p) :
    ((answered ++ fresh).find? fun a => a.1 = text).map Prod.snd = some p := by
  obtain ⟨a, ha, hp⟩ := Option.map_eq_some_iff.mp h
  rw [List.find?_append, ha]
  exact Option.map_eq_some_iff.mpr ⟨a, rfl, hp⟩

end Keys

section Assignments

variable {run : Run V} {answered : List (String × Prediction)} {refs : List Nat} {texts : List String}
  {predictions : List Prediction}

theorem mem_assignments {predictions : List (Nat × Prediction)} {a : Run.Assignment} :
    a ∈ run.assignments predictions refs ↔ ∃ ref, (ref, .success a.label) ∈ predictions ∧ ref ∈ refs ∧
      run.input ref = some a.text ∧ (a.row, a.text) ∈ run.captured := by
  rw [Run.assignments, List.mem_flatMap]
  constructor
  · rintro ⟨⟨ref, p⟩, hp, ha⟩
    cases p with
    | failed error => cases ha
    | success label =>
        simp only at ha
        split at ha
        · rename_i href
          obtain ⟨e, he, rfl⟩ := List.mem_map.mp ha
          obtain ⟨hcaptured, htext⟩ := List.mem_filter.mp he
          exact ⟨ref, hp, href, of_decide_eq_true htext, hcaptured⟩
        · cases ha
  · rintro ⟨ref, hp, href, htext, hcaptured⟩
    refine ⟨_, hp, ?_⟩
    simp only
    rw [if_pos href]
    exact List.mem_map.mpr ⟨_, List.mem_filter.mpr ⟨hcaptured, decide_eq_true htext⟩, rfl⟩

/-- The pairs of a batch: a number of the window and the text it stands for. -/
structure Answers (run : Run V) (answered : List (String × Prediction)) (refs : List Nat) (texts : List String)
    (predictions : List Prediction) : Prop where
  length : predictions.length = texts.length
  inputs : List.Forall₂ (fun ref text => run.input ref = some text) refs texts
  stored : List.Forall₂ (fun p a => run.input p.1 = some a.1 ∧ p.2 = a.2) run.predictions answered
  fresh : ((run.predictions ++ refs.zip predictions).map Prod.fst).Nodup

theorem Answers.all (h : Answers run answered refs texts predictions) :
    List.Forall₂ (fun p a => run.input p.1 = some a.1 ∧ p.2 = a.2) (run.predictions ++ refs.zip predictions)
      (answered ++ texts.zip predictions) := List.rel_append h.stored (forall₂_zip _ h.inputs)

theorem Answers.nodup (hnodup : run.inputs.Nodup) (h : Answers run answered refs texts predictions) :
    ((answered ++ texts.zip predictions).map Prod.fst).Nodup := by
  refine forall₂_nodup (R := fun p text => run.input p.1 = some text) ?_ ?_ h.fresh
  · intro p q text hp hq
    exact input_injective hnodup hp hq
  · rw [List.forall₂_map_right_iff]
    exact h.all.imp fun p a hpa => hpa.1

/-- A batch gives labels to the rows of its own texts only. -/
theorem Answers.assigned (h : Answers run answered refs texts predictions) {a : Run.Assignment}
    (ha : a ∈ run.assignments (run.predictions ++ refs.zip predictions) refs) :
    (a.text, .success a.label) ∈ texts.zip predictions ∧ (a.row, a.text) ∈ run.captured := by
  obtain ⟨ref, hp, href, htext, hcaptured⟩ := mem_assignments.mp ha
  refine ⟨?_, hcaptured⟩
  have hlength : refs.length ≤ predictions.length := h.inputs.length_eq.trans h.length.symm |>.le
  have hfresh := h.fresh
  rw [List.map_append, List.nodup_append, List.map_fst_zip hlength] at hfresh
  rcases List.mem_append.mp hp with hold | hnew
  · exact absurd rfl (hfresh.2.2 ref (List.mem_map_of_mem hold) ref href)
  · obtain ⟨⟨text, p⟩, hzip, hinput, hlabel⟩ := forall₂_mem_left (forall₂_zip predictions h.inputs) hnew
    obtain rfl := Option.some.inj (htext.symm.trans hinput)
    obtain rfl := hlabel
    exact hzip

/-- A labelled text of a batch gives its label to each of its rows. -/
theorem Answers.assigns (h : Answers run answered refs texts predictions) {text row : String} {label : Option String}
    (hlabel : (text, .success label) ∈ texts.zip predictions) (hcaptured : (row, text) ∈ run.captured) :
    ⟨row, text, label⟩ ∈ run.assignments (run.predictions ++ refs.zip predictions) refs := by
  obtain ⟨⟨ref, p⟩, hzip, hinput, hp⟩ := forall₂_mem_right (forall₂_zip predictions h.inputs) hlabel
  obtain rfl := hp
  exact mem_assignments.mpr ⟨ref, List.mem_append_right _ hzip, (List.of_mem_zip hzip).1, hinput, hcaptured⟩

theorem relabelRow_none {next : Nat} {column : String} {value : Row V → Option V} {moves : Bool} {row : Row V}
    (h : value row = none) : relabelRow next column value moves row = row := by
  rw [relabelRow, Table.updateRow, h]
  rfl

theorem relabelRow_some {next : Nat} {column : String} {value : Row V → Option V} {moves : Bool} {row : Row V} {v : V}
    (h : value row = some v) : (relabelRow next column value moves row).cells =
      row.cells.map fun c => (c.1, if c.1 = column then v else c.2) := by
  rw [relabelRow, Table.updateRow, h]
  rfl

end Assignments

section Updates

variable [DecidableEq V] {run : Run V} {answered : List (String × Prediction)} {refs : List Nat} {texts : List String}
  {predictions : List Prediction} {values : List (Run.Assignment × V)}

/-- What the UPDATE of a batch writes into a row. -/
def written (sql : Sql V) (run : Run V) (values : List (Run.Assignment × V)) (row : Row V) : Option V :=
  (values.find? fun a => denotes sql run.rowType a.1.row row && document sql run.request row = some a.1.text).map Prod.snd

/-- The values that the labels of a batch are cast to. -/
def Cast (sql : Sql V) (found : List Run.Assignment) (values : List (Run.Assignment × V)) : Prop :=
  List.Forall₂ (fun a v => v.1 = a ∧ sql.cast "VARCHAR" a.label = .ok v.2) found values

theorem update_spec {predictions : List (Nat × Prediction)} {table : Table V}
    (h : run.update sql predictions refs = .ok table) :
    ∃ values moves, Cast sql (run.assignments predictions refs) values ∧
      table = relabel run.table run.request.setup.annotation (written sql run values) moves := by
  simp only [Run.update, bind_eq_ok] at h
  obtain ⟨_, -, values, hvalues, _, -, h⟩ := h
  obtain rfl := Except.ok.inj h
  refine ⟨values, _, (mapM_eq_ok.mp hvalues).imp fun a v hv => ?_, rfl⟩
  obtain ⟨value, hcast, rfl⟩ := map_eq_ok.mp hv
  exact ⟨rfl, hcast⟩

theorem of_written {found : List Run.Assignment} (hcast : Cast sql found values) {row : Row V} {v : V}
    (h : written sql run values row = some v) : ∃ a ∈ found, denotes sql run.rowType a.row row = true ∧
      document sql run.request row = some a.text ∧ sql.cast "VARCHAR" a.label = .ok v := by
  obtain ⟨⟨a, v⟩, hfind, rfl⟩ := Option.map_eq_some_iff.mp h
  obtain ⟨a', ha', rfl, hvalue⟩ := forall₂_mem_right hcast (List.mem_of_find?_eq_some hfind)
  have hfound := List.find?_some hfind
  rw [Bool.and_eq_true, decide_eq_true_eq] at hfound
  exact ⟨a, ha', hfound.1, hfound.2, hvalue⟩

theorem written_isSome {found : List Run.Assignment} (hcast : Cast sql found values) {row : Row V} {a : Run.Assignment}
    (ha : a ∈ found) (hdenotes : denotes sql run.rowType a.row row = true)
    (htext : document sql run.request row = some a.text) : ∃ v, written sql run values row = some v := by
  obtain ⟨⟨a', v⟩, hv, rfl, -⟩ := forall₂_mem_left hcast ha
  have hfind : (values.find? fun a => denotes sql run.rowType a.1.row row &&
      document sql run.request row = some a.1.text).isSome = true := by
    rw [List.find?_isSome]
    exact ⟨_, hv, by rw [Bool.and_eq_true, decide_eq_true_eq]; exact ⟨hdenotes, htext⟩⟩
  rw [written]
  exact Option.isSome_iff_exists.mp (Option.isSome_map.trans hfind)

theorem Captured.mem (hc : Captured sql t run) {row : Row V} (hrow : row ∈ t.rows)
    (h : AnnotationRun.eligible sql run.request row = true) : (rowRef sql row, documentText sql run.request row) ∈ run.captured := by
  rw [hc.captured]
  exact List.mem_map_of_mem (List.mem_filter.mpr ⟨hrow, h⟩)

/-- The label that a batch writes into a row that it was not told of before. -/
theorem Captured.written (hc : Captured sql t run) (h : Answers run answered refs texts predictions)
    (hcast : Cast sql (run.assignments (run.predictions ++ refs.zip predictions) refs) values) {row : Row V}
    (hrow : row ∈ t.rows) {v : V} : AnnotationRun.written sql run values row = some v →
      AnnotationRun.eligible sql run.request row = true ∧ ∃ label,
        (documentText sql run.request row, .success label) ∈ texts.zip predictions ∧ sql.cast "VARCHAR" label = .ok v := by
  intro hwritten
  obtain ⟨a, ha, hdenotes, htext, hvalue⟩ := of_written hcast hwritten
  obtain ⟨hlabel, hcaptured⟩ := h.assigned ha
  rw [hc.captured] at hcaptured
  obtain ⟨other, hother, heq⟩ := List.mem_map.mp hcaptured
  obtain ⟨hmem, heligible⟩ := List.mem_filter.mp hother
  obtain ⟨href, -⟩ := Prod.mk.inj heq
  rw [← href] at hdenotes
  obtain rfl := eq_of_denotes hc.keyed hc.identified hc.texts hrow hmem hdenotes
  rw [document_of_eligible heligible] at htext
  rw [← Option.some.inj htext] at hlabel
  exact ⟨heligible, a.label, hlabel, hvalue⟩

/-- A batch labels the rows of its texts and no other row. -/
theorem Captured.relabelled (hc : Captured sql t run) (h : Answers run answered refs texts predictions)
    (hcast : Cast sql (run.assignments (run.predictions ++ refs.zip predictions) refs) values) {base row : Row V}
    (hbase : base ∈ t.rows) (hrow : Labelled sql run.request answered base row) {next : Nat} {moves : Bool} :
    Labelled sql run.request (answered ++ texts.zip predictions) base
      (relabelRow next run.request.setup.annotation (AnnotationRun.written sql run values) moves row) := by
  have hnodup := h.nodup hc.nodup
  by_cases heligible : AnnotationRun.eligible sql run.request base = true
  · cases hanswer : (answered.find? fun a => a.1 = documentText sql run.request base).map Prod.snd with
    | some p =>
        -- The text is among the answers before, so no answer of this batch is about it.
        have hnone : AnnotationRun.written sql run values row = none := by
          rw [Option.eq_none_iff_forall_ne_some]
          intro v hv
          obtain ⟨a, ha, -, htext, -⟩ := of_written hcast hv
          rw [hrow.document hc.columns, document_of_eligible heligible] at htext
          obtain hlabel := (h.assigned ha).1
          rw [← Option.some.inj htext] at hlabel
          rw [List.map_append, List.nodup_append] at hnodup
          have hold : documentText sql run.request base ∈ answered.map Prod.fst := by
            by_contra hnot
            exact nomatch hanswer.symm.trans (find_answer_none.mpr hnot)
          exact hnodup.2.2 _ hold _ (List.mem_map_of_mem hlabel) rfl
        rw [relabelRow_none hnone]
        rw [Labelled, decided, if_pos heligible, hanswer] at hrow
        rw [Labelled, decided, if_pos heligible, find_answer_kept hanswer]
        exact hrow
    | none =>
        have hdecided : decided sql run.request answered base = none := by rw [decided, if_pos heligible, hanswer]
        rw [Labelled, hdecided] at hrow
        obtain rfl : row = base := hrow
        have hfresh := find_answer_append (texts.zip predictions) (find_answer_none.mp hanswer)
        have hnodup' : ((texts.zip predictions).map Prod.fst).Nodup := by
          rw [List.map_append, List.nodup_append] at hnodup
          exact hnodup.2.1
        rw [Labelled, decided, if_pos heligible, hfresh]
        cases hwritten : AnnotationRun.written sql run values row with
        | none =>
            rw [relabelRow_none hwritten]
            split
            · rename_i label hlabel
              have hassigned := h.assigns ((find_answer hnodup').mp hlabel) (hc.mem hbase heligible)
              obtain ⟨v, hv⟩ := written_isSome hcast hassigned (denotes_self hc.identified hc.texts hbase)
                (document_of_eligible heligible)
              cases hwritten.symm.trans hv
            · rfl
        | some v =>
            obtain ⟨-, label, hlabel, hvalue⟩ := hc.written h hcast hbase hwritten
            rw [(find_answer hnodup').mpr hlabel]
            exact ⟨v, hvalue, relabelRow_some hwritten⟩
  · have hnot : ∀ answers, decided sql run.request answers base = none := fun answers => if_neg heligible
    rw [Labelled, hnot] at hrow
    obtain rfl : row = base := hrow
    rw [Labelled, hnot]
    refine relabelRow_none (Option.eq_none_iff_forall_ne_some.mpr fun v hv => ?_)
    exact heligible (hc.written h hcast hbase hv).1

end Updates

end Wordflow.AnnotationRun
