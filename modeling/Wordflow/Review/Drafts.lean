import Wordflow.Review.Saved

namespace Wordflow.Review

open Library Library.Fallible Library.Identifier Objects Tables Annotation CellEdit

variable {V : Type} [DecidableEq V] {sql : Sql V}

/-- Two answers about a table before and after a Save. Its rows correspond by their places. -/
structure Agrees (before after : List (Row V)) (r r' : ReviewQuery V) : Prop where
  total : r.totalRows = before.length ∧ r'.totalRows = r.totalRows
  filtered : r.rows.length = r.filteredRows ∧ r'.filteredRows = r.filteredRows
  comparisons : r'.comparisons = r.comparisons
  original : r.rows.Sublist before
  saved : r'.rows.Sublist after
  selected : List.Forall₂ (fun old new => old ∈ r.rows ↔ new ∈ r'.rows) before after
  counted : ∀ c ∈ r.comparisons, ∃ x, c = some x ∧ x.included + x.excluded = r.totalRows

def SameReview (before after : List (Row V)) : Except Error (ReviewQuery V) → Except Error (ReviewQuery V) → Prop
  | .error e, .error e' => e' = e
  | .ok r, .ok r' => Agrees before after r r'
  | _, _ => False

section Labels

variable {codes codes' : Option (List Code)} {setup : ManualSetup} {compare : List String} {views views' : List (View V)}
variable {group group' : List (Option String × Option String) → List Pair}

/-- The labels of two rows are the same. -/
def SameLabels (codes codes' : Option (List Code)) (v v' : View V) : Prop := v.label codes = v'.label codes'

omit [DecidableEq V] in
theorem keeps_same {filter : RowFilter} {v v' : View V} (h : SameLabels codes codes' v v') :
    keeps codes setup compare filter v = keeps codes' setup compare filter v' := by
  simp only [keeps, show v.label codes = v'.label codes' from h]

omit [DecidableEq V] in
theorem compared_same (hgroup : Grouping group) (hgroup' : Grouping group') (columns : List Column)
    (h : List.Forall₂ (SameLabels codes codes') views views') :
    compared group columns codes setup views = compared group' columns codes' setup views' := by
  funext name
  have hlabels : (views'.map fun v => (v.label codes' setup.annotation, v.label codes' name)) =
      views.map fun v => (v.label codes setup.annotation, v.label codes name) :=
    forall₂_map_eq h fun v v' hsame => by rw [show v.label codes = v'.label codes' from hsame]
  rw [compared, compared, hlabels, hgroup.comparison_eq hgroup']

omit [DecidableEq V] in
theorem compared_counted (hgroup : Grouping group) {columns : List Column} {names : List String}
    {comparisons : List (Option Comparison)} (h : names.mapM (compared group columns codes setup views) = .ok comparisons) :
    ∀ c ∈ comparisons, ∃ x, c = some x ∧ x.included + x.excluded = views.length := by
  intro c hc
  obtain ⟨name, -, hname⟩ := forall₂_mem_right (mapM_eq_ok.mp h) hc
  obtain ⟨-, -, hname⟩ := bind_eq_ok.mp hname
  cases hname
  refine ⟨_, comparison_eq _ _, ?_⟩
  have hcounts := hgroup.counts (comparison_eq name
    (group (views.map fun v => (v.label codes setup.annotation, v.label codes name))))
  rwa [List.length_map] at hcounts

end Labels

section Rows

variable {rows rows' : List (Row V)} {view view' : Row V → View V} {kept kept' : View V → Bool}

/-- The rows whose `rowid` is among those of the kept views are those with kept views. -/
theorem mem_selected (h : Identified sql rows) (hview : ∀ r, (view r).key = r.key sql) {r : Row V} :
    r ∈ rows.filter (fun r => ((rows.map view).filter kept).any fun v => sql.equal (r.key sql) v.key) ↔
      r ∈ rows ∧ kept (view r) = true := by
  rw [List.mem_filter]
  refine and_congr_right fun hr => ?_
  simp only [List.any_eq_true, List.mem_filter, List.mem_map]
  constructor
  · rintro ⟨_, ⟨⟨other, hother, rfl⟩, hkept⟩, hequal⟩
    rw [hview] at hequal
    obtain rfl := (h.selected hr hother).mp hequal
    exact hkept
  · intro hkept
    refine ⟨view r, ⟨⟨r, hr, rfl⟩, hkept⟩, ?_⟩
    rw [hview]
    exact (h.selected hr hr).mpr rfl

theorem selected_length (h : Identified sql rows) (hview : ∀ r, (view r).key = r.key sql) :
    (rows.filter fun r => ((rows.map view).filter kept).any fun v => sql.equal (r.key sql) v.key).length =
      ((rows.map view).filter kept).length := by
  have hsame : (rows.filter fun r => ((rows.map view).filter kept).any fun v => sql.equal (r.key sql) v.key) =
      rows.filter fun r => kept (view r) := by
    apply List.filter_congr
    intro r hr
    rw [Bool.eq_iff_iff]
    have hmem := @mem_selected V _ sql rows view kept h hview r
    rw [List.mem_filter] at hmem
    exact and_congr_right_iff.mp hmem hr
  rw [hsame, List.filter_map, List.length_map]
  rfl

end Rows

section Answers

variable {codes codes' : Option (List Code)} {setup : ManualSetup} {compare : List String} {rows rows' : List (Row V)}
variable {group group' : List (Option String × Option String) → List Pair} {changes : List Patch}

omit [DecidableEq V] in
theorem keptBy_same (columns : List Column) (filter : Option RowFilter) :
    (∃ e, @keptBy V columns codes setup compare filter = .error e ∧ @keptBy V columns codes' setup compare filter = .error e) ∨
      ∃ kept kept' : View V → Bool, keptBy columns codes setup compare filter = .ok kept ∧
        keptBy columns codes' setup compare filter = .ok kept' ∧ ∀ v v', SameLabels codes codes' v v' → kept v = kept' v' := by
  cases filter with
  | none => exact .inr ⟨_, _, rfl, rfl, fun _ _ _ => rfl⟩
  | some filter =>
      rw [keptBy, keptBy]
      cases checkFilter columns setup compare filter with
      | error e => exact .inl ⟨e, rfl, rfl⟩
      | ok _ => exact .inr ⟨_, _, rfl, rfl, fun v v' h => keeps_same h⟩

/-- Where the rows have the same labels, the answers agree. -/
theorem reviewRows_same (hgroup : Grouping group) (hgroup' : Grouping group') (h : Identified sql rows)
    (h' : Identified sql rows') (columns : List Column) (filter : Option RowFilter)
    (hrows : List.Forall₂ (fun old new => SameLabels codes codes' (overlay sql columns changes old) (overlay sql columns [] new))
      rows rows') :
    SameReview rows rows' (reviewRows sql group columns codes setup ⟨compare, changes, filter⟩ rows)
      (reviewRows sql group' columns codes' setup ⟨compare, [], filter⟩ rows') := by
  have hviews : List.Forall₂ (SameLabels codes codes') (rows.map (overlay sql columns changes))
      (rows'.map (overlay sql columns [])) :=
    List.forall₂_map_left_iff.mpr (List.forall₂_map_right_iff.mpr hrows)
  have hcompared := @compared_same V codes codes' setup _ _ group group' hgroup hgroup' columns hviews
  simp only [reviewRows, hcompared]
  cases hcomparisons : compare.mapM (compared group' columns codes' setup (rows'.map (overlay sql columns []))) with
  | error e => rfl
  | ok comparisons =>
      rcases @keptBy_same V codes codes' setup compare columns filter with ⟨e, hkept, hkept'⟩ | ⟨kept, kept', hkept, hkept', hsame⟩
      · rw [hkept, hkept']
        rfl
      · rw [hkept, hkept']
        have hview : ∀ changes (r : Row V), (overlay sql columns changes r).key = r.key sql := fun _ _ => rfl
        have hkeeps : List.Forall₂ (SameLabels codes codes') ((rows.map (overlay sql columns changes)).filter kept)
            ((rows'.map (overlay sql columns [])).filter kept') :=
          List.rel_filter (fun v v' hlabels => Bool.eq_iff_iff.mp (hsame v v' hlabels)) hviews
        refine ⟨⟨List.length_map .., hviews.length_eq.symm⟩, ⟨selected_length h (hview changes), hkeeps.length_eq.symm⟩, rfl,
          List.filter_sublist, List.filter_sublist, ?_, ?_⟩
        · refine (forall₂_members hrows).imp fun old new hmembers => ?_
          obtain ⟨hold, hnew, hlabels⟩ := hmembers
          rw [mem_selected h (hview changes), mem_selected h' (hview []), hsame _ _ hlabels]
          simp [hold, hnew]
        · rw [hviews.length_eq]
          exact compared_counted hgroup' hcomparisons

end Answers

section Saves

variable {s : Session V} {live : Catalogue V} {t changed : Table V} {input accepted : Save} {result : Option (Catalogue V)}

theorem saveTransaction_editable (h : saveTransaction sql live s input = .ok result)
    (haccepted : acceptedChanges sql live s input = .ok accepted) :
    ∀ p ∈ accepted.changes, ∃ c ∈ s.columns, c.editable = true ∧ c.name = p.column := by
  obtain ⟨accepted', haccepted', h⟩ := bind_eq_ok.mp h
  cases haccepted.symm.trans haccepted'
  obtain ⟨plan, hplan, -⟩ := bind_eq_ok.mp h
  obtain ⟨-, hcollected, -⟩ := collect_spec hplan
  intro p hp
  obtain ⟨row, hrow, -, cell, hcell, hname⟩ := hcollected.complete p hp
  obtain ⟨q, -, -, hcolumn, -, column, heditable, -⟩ := hcollected.sound row hrow cell hcell
  obtain ⟨hmem, hsame, hedit⟩ := editableColumn_spec heditable
  exact ⟨column, hmem, hedit, hsame.trans (hcolumn.trans hname)⟩

theorem saveTransaction_validated {saved : Catalogue V} (hlive : live.table? s.relation = some t)
    (h : saveTransaction sql live s input = .ok (some saved)) : ∃ changed, saved = live.set s.relation changed ∧
      (s.columns.any Column.identifier = true → validateIdentifiers sql changed.rows = .ok ()) := by
  obtain ⟨accepted, -, h⟩ := bind_eq_ok.mp h
  obtain ⟨plan, -, h⟩ := bind_eq_ok.mp h
  obtain ⟨⟨⟩, -, h⟩ := bind_eq_ok.mp h
  split at h
  · cases h
  · simp only [hlive] at h
    obtain ⟨changed, -, h⟩ := bind_eq_ok.mp h
    obtain ⟨⟨⟩, hvalid, h⟩ := bind_eq_ok.mp h
    cases h
    refine ⟨changed, rfl, fun hany => ?_⟩
    obtain ⟨⟨⟩, hvalid, -⟩ := bind_eq_ok.mp hvalid
    rwa [hany, if_pos rfl] at hvalid

variable {setup : ManualSetup} {changes : List Patch} {codes : Option (List Code)}
variable {group group' : List (Option String × Option String) → List Pair}

/-- The rules of a session whose labels can be reviewed. -/
def Labelled (s : Session V) (setup : ManualSetup) : Prop :=
  s.annotation = some (.manual setup) ∨ s.annotation = some (.corrections setup)

omit [DecidableEq V] in
theorem acceptedChanges_spec (hrules : Labelled s setup) (h : acceptedChanges sql live s ⟨changes, [], []⟩ = .ok accepted) :
    ∃ codes labels, setup.codebook.mapM (readCodebook sql live) = .ok codes ∧ Accepted codes changes labels ∧
      accepted = ⟨labels, [], []⟩ := by
  have hlabels : EditRequest.validateLabels sql live setup ⟨changes, [], []⟩ = .ok accepted := by
    rcases hrules with hrules | hrules <;> rwa [acceptedChanges, hrules] at h
  obtain ⟨-, hlabels⟩ := guard_eq_ok.mp hlabels
  obtain ⟨codes, hcodes, hlabels⟩ := bind_eq_ok.mp hlabels
  obtain ⟨labels, hpatches, hlabels⟩ := bind_eq_ok.mp hlabels
  cases hlabels
  exact ⟨codes, labels, hcodes, (mapM_eq_ok.mp hpatches).imp fun _ _ => labelPatch_spec, rfl⟩

theorem reviewQuery_eq (hrules : Labelled s setup) (snapshot live : Catalogue V) (request : ReviewRequest) :
    reviewQuery sql group snapshot live s.relation s.columns s.annotation request =
      reviewSetup sql group snapshot live s.relation s.columns setup request := by
  rcases hrules with hrules | hrules <;> rw [hrules, reviewQuery]

/-- The codes that a setup has after a Save. -/
theorem setup_codes_kept {labels : List Patch} (htexts : Texts sql) (hready : Ready sql s live t)
    (hdistinct : (t.columns.map Prod.fst).Nodup) (haccepted : Accepted codes changes labels)
    (hsaved : Saved sql s ⟨labels, [], []⟩ t changed) (hrows : List.Forall₂ (Replaced sql s labels) t.rows changed.rows)
    (hcodes : setup.codebook.mapM (readCodebook sql live) = .ok codes)
    (hapart : ∀ book, setup.codebook = some book → CodesApart s live book) :
    ∃ codes', setup.codebook.mapM (readCodebook sql (live.set s.relation changed)) = .ok codes' ∧
      codes.map (·.map Code.code) = codes'.map (·.map Code.code) := by
  cases hbook : setup.codebook with
  | none =>
      rw [hbook] at hcodes
      cases hcodes
      exact ⟨none, rfl, rfl⟩
  | some book =>
      rw [hbook] at hcodes
      obtain ⟨read, hread, heq⟩ := map_eq_ok.mp hcodes
      subst heq
      obtain ⟨codes', hcodes', hsame⟩ := codes_kept htexts hready hdistinct haccepted hsaved hrows hread (hapart book hbook)
      exact ⟨some codes', map_eq_ok.mpr ⟨codes', hcodes', rfl⟩, congrArg some hsame.symm⟩

theorem reviewSetup_same {codes' : Option (List Code)} {labels : List Patch} {saved : Catalogue V} (htexts : Texts sql)
    (hgroup : Grouping group) (hgroup' : Grouping group') (hready : Ready sql s live t)
    (hdistinct : (t.columns.map fun c => asciiLower c.1).Nodup) (hlegible : Legible sql t.rows) (h : Identified sql t.rows)
    (h' : Identified sql changed.rows) (heditable : ∀ p ∈ labels, ∃ c ∈ s.columns, c.editable = true ∧ c.name = p.column)
    (haccepted : Accepted codes changes labels) (hsaved : Saved sql s ⟨labels, [], []⟩ t changed)
    (hrows : List.Forall₂ (Replaced sql s labels) t.rows changed.rows) (hsame : codes.map (·.map Code.code) =
      codes'.map (·.map Code.code)) (hcodes : setup.codebook.mapM (readCodebook sql live) = .ok codes)
    (hcodes' : setup.codebook.mapM (readCodebook sql saved) = .ok codes') (htable : saved.table? s.relation = some changed)
    (compare : List String) (filter : Option RowFilter) :
    SameReview t.rows changed.rows
      (reviewSetup sql group s.snapshot live s.relation s.columns setup ⟨compare, changes, filter⟩)
      (reviewSetup sql group' saved saved s.relation s.columns setup ⟨compare, [], filter⟩) := by
  have hpatches : checkPatches s.columns [] changes = .ok () := by
    refine checkPatches_ok (fun p hp => ?_) (haccepted.keys ▸ hsaved.cells) fun _ _ => List.not_mem_nil
    obtain ⟨p', hp', -, hcolumn, -⟩ := forall₂_mem_left haccepted hp
    exact hcolumn ▸ heditable p' hp'
  simp only [reviewSetup, hcodes, hcodes', hpatches, hready.snapshot, htable]
  cases checkCompare setup s.columns [] compare with
  | error e => rfl
  | ok _ =>
      refine reviewRows_same hgroup hgroup' h h' s.columns filter ?_
      refine (forall₂_members hrows).imp fun old new ⟨hold, hnew, hreplaced⟩ => overlay_label fun c hc => ?_
      rw [saved_label htexts hready h hlegible hdistinct haccepted hsaved hold hnew hreplaced hc, label_codes hsame]
      rfl

end Saves

section Essays

def essays : Table CellEdit.Value where
  base := true
  columns := [("text", "VARCHAR"), ("label", "VARCHAR"), ("note", "VARCHAR")]
  rows := [⟨0, [("text", .text "a"), ("label", .text "pro"), ("note", .text "pro")]⟩,
    ⟨1, [("text", .text "b"), ("label", .text "contra"), ("note", .text " ")]⟩]
  next := 2
  shaped := by decide
  below := by decide
  distinct := by decide

/-- The table after the second label has been changed to the first. -/
def relabelled : Table CellEdit.Value where
  base := true
  columns := [("text", "VARCHAR"), ("label", "VARCHAR"), ("note", "VARCHAR")]
  rows := [⟨0, [("text", .text "a"), ("label", .text "pro"), ("note", .text "pro")]⟩,
    ⟨1, [("text", .text "b"), ("label", .text "pro"), ("note", .text " ")]⟩]
  next := 4
  shaped := by decide
  below := by decide
  distinct := by decide

def documents : Catalogue CellEdit.Value := ⟨[(⟨"data", "docs"⟩, essays), (⟨"data", "codes"⟩, codes)], ["docs", "codes"]⟩

def codesTable : Codebook := ⟨⟨none, "codes"⟩, "code", "description"⟩

/-- A Codebook that reads the labels themselves. -/
def labelColumn : Codebook := ⟨⟨none, "docs"⟩, "label", "note"⟩

def codedBy (book : Codebook) : EditRequest := .manual ⟨⟨none, "docs"⟩, "text", "label", none, some book⟩

def labelling (book : Codebook) : Session CellEdit.Value where
  target := ⟨none, "docs"⟩
  relation := ⟨"data", "docs"⟩
  columns := [⟨"text", "VARCHAR", false, false⟩, ⟨"label", "VARCHAR", true, false⟩, ⟨"note", "VARCHAR", false, false⟩]
  rowType := "BIGINT"
  annotation := some (codedBy book)
  snapshot := documents
  pending := []
  missed := false
  lostNotifications := false

def grouped (labels : List (Option String × Option String)) : List Pair :=
  labels.dedup.map fun p => (p.1, p.2, labels.countP (· = p))

theorem value_texts : Texts CellEdit.Value.sql where
  varchar s v h := by
    cases h
    rfl
  null ty v h := by
    cases h
    rfl

theorem labelling_opened {book : Codebook} (h : book = codesTable ∨ book = labelColumn) :
    Opened CellEdit.Value.sql (labelling book) documents := by
  refine ⟨⟨⟨[], []⟩, ⟨[("s", { labelling book with
    columns := [⟨"text", "VARCHAR", true, false⟩, ⟨"label", "VARCHAR", true, false⟩, ⟨"note", "VARCHAR", true, false⟩]
    annotation := none })], []⟩, ⟨[("s", labelling book)], []⟩, codedBy book,
    false, "s", labelling book, by simp, ?_⟩, rfl⟩
  rcases h with rfl | rfl <;> decide

end Essays

end Wordflow.Review
