import Wordflow.Review.Unsaved

namespace Wordflow.Review

open Library Library.Fallible Library.Identifier Objects Tables Annotation CellEdit

variable {V : Type} [DecidableEq V] {sql : Sql V}

/-- A text is stored as it is, and nothing as NULL. -/
structure Texts (sql : Sql V) : Prop where
  varchar : ∀ s v, sql.cast "VARCHAR" (some s) = .ok v → sql.text v = some s
  null : ∀ ty v, sql.cast ty none = .ok v → sql.text v = none

/-- A session that was opened on its snapshot for annotating. Its rules may have followed renames
since, but nobody has written to its table. -/
structure Opened (sql : Sql V) (s : Session V) (live : Catalogue V) : Prop where
  opened : ∃ e begun restricted request stale id session, (∀ x ∈ e.sessions, x.1 ≠ id) ∧
    beginCellEdit sql s.snapshot e (EditRequest.target request) stale id = .ok begun ∧
    restrictAnnotation sql begun id request = .ok restricted ∧ restricted.editing id = .ok session ∧
    s.columns = session.columns ∧ s.relation = session.relation ∧ s.rowType = session.rowType
  table : live.table? s.relation = s.snapshot.table? s.relation

/-- What an opened session knows of its table. -/
structure Ready (sql : Sql V) (s : Session V) (live : Catalogue V) (t : Table V) : Prop where
  snapshot : s.snapshot.table? s.relation = some t
  live : live.table? s.relation = some t
  names : s.columns.map Column.name = t.columns.map Prod.fst
  varchar : ∀ c ∈ s.columns, c.editable = true → c.dataType = "VARCHAR"
  explicit : s.columns.any Column.identifier = true → validateIdentifiers sql t.rows = .ok ()
  implicit : s.columns.any Column.identifier = false → ∀ c ∈ t.columns, eqIgnoreAsciiCase c.1 "rowid" = false

section Opened

omit [DecidableEq V]

theorem markIdentifier_columns {columns : List (String × String)} {marked : List Column} {rowType : String}
    (h : markIdentifier columns = .ok (marked, rowType)) : marked.map (fun c => (c.name, c.dataType)) = columns := by
  induction columns generalizing marked rowType with
  | nil =>
      cases h
      rfl
  | cons column rest ih =>
      obtain ⟨name, ty⟩ := column
      rw [markIdentifier] at h
      split at h
      · obtain ⟨-, h⟩ := guard_eq_ok.mp h
        cases h
        rw [List.map_cons, List.map_map]
        exact congrArg (List.cons _) (List.map_id' rest)
      · obtain ⟨⟨restMarked, restType⟩, hrest, h⟩ := map_eq_ok.mp h
        cases h
        rw [List.map_cons, ih hrest]

theorem validateColumns_spec {fields : List (String × String)} {roles : List (List Char)} {names : List String}
    (h : EditRequest.validateColumns fields roles names = .ok ()) : ∀ name ∈ names, (name, "VARCHAR") ∈ fields := by
  induction names generalizing roles with
  | nil => exact List.forall_mem_nil _
  | cons name names ih =>
      rw [EditRequest.validateColumns] at h
      obtain ⟨-, h⟩ := guard_eq_ok.mp h
      obtain ⟨hfield, h⟩ := guard_eq_ok.mp h
      refine List.forall_mem_cons.mpr ⟨?_, ih h⟩
      simp only [Bool.not_eq_true', Bool.not_eq_false] at hfield
      obtain ⟨f, hf, hsame⟩ := List.any_eq_true.mp hfield
      obtain ⟨hname, htype⟩ := of_decide_eq_true hsame
      rwa [← hname, ← htype]

theorem editing_append {e : Editor V} {id : String} {session found : Session V} (hfresh : ∀ x ∈ e.sessions, x.1 ≠ id)
    (h : Editor.editing { e with sessions := e.sessions ++ [(id, session)] } id = .ok found) : found = session := by
  have hnone : e.sessions.find? (fun x => x.1 = id) = none :=
    List.find?_eq_none.mpr fun x hx => by simpa using hfresh x hx
  simp only [Editor.editing, List.find?_append, hnone, Option.none_or, List.find?_cons, decide_true] at h
  exact (Except.ok.inj h).symm

end Opened

theorem Opened.ready {s : Session V} {live : Catalogue V} (h : Opened sql s live)
    (hdistinct : ∀ t, s.snapshot.table? s.relation = some t → (t.columns.map Prod.fst).Nodup) :
    ∃ t, Ready sql s live t := by
  obtain ⟨⟨e, begun, restricted, request, stale, id, session, hfresh, hbegin, hrestrict, hediting, hcolumns, hrelation, -⟩,
    hlive⟩ := h
  simp only [beginCellEdit] at hbegin
  split at hbegin
  · cases hbegin
  obtain ⟨relation, hresolve, hbegin⟩ := bind_eq_ok.mp hbegin
  obtain ⟨-, hbegin⟩ := guard_eq_ok.mp hbegin
  split at hbegin
  · cases hbegin
  rename_i t ht
  obtain ⟨⟨columns, rowType⟩, hmark, hbegin⟩ := bind_eq_ok.mp hbegin
  obtain ⟨⟨⟩, hvalid, hbegin⟩ := bind_eq_ok.mp hbegin
  cases hbegin
  obtain ⟨opened, hopened, hrestrict⟩ := bind_eq_ok.mp hrestrict
  obtain ⟨⟨⟩, hvalidate, hrestrict⟩ := bind_eq_ok.mp hrestrict
  obtain ⟨-, hrestrict⟩ := guard_eq_ok.mp hrestrict
  cases hrestrict
  obtain rfl := editing_append hfresh hopened
  obtain rfl := editing_setSession hediting
  have htable : s.snapshot.table? relation = some t := (Option.filter_eq_some_iff.mp ht).1
  rw [hrelation] at hlive hdistinct
  have hfields : s.snapshot.columns relation = t.columns := by rw [Catalogue.columns, htable, Option.map_some, Option.getD_some]
  obtain ⟨relation', hresolve', hvalidate⟩ := bind_eq_ok.mp hvalidate
  cases hresolve.symm.trans hresolve'
  obtain ⟨-, hvalidate⟩ := guard_eq_ok.mp hvalidate
  obtain ⟨⟨⟩, hroles, -⟩ := bind_eq_ok.mp hvalidate
  have hpairs := markIdentifier_columns hmark
  have hidentifier : s.columns.any Column.identifier = columns.any Column.identifier := by
    rw [hcolumns, List.any_map]
    rfl
  refine ⟨t, ⟨by rw [hrelation]; exact htable, by rw [hrelation, hlive]; exact htable, ?_, ?_, ?_, ?_⟩⟩
  · rw [hcolumns, ← hpairs, List.map_map, List.map_map]
    rfl
  · intro c hc heditable
    rw [hcolumns] at hc
    obtain ⟨old, hold, rfl⟩ := List.mem_map.mp hc
    simp only [Bool.and_eq_true, List.contains_iff_mem] at heditable
    have hfield := validateColumns_spec hroles old.name heditable.2
    have hown : (old.name, old.dataType) ∈ t.columns := hpairs ▸ List.mem_map.mpr ⟨old, hold, rfl⟩
    rw [hfields] at hfield
    exact congrArg Prod.snd (List.inj_on_of_nodup_map (hdistinct t htable) hown hfield rfl)
  · intro hany
    rw [hidentifier] at hany
    rwa [hany, if_pos rfl] at hvalid
  · intro hany
    rw [hidentifier] at hany
    exact markIdentifier_spec hmark hany

section Rows

/-- `rowid` is no NULL and tells the rows apart, as does its text. -/
structure Identified (sql : Sql V) (rows : List (Row V)) : Prop where
  keyed : Keyed sql rows
  text : ∀ r ∈ rows, (sql.text (r.key sql)).isSome = true

/-- Rows whose `rowid` has the same text have the same `rowid`. -/
def Legible (sql : Sql V) (rows : List (Row V)) : Prop :=
  ∀ a ∈ rows, ∀ b ∈ rows, ∀ text, sql.text (a.key sql) = some text → sql.text (b.key sql) = some text →
    sql.compare (a.key sql) = sql.compare (b.key sql)

theorem identified_of_validated {rows : List (Row V)} (h : validateIdentifiers sql rows = .ok ()) : Identified sql rows := by
  refine ⟨keyed_of_validated h, ?_⟩
  rw [validateIdentifiers] at h
  split at h
  · rename_i hvalid
    exact fun r hr => List.all_eq_true.mp hvalid.1 r hr
  · cases h

theorem identified {columns : List Column} {t : Table V} (hsql : sql.Rowids)
    (hexplicit : columns.any Column.identifier = true → validateIdentifiers sql t.rows = .ok ())
    (himplicit : columns.any Column.identifier = false → ∀ c ∈ t.columns, eqIgnoreAsciiCase c.1 "rowid" = false) :
    Identified sql t.rows := by
  cases hany : columns.any Column.identifier with
  | true => exact identified_of_validated (hexplicit hany)
  | false =>
      refine ⟨keyed_of_columns hsql (himplicit hany), fun r hr => ?_⟩
      rw [key_of_columns hr (himplicit hany)]
      exact hsql.text r.rowid

theorem Identified.selected {rows : List (Row V)} (h : Identified sql rows) {a b : Row V} (ha : a ∈ rows) (hb : b ∈ rows) :
    sql.equal (a.key sql) (b.key sql) = true ↔ a = b := by
  rw [equal_iff]
  constructor
  · rintro ⟨-, -, hcompare⟩
    exact h.keyed a ha b hb hcompare
  · rintro rfl
    exact ⟨h.text a ha, h.text a ha, rfl⟩

omit [DecidableEq V] in
theorem readText_mem {row : Row V} {name : String} {v : V} (hdistinct : (row.cells.map fun c => asciiLower c.1).Nodup)
    (h : (name, v) ∈ row.cells) : readText sql row name = sql.text v := by
  rw [readText]
  cases hfind : row.cells.find? fun c => eqIgnoreAsciiCase c.1 name with
  | none =>
      have hnot := List.find?_eq_none.mp hfind _ h
      rw [eqIgnoreAsciiCase_refl] at hnot
      exact absurd rfl hnot
  | some found =>
      have hname := List.find?_some hfind
      have hsame := eqIgnoreAsciiCase_iff.mp hname
      have heq := List.inj_on_of_nodup_map hdistinct (List.mem_of_find?_eq_some hfind) h hsame
      rw [heq]
      rfl

omit [DecidableEq V] in
theorem overlay_text (columns : List Column) (changes : List Patch) (row : Row V) (name : String) :
    (overlay sql columns changes row).text name =
      (columns.find? fun c => eqIgnoreAsciiCase c.name name).bind fun c => patchedText sql changes row c.name := by
  rw [View.text, overlay, List.find?_map, Option.bind_map]
  rfl

omit [DecidableEq V] in
/-- Two rows of which the labels are the same, whatever the spelling of a column. -/
theorem overlay_label {columns : List Column} {changes changes' : List Patch} {old new : Row V}
    {codes codes' : Option (List Code)}
    (h : ∀ c ∈ columns, label codes (patchedText sql changes old c.name) = label codes' (patchedText sql changes' new c.name)) :
    (overlay sql columns changes old).label codes = (overlay sql columns changes' new).label codes' := by
  funext name
  rw [View.label, View.label, overlay_text, overlay_text]
  cases hfind : columns.find? fun c => eqIgnoreAsciiCase c.name name with
  | none =>
      ext v
      simp [label_eq_some]
  | some c => exact h c (List.mem_of_find?_eq_some hfind)

end Rows

section Patches

variable {codes : Option (List Code)} {changes accepted : List Patch}

/-- What a Save makes of a patch: its label is a code, and is trimmed. -/
theorem labelPatch_spec {patch patch' : Patch} (h : EditRequest.labelPatch codes patch = .ok patch') :
    patch'.rowRef = patch.rowRef ∧ patch'.column = patch.column ∧
      label codes patch'.value = label codes patch.value ∧
      ∀ v, patch'.value = some v → ∀ book, codes = some book → ∃ code ∈ book, code.code = v := by
  rw [EditRequest.labelPatch] at h
  cases hvalue : patch.value with
  | none =>
      rw [hvalue] at h
      cases h
      rw [hvalue]
      exact ⟨rfl, rfl, rfl, nofun⟩
  | some value =>
      rw [hvalue] at h
      obtain ⟨hvalid, h⟩ := guard_eq_ok.mp h
      cases h
      refine ⟨rfl, rfl, label_trim codes value, ?_⟩
      rintro v ⟨⟩ book rfl
      push Not at hvalid
      simpa using hvalid.2

theorem checkPatches_ok {columns : List Column} {cells : List (String × String)}
    (heditable : ∀ p ∈ changes, ∃ c ∈ columns, c.editable = true ∧ c.name = p.column)
    (hdistinct : (changes.map fun p => (p.rowRef, p.column)).Nodup)
    (hnew : ∀ p ∈ changes, (p.rowRef, p.column) ∉ cells) : checkPatches columns cells changes = .ok () := by
  induction changes generalizing cells with
  | nil => rfl
  | cons patch rest ih =>
      obtain ⟨c, hc, heditable', hname⟩ := heditable patch List.mem_cons_self
      obtain ⟨hfirst, hrest⟩ := List.nodup_cons.mp hdistinct
      have hany : (columns.any fun c => c.editable && c.name = patch.column) = true :=
        List.any_eq_true.mpr ⟨c, hc, by simp [heditable', hname]⟩
      rw [checkPatches, if_neg]
      · refine ih (fun p hp => heditable p (List.mem_cons_of_mem _ hp)) hrest fun p hp hin => ?_
        rcases List.mem_cons.mp hin with heq | hin
        · exact hfirst (List.mem_map.mpr ⟨p, hp, heq⟩)
        · exact hnew p (List.mem_cons_of_mem _ hp) hin
      · rw [hany]
        simpa using hnew patch List.mem_cons_self

omit [DecidableEq V] in
/-- Where the patch of a cell is found. -/
theorem patchedText_eq {row : Row V} {name : String} {p : Patch} (hp : p ∈ changes) (hcolumn : p.column = name)
    (href : sql.text (row.key sql) = some p.rowRef) (hdistinct : (changes.map fun p => (p.rowRef, p.column)).Nodup) :
    patchedText sql changes row name = p.value := by
  rw [patchedText]
  cases hfind : (changes.filter fun p => p.column = name).find? fun p => sql.text (row.key sql) = some p.rowRef with
  | none =>
      have hnot := List.find?_eq_none.mp hfind p (List.mem_filter.mpr ⟨hp, decide_eq_true hcolumn⟩)
      exact absurd (decide_eq_true href) hnot
  | some q =>
      have hfound := List.find?_some hfind
      have hqref := of_decide_eq_true hfound
      obtain ⟨hq, hqcolumn⟩ := List.mem_filter.mp (List.mem_of_find?_eq_some hfind)
      have hkey : (q.rowRef, q.column) = (p.rowRef, p.column) := by
        rw [Option.some_inj.mp (hqref.symm.trans href), of_decide_eq_true hqcolumn, hcolumn]
      rw [List.inj_on_of_nodup_map hdistinct hq hp hkey]

omit [DecidableEq V] in
theorem patchedText_none {row : Row V} {name : String}
    (h : ∀ p ∈ changes, sql.text (row.key sql) = some p.rowRef → p.column ≠ name) :
    patchedText sql changes row name = readText sql row name := by
  have hnone : ((changes.filter fun p => p.column = name).find? fun p => sql.text (row.key sql) = some p.rowRef) = none := by
    refine List.find?_eq_none.mpr fun p hp href => ?_
    obtain ⟨hp, hcolumn⟩ := List.mem_filter.mp hp
    exact h p hp (of_decide_eq_true href) (of_decide_eq_true hcolumn)
  rw [patchedText, hnone]

end Patches

section Saved

variable {s : Session V} {live : Catalogue V} {t changed : Table V} {codes : Option (List Code)}
variable {changes accepted : List Patch} {old new : Row V}

/-- The accepted patches are those that were made, trimmed. -/
def Accepted (codes : Option (List Code)) (changes accepted : List Patch) : Prop :=
  List.Forall₂ (fun p p' => p'.rowRef = p.rowRef ∧ p'.column = p.column ∧
    label codes p'.value = label codes p.value ∧
    ∀ v, p'.value = some v → ∀ book, codes = some book → ∃ code ∈ book, code.code = v) changes accepted

theorem Accepted.keys (h : Accepted codes changes accepted) :
    (accepted.map fun p => (p.rowRef, p.column)) = changes.map fun p => (p.rowRef, p.column) :=
  forall₂_map_eq h fun _ _ ⟨href, hcolumn, _⟩ => by rw [href, hcolumn]

/-- The label of a cell with its draft is the label of the saved cell. -/
theorem saved_label (htexts : Texts sql) (hready : Ready sql s live t) (hidentified : Identified sql t.rows)
    (hlegible : Legible sql t.rows) (hdistinct : (t.columns.map fun c => asciiLower c.1).Nodup)
    (haccepted : Accepted codes changes accepted) (hsaved : Saved sql s ⟨accepted, [], []⟩ t changed) (hold : old ∈ t.rows)
    (hnew : new ∈ changed.rows) (hreplaced : Replaced sql s accepted old new) {c : Column} (hc : c ∈ s.columns) :
    label codes (patchedText sql changes old c.name) = label codes (readText sql new c.name) := by
  have holdNames := t.shaped old hold
  have hnewNames := changed.shaped new hnew
  rw [hsaved.columns] at hnewNames
  have hcells : ∀ {row : Row V}, row.cells.map Prod.fst = t.columns.map Prod.fst →
      (row.cells.map fun c => asciiLower c.1).Nodup := by
    intro row hnames
    have hlower := congrArg (List.map asciiLower) hnames
    rw [List.map_map, List.map_map] at hlower
    exact hlower ▸ hdistinct
  have hin : c.name ∈ old.cells.map Prod.fst := by
    rw [holdNames, ← hready.names]
    exact List.mem_map_of_mem hc
  obtain ⟨⟨name, v⟩, hcell, rfl⟩ := List.mem_map.mp hin
  obtain ⟨⟨name, v'⟩, hcell', rfl, hcase⟩ := forall₂_mem_left hreplaced hcell
  rw [readText_mem (hcells hnewNames) hcell']
  rcases hcase with ⟨p', hp', hdenotes, hcolumn, column, heditable, hcast⟩ | ⟨hnone, hsame⟩
  · obtain ⟨p, hp, href, hsameColumn, hlabel, -⟩ := forall₂_mem_right haccepted hp'
    have htext : sql.text (old.key sql) = some p.rowRef := href ▸ denotes_text hdenotes
    rw [patchedText_eq hp (hsameColumn.symm.trans hcolumn) htext (haccepted.keys ▸ hsaved.cells), ← hlabel]
    congr 1
    obtain ⟨hmem, -, hedit⟩ := editableColumn_spec heditable
    rw [hready.varchar column hmem hedit] at hcast
    cases hvalue : p'.value with
    | none =>
        rw [hvalue] at hcast
        exact (htexts.null _ _ hcast).symm
    | some value =>
        rw [hvalue] at hcast
        exact (htexts.varchar _ _ hcast).symm
  · rw [patchedText_none, readText_mem (hcells holdNames) hcell]
    · exact congrArg (fun x => label codes (sql.text x)) hsame.symm
    · intro p hp htext hcolumn
      obtain ⟨p', hp', href, hsameColumn, -⟩ := forall₂_mem_left haccepted hp
      obtain ⟨row, hrow, hdenotes, -⟩ := hsaved.references p'.rowRef (.inr ⟨p', hp', rfl⟩)
      have hrowText : sql.text (row.key sql) = some p.rowRef := href ▸ denotes_text hdenotes
      -- The row of the draft is the row whose `rowid` has its text.
      obtain rfl := hidentified.keyed row hrow old hold (hlegible row hrow old hold _ hrowText htext)
      exact hnone p' hp' hdenotes (hsameColumn.trans hcolumn)

end Saved

section Codes

variable {s : Session V} {live : Catalogue V} {t changed : Table V} {codes : List Code} {used : List String}
variable {changes accepted : List Patch} {old new : Row V} {rows rows' : List (Option String × Option String)}

omit [DecidableEq V]

theorem readCodes_length (h : readCodes sql used rows = .ok codes) : ∀ code ∈ codes, code.code.length ≤ 200 := by
  induction rows generalizing used codes with
  | nil =>
      cases h
      exact List.forall_mem_nil _
  | cons row rows ih =>
      obtain ⟨code, description⟩ := row
      rw [readCodes] at h
      obtain ⟨hvalid, h⟩ := guard_eq_ok.mp h
      obtain ⟨-, h⟩ := guard_eq_ok.mp h
      obtain ⟨others, hothers, h⟩ := bind_eq_ok.mp h
      cases h
      push Not at hvalid
      exact List.forall_mem_cons.mpr ⟨hvalid.2.1, ih hothers⟩

/-- Codes are read alike where only descriptions differ, and those not by too much. -/
theorem readCodes_congr (h : readCodes sql used rows = .ok codes)
    (hrows : List.Forall₂ (fun a b => b.1 = a.1 ∧ (b.2 = a.2 ∨ (b.2.getD "").length ≤ 2000)) rows rows') :
    ∃ codes', readCodes sql used rows' = .ok codes' ∧ codes'.map Code.code = codes.map Code.code := by
  induction hrows generalizing used codes with
  | nil =>
      cases h
      exact ⟨[], rfl, rfl⟩
  | @cons a b rows rows' hrow _ ih =>
      obtain ⟨code, description⟩ := a
      obtain ⟨code', description'⟩ := b
      obtain ⟨rfl, hdescription⟩ := hrow
      rw [readCodes] at h
      obtain ⟨hvalid, h⟩ := guard_eq_ok.mp h
      obtain ⟨hfresh, h⟩ := guard_eq_ok.mp h
      obtain ⟨others, hothers, h⟩ := bind_eq_ok.mp h
      cases h
      obtain ⟨others', hothers', hcodes⟩ := ih hothers
      push Not at hvalid
      have hshort : (description'.getD "").length ≤ 2000 := by
        rcases hdescription with rfl | hshort
        · exact hvalid.2.2
        · exact hshort
      refine ⟨⟨Text.trim (code'.getD ""), description'.getD ""⟩ :: others', ?_, congrArg (List.cons _) hcodes⟩
      rw [readCodes]
      refine guard_eq_ok.mpr ⟨?_, guard_eq_ok.mpr ⟨hfresh, bind_eq_ok.mpr ⟨others', hothers', rfl⟩⟩⟩
      push Not
      exact ⟨hvalid.1, hvalid.2.1, hshort⟩

theorem resolve_set (live : Catalogue V) (relation : Relation) (changed : Table V) (target : ObjectTarget) :
    resolve (live.set relation changed) target = resolve live target := by
  obtain ⟨schema, name⟩ := target
  cases schema with
  | none => rfl
  | some schema =>
      have hsame : ((fun e : Relation × Table V => eqIgnoreAsciiCase e.1.schema schema && eqIgnoreAsciiCase e.1.name name) ∘
          fun e => if e.1 = relation then (relation, changed) else e) =
            fun e => eqIgnoreAsciiCase e.1.schema schema && eqIgnoreAsciiCase e.1.name name := by
        funext e
        by_cases he : e.1 = relation <;> simp [he]
      simp only [resolve, Catalogue.set, List.find?_map, hsame]
      cases live.tables.find? fun e => eqIgnoreAsciiCase e.1.schema schema && eqIgnoreAsciiCase e.1.name name with
      | none => rfl
      | some e => by_cases he : e.1 = relation <;> simp [he]

theorem cellText_mem {row : Row V} {name : String} {v : V} (hdistinct : (row.cells.map Prod.fst).Nodup)
    (h : (name, v) ∈ row.cells) : cellText sql row name = sql.text v := by
  rw [cellText]
  cases hfind : row.cells.find? fun c => c.1 = name with
  | none =>
      have hnot := List.find?_eq_none.mp hfind _ h
      exact absurd (decide_eq_true rfl) hnot
  | some found =>
      have hname := List.find?_some hfind
      have heq := List.inj_on_of_nodup_map hdistinct (List.mem_of_find?_eq_some hfind) h (of_decide_eq_true hname)
      rw [heq]
      rfl

end Codes

section Book

variable {s : Session V} {live : Catalogue V} {t changed : Table V} {codes : List Code} {book : Codebook}
variable {changes accepted : List Patch} {old new : Row V}

/-- The codes do not stand in a label column of the edited table. -/
def CodesApart (s : Session V) (live : Catalogue V) (book : Codebook) : Prop :=
  resolve live book.source = .ok s.relation → ∀ c ∈ s.columns, c.editable = true → c.name ≠ book.code

/-- What a Save does to the text of a cell. -/
theorem saved_cell (htexts : Texts sql) (hready : Ready sql s live t) (hdistinct : (t.columns.map Prod.fst).Nodup)
    (hsaved : Saved sql s ⟨accepted, [], []⟩ t changed) (hold : old ∈ t.rows) (hnew : new ∈ changed.rows)
    (hreplaced : Replaced sql s accepted old new) {name : String} (hname : name ∈ t.columns.map Prod.fst) :
    cellText sql new name = cellText sql old name ∨
      ∃ p ∈ accepted, cellText sql new name = p.value ∧ ∃ c ∈ s.columns, c.editable = true ∧ c.name = name := by
  have holdNames := t.shaped old hold
  have hnewNames := changed.shaped new hnew
  rw [hsaved.columns] at hnewNames
  rw [← holdNames] at hname
  obtain ⟨⟨name, v⟩, hcell, rfl⟩ := List.mem_map.mp hname
  obtain ⟨⟨_, v'⟩, hcell', rfl, hcase⟩ := forall₂_mem_left hreplaced hcell
  rw [cellText_mem (hnewNames ▸ hdistinct) hcell', cellText_mem (holdNames ▸ hdistinct) hcell]
  rcases hcase with ⟨p, hp, -, hcolumn, column, heditable, hcast⟩ | ⟨-, rfl⟩
  · obtain ⟨hmem, hsame, hedit⟩ := editableColumn_spec heditable
    refine .inr ⟨p, hp, ?_, column, hmem, hedit, hsame.trans hcolumn⟩
    rw [hready.varchar column hmem hedit] at hcast
    cases hvalue : p.value with
    | none =>
        rw [hvalue] at hcast
        exact htexts.null _ _ hcast
    | some value =>
        rw [hvalue] at hcast
        exact htexts.varchar _ _ hcast
  · exact .inl rfl

omit [DecidableEq V] in
/-- The codes are read from the rows of a table with the two columns. -/
theorem readCodebook_eq_ok : readCodebook sql live book = .ok codes ↔
    ∃ relation, resolve live book.source = .ok relation ∧ eqIgnoreAsciiCase book.code book.description = false ∧
      ([book.code, book.description].any fun name => !(live.columns relation).any fun f => f.1 = name ∧ f.2 = "VARCHAR") = false ∧
      ((((live.table? relation).map Table.rows).getD []).take 201).length ≤ 200 ∧
      readCodes sql [] (((((live.table? relation).map Table.rows).getD []).take 201).map fun r =>
        (cellText sql r book.code, cellText sql r book.description)) = .ok codes := by
  rw [readCodebook, bind_eq_ok]
  refine exists_congr fun relation => and_congr_right fun _ => ?_
  rw [guard_eq_ok, guard_eq_ok, not_or, not_lt, Bool.not_eq_true, Bool.not_eq_true, and_assoc]

theorem forall₂_members {α β : Type*} {R : α → β → Prop} {as : List α} {bs : List β} (h : List.Forall₂ R as bs) :
    List.Forall₂ (fun a b => a ∈ as ∧ b ∈ bs ∧ R a b) as bs := by
  induction h with
  | nil => exact .nil
  | cons hhead _ ih =>
      refine .cons ⟨List.mem_cons_self, List.mem_cons_self, hhead⟩ (ih.imp ?_)
      rintro a b ⟨ha, hb, hab⟩
      exact ⟨List.mem_cons_of_mem _ ha, List.mem_cons_of_mem _ hb, hab⟩

/-- The codes after a Save are those before. -/
theorem codes_kept (htexts : Texts sql) (hready : Ready sql s live t) (hdistinct : (t.columns.map Prod.fst).Nodup)
    (haccepted : Accepted (some codes) changes accepted) (hsaved : Saved sql s ⟨accepted, [], []⟩ t changed)
    (hrows : List.Forall₂ (Replaced sql s accepted) t.rows changed.rows) (hcodes : readCodebook sql live book = .ok codes)
    (hapart : CodesApart s live book) :
    ∃ codes', readCodebook sql (live.set s.relation changed) book = .ok codes' ∧
      codes'.map Code.code = codes.map Code.code := by
  obtain ⟨relation, hrelation, hdiffer, hfields, hlength, hread⟩ := readCodebook_eq_ok.mp hcodes
  by_cases hsame : relation = s.relation
  · subst hsame
    have hset := @Catalogue.table?_set_self _ live s.relation t changed hready.live
    rw [hready.live] at hlength hread
    simp only [Catalogue.columns, hready.live, Option.map_some, Option.getD_some] at hfields hlength hread
    have hnames : ∀ name ∈ [book.code, book.description], name ∈ t.columns.map Prod.fst := by
      intro name hname
      have hfield := List.any_eq_false.mp hfields name hname
      rw [Bool.not_eq_true, Bool.not_eq_false'] at hfield
      obtain ⟨f, hf, heq⟩ := List.any_eq_true.mp hfield
      exact List.mem_map.mpr ⟨f, hf, (of_decide_eq_true heq).1⟩
    have hpairs : List.Forall₂ (fun a b : Option String × Option String => b.1 = a.1 ∧ (b.2 = a.2 ∨ (b.2.getD "").length ≤ 2000))
        ((t.rows.take 201).map fun r => (cellText sql r book.code, cellText sql r book.description))
        ((changed.rows.take 201).map fun r => (cellText sql r book.code, cellText sql r book.description)) := by
      rw [List.forall₂_map_left_iff, List.forall₂_map_right_iff]
      refine (List.forall₂_take 201 (forall₂_members hrows)).imp ?_
      rintro old new ⟨hold, hnew, hreplaced⟩
      have hcell := fun name hname => saved_cell htexts hready hdistinct hsaved hold hnew hreplaced (hnames name hname)
      refine ⟨?_, ?_⟩
      · rcases hcell book.code (by simp) with heq | ⟨p, -, -, c, hc, hedit, hname⟩
        · exact heq
        · exact absurd hname (hapart hrelation c hc hedit)
      · refine (hcell book.description (by simp)).imp id ?_
        rintro ⟨p, hp, hvalue, -⟩
        simp only [hvalue]
        cases hlabel : p.value with
        | none => exact Nat.zero_le _
        | some v =>
            obtain ⟨patch, -, -, -, -, hcode⟩ := forall₂_mem_right haccepted hp
            obtain ⟨code, hcode, rfl⟩ := hcode v hlabel codes rfl
            exact (readCodes_length hread code hcode).trans (by decide)
    obtain ⟨codes', hcodes', hmap⟩ := readCodes_congr hread hpairs
    refine ⟨codes', readCodebook_eq_ok.mpr ⟨s.relation, ?_, hdiffer, ?_, ?_, ?_⟩, hmap⟩
    · rw [resolve_set]
      exact hrelation
    · simpa only [Catalogue.columns, hset, Option.map_some, Option.getD_some, hsaved.columns] using hfields
    · rw [hset, Option.map_some, Option.getD_some, List.length_take, ← hrows.length_eq, ← List.length_take]
      exact hlength
    · rw [hset, Option.map_some, Option.getD_some]
      exact hcodes'
  · refine ⟨codes, readCodebook_eq_ok.mpr ⟨relation, ?_, hdiffer, ?_, ?_, ?_⟩, rfl⟩
    · rw [resolve_set]
      exact hrelation
    all_goals simpa only [Catalogue.columns, Catalogue.table?_set_of_ne hsame]

end Book

end Wordflow.Review
