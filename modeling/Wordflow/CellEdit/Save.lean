import Wordflow.CellEdit.Editor

namespace Wordflow.CellEdit

open Library Library.Fallible Library.Identifier Objects Tables Annotation

variable {V : Type} [DecidableEq V] {sql : Sql V}

/-- Whether a row reference names a row. -/
def denotes (sql : Sql V) (rowType rowRef : String) (row : Row V) : Bool :=
  match sql.cast rowType (some rowRef) with
  | .ok key => denotesKey sql rowRef key row
  | .error _ => false

/-- `rowid` tells the rows apart. -/
def Keyed (sql : Sql V) (rows : List (Row V)) : Prop :=
  ∀ a ∈ rows, ∀ b ∈ rows, sql.compare (a.key sql) = sql.compare (b.key sql) → a = b

theorem equal_iff {a b : V} : sql.equal a b = true ↔
    (sql.text a).isSome = true ∧ (sql.text b).isSome = true ∧ sql.compare a = sql.compare b := by
  simp [Sql.equal, and_assoc]

theorem denotesKey_iff {rowRef : String} {key : V} {row : Row V} : denotesKey sql rowRef key row = true ↔
    matched sql key row = true ∧ sql.text (row.key sql) = some rowRef := by
  simp [denotesKey, matched]

theorem denotes_text {rowType rowRef : String} {row : Row V} (h : denotes sql rowType rowRef row = true) :
    sql.text (row.key sql) = some rowRef := by
  simp only [denotes] at h
  split at h
  · exact (denotesKey_iff.mp h).2
  · cases h

theorem cast_of_denotes {rowType rowRef : String} {row : Row V} (h : denotes sql rowType rowRef row = true) :
    ∃ key, sql.cast rowType (some rowRef) = .ok key := by
  simp only [denotes] at h
  split at h
  · exact ⟨_, ‹_›⟩
  · cases h

/-- Two references that name one row are the same text. -/
theorem denotes_unique {rowType a b : String} {row : Row V} (ha : denotes sql rowType a row = true)
    (hb : denotes sql rowType b row = true) : a = b :=
  Option.some.inj ((denotes_text ha).symm.trans (denotes_text hb))

theorem denotes_of_key {rowType rowRef : String} {key : V} {row : Row V}
    (hkey : sql.cast rowType (some rowRef) = .ok key) :
    denotes sql rowType rowRef row = denotesKey sql rowRef key row := by
  simp only [denotes, hkey]

theorem matched_of_denotes {rowType rowRef : String} {key : V} {row : Row V}
    (hkey : sql.cast rowType (some rowRef) = .ok key) (h : denotes sql rowType rowRef row = true) :
    matched sql key row = true :=
  (denotesKey_iff.mp (denotes_of_key hkey ▸ h)).1

theorem Keyed.eq_of_matched {rows : List (Row V)} {key : V} {a b : Row V} (h : Keyed sql rows) (ha : a ∈ rows)
    (hb : b ∈ rows) (hma : matched sql key a = true) (hmb : matched sql key b = true) : a = b :=
  h a ha b hb ((equal_iff.mp hma).2.2.trans (equal_iff.mp hmb).2.2.symm)

/-- Among rows that `rowid` tells apart, the statement of a reference reaches
the row the reference names and no other. -/
theorem matched_eq_denotes {rows : List (Row V)} {rowType rowRef : String} {key : V} {row named : Row V}
    (h : Keyed sql rows) (hkey : sql.cast rowType (some rowRef) = .ok key) (hrow : row ∈ rows)
    (hnamed : named ∈ rows) (hd : denotes sql rowType rowRef named = true) :
    matched sql key row = denotes sql rowType rowRef row := by
  rw [Bool.eq_iff_iff]
  constructor
  · intro hm
    obtain rfl := h.eq_of_matched hrow hnamed hm (matched_of_denotes hkey hd)
    exact hd
  · exact matched_of_denotes hkey

theorem checkReference_spec {session : Session V} {rowRef : String} {t : Table V}
    (ht : session.snapshot.table? session.relation = some t) (h : checkReference sql session rowRef = .ok ()) :
    ∃ row ∈ t.rows, denotes sql session.rowType rowRef row = true := by
  obtain ⟨key, hkey, h⟩ := bind_eq_ok.mp h
  simp only [ht, Option.map_some, Option.getD_some] at h
  split at h
  · rename_i hany
    obtain ⟨row, hrow, hd⟩ := List.any_eq_true.mp hany
    exact ⟨row, hrow, (denotes_of_key hkey).trans hd⟩
  · cases h

theorem deleteRow_spec {session : Session V} {t changed : Table V} {rowRef : String}
    (h : deleteRow sql session t rowRef = .ok changed) :
    ∃ key, sql.cast session.rowType (some rowRef) = .ok key ∧ changed = t.delete (matched sql key) := by
  obtain ⟨key, hkey, h⟩ := bind_eq_ok.mp h
  obtain ⟨-, -, h⟩ := bind_eq_ok.mp h
  obtain ⟨-, h⟩ := guard_eq_ok.mp h
  exact ⟨key, hkey, (Except.ok.inj h).symm⟩

theorem deletions_spec {session : Session V} {t changed : Table V} {deletions : List (String × Unit)}
    (hkeyed : Keyed sql t.rows)
    (hnamed : ∀ d ∈ deletions, ∃ row ∈ t.rows, denotes sql session.rowType d.1 row = true)
    (h : deletions.foldlM (fun t d => deleteRow sql session t d.1) t = .ok changed) :
    changed.columns = t.columns ∧
      changed.rows = t.rows.filter fun r => deletions.all fun d => !denotes sql session.rowType d.1 r := by
  refine foldlM_relates (fun before changed => changed.columns = t.columns ∧
    changed.rows = t.rows.filter fun r => before.all fun d => !denotes sql session.rowType d.1 r) h
    ⟨rfl, by simp⟩ ?_
  rintro before d s s' hd ⟨hcolumns, hrows⟩ hdelete
  obtain ⟨key, hkey, rfl⟩ := deleteRow_spec hdelete
  obtain ⟨named, hnamedMem, hnamedRef⟩ := hnamed d hd
  refine ⟨hcolumns, ?_⟩
  simp only [Table.delete, hrows, List.filter_filter]
  apply List.filter_congr
  intro r hr
  rw [matched_eq_denotes hkeyed hkey hr hnamedMem hnamedRef]
  simp [Bool.and_comm]

theorem index_unique {α : Type*} {p : α → Bool} {items : List α} (hone : (items.filter p).length = 1)
    {i j : Nat} {a b : α} (ha : items[i]? = some a) (hb : items[j]? = some b) (hpa : p a = true) (hpb : p b = true) :
    i = j := by
  induction items generalizing i j with
  | nil => simp at ha
  | cons first rest ih =>
      have hrest : ∀ {k : Nat} {c}, rest[k]? = some c → p c = true → 0 < (rest.filter p).length := fun hk hc =>
        List.length_pos_of_mem (List.mem_filter.mpr ⟨List.mem_of_getElem? hk, hc⟩)
      rcases i with - | i <;> rcases j with - | j
      · rfl
      · rw [List.getElem?_cons_zero, Option.some_inj] at ha
        rw [List.getElem?_cons_succ] at hb
        have hpos := hrest hb hpb
        rw [ha, List.filter_cons_of_pos hpa, List.length_cons] at hone
        omega
      · rw [List.getElem?_cons_zero, Option.some_inj] at hb
        rw [List.getElem?_cons_succ] at ha
        have hpos := hrest ha hpa
        rw [hb, List.filter_cons_of_pos hpb, List.length_cons] at hone
        omega
      · rw [List.getElem?_cons_succ] at ha hb
        have hpos := hrest ha hpa
        by_cases hfirst : p first = true
        · rw [List.filter_cons_of_pos hfirst, List.length_cons] at hone
          omega
        · rw [List.filter_cons_of_neg hfirst] at hone
          rw [ih hone ha hb]

/-- The cells a patched row has. -/
def Updated (sql : Sql V) (cells : List (String × (String × Option String))) (base row : Row V) : Prop :=
  ∃ values, castCells sql cells = .ok values ∧ row.cells = base.cells.map fun c => (c.1, assign values c)

abbrev RowChange := String × List (String × (String × Option String))

/-- Where each row stands after some of the updates: untouched, or changed once
by the update that names it. -/
def Tracks (sql : Sql V) (rowType : String) (base : List (Row V)) (before : List RowChange)
    (rows : List (Row V)) : Prop :=
  rows.length = base.length ∧ ∀ (i : Nat) b, base[i]? = some b → ∃ r, rows[i]? = some r ∧
    ((r = b ∧ ∀ e ∈ before, denotes sql rowType e.1 b = false) ∨
      ∃ e ∈ before, denotes sql rowType e.1 b = true ∧ Updated sql e.2 b r)

theorem updateCells_spec {session : Session V} {t changed : Table V} {row : RowChange}
    (h : updateCells sql session t row = .ok changed) :
    ∃ values key, castCells sql row.2 = .ok values ∧ sql.cast session.rowType (some row.1) = .ok key ∧
      (t.rows.filter (matched sql key)).length = 1 ∧
      ∃ moves, changed = t.update (matched sql key) (assign values) moves := by
  obtain ⟨values, hvalues, h⟩ := bind_eq_ok.mp h
  obtain ⟨key, hkey, h⟩ := bind_eq_ok.mp h
  obtain ⟨-, -, h⟩ := bind_eq_ok.mp h
  obtain ⟨hone, h⟩ := guard_eq_ok.mp h
  exact ⟨values, key, hvalues, hkey, not_not.mp hone, _, (Except.ok.inj h).symm⟩

theorem tracks_update {session : Session V} {base : List (Row V)} {before : List RowChange} {t changed : Table V}
    {change : RowChange} (htracks : Tracks sql session.rowType base before t.rows)
    (hnew : ∀ e ∈ before, e.1 ≠ change.1)
    (hnamed : ∃ row ∈ base, denotes sql session.rowType change.1 row = true)
    (h : updateCells sql session t change = .ok changed) :
    Tracks sql session.rowType base (before ++ [change]) changed.rows := by
  obtain ⟨values, key, hvalues, hkey, hone, moves, rfl⟩ := updateCells_spec h
  obtain ⟨hlength, hrows⟩ := htracks
  -- A row that this reference names has not been changed by an earlier one.
  have huntouched : ∀ {i : Nat} {b}, base[i]? = some b → denotes sql session.rowType change.1 b = true → t.rows[i]? = some b := by
    intro i b hb hd
    obtain ⟨r, hr, ⟨rfl, -⟩ | ⟨e, he, hde, -⟩⟩ := hrows i b hb
    · exact hr
    · exact absurd (denotes_unique hde hd) (hnew e he)
  obtain ⟨named, hnamedMem, hnamedRef⟩ := hnamed
  obtain ⟨j, hj⟩ := List.getElem?_of_mem hnamedMem
  have hnamedMatched := matched_of_denotes hkey hnamedRef
  refine ⟨by simp [Table.update, hlength], fun i b hb => ?_⟩
  obtain ⟨r, hr, hstate⟩ := hrows i b hb
  refine ⟨Table.updateRow t.next (matched sql key) (assign values) moves r, by simp [Table.update, hr], ?_⟩
  cases hd : denotes sql session.rowType change.1 b with
  | true =>
      obtain rfl : b = r := Option.some.inj ((huntouched hb hd).symm.trans hr)
      refine .inr ⟨change, by simp, hd, values, hvalues, ?_⟩
      rw [Table.updateRow, if_pos (matched_of_denotes hkey hd)]
  | false =>
      have hunmatched : matched sql key r = false := by
        rw [← Bool.not_eq_true]
        intro hm
        obtain rfl := index_unique hone hr (huntouched hj hnamedRef) hm hnamedMatched
        obtain rfl : b = named := Option.some.inj (hb.symm.trans hj)
        simp [hd] at hnamedRef
      rw [Table.updateRow, if_neg (by simp [hunmatched])]
      rcases hstate with ⟨rfl, hnone⟩ | ⟨e, he, hde, hupdated⟩
      · refine .inl ⟨rfl, ?_⟩
        intro e he
        rcases List.mem_append.mp he with he | he
        · exact hnone e he
        · rw [List.mem_singleton.mp he]
          exact hd
      · exact .inr ⟨e, List.mem_append_left _ he, hde, hupdated⟩

theorem updates_spec {session : Session V} {t changed : Table V} {changes : List RowChange}
    (hsorted : OrderedMap.Sorted changes)
    (hnamed : ∀ e ∈ changes, ∃ row ∈ t.rows, denotes sql session.rowType e.1 row = true)
    (h : changes.foldlM (updateCells sql session) t = .ok changed) :
    changed.columns = t.columns ∧ Tracks sql session.rowType t.rows changes changed.rows := by
  have hstart : Tracks sql session.rowType t.rows [] t.rows :=
    ⟨rfl, fun i b hb => ⟨b, hb, .inl ⟨rfl, by simp⟩⟩⟩
  suffices ∀ before rest s, changes = before ++ rest → s.columns = t.columns →
      Tracks sql session.rowType t.rows before s.rows → rest.foldlM (updateCells sql session) s = .ok changed →
      changed.columns = t.columns ∧ Tracks sql session.rowType t.rows changes changed.rows from
    this [] changes t rfl rfl hstart h
  intro before rest
  induction rest generalizing before with
  | nil =>
      rintro s hsplit hcolumns htracks hdone
      cases hdone
      rw [hsplit, List.append_nil]
      exact ⟨hcolumns, htracks⟩
  | cons change rest ih =>
      intro s hsplit hcolumns htracks hfold
      rw [List.foldlM_cons] at hfold
      obtain ⟨next, hnext, hrest⟩ := bind_eq_ok.mp hfold
      have hnew : ∀ e ∈ before, e.1 ≠ change.1 := by
        intro e he
        have hpair := hsplit ▸ hsorted
        exact ((List.pairwise_append.mp hpair).2.2 e he change List.mem_cons_self).ne
      have hstep := tracks_update htracks hnew (hnamed change (hsplit ▸ by simp)) hnext
      refine ih (before ++ [change]) next (by simp [hsplit]) ?_ hstep hrest
      obtain ⟨values, key, -, -, -, moves, rfl⟩ := updateCells_spec hnext
      exact hcolumns

/-- The cells of a row that an insertion writes. -/
def Inserted (sql : Sql V) (relation : Relation) (columns : List (String × String))
    (cells : List (String × String × Option String)) (row : Row V) : Prop :=
  ∃ values, castCells sql cells = .ok values ∧
    List.Forall₂ (fun column cell => insertCell sql relation values column = .ok cell) columns row.cells

omit [DecidableEq V] in
theorem insertRow_spec {session : Session V} {t changed : Table V} {cells : List (String × String × Option String)}
    (h : insertRow sql session t cells = .ok changed) :
    changed.columns = t.columns ∧ ∃ row, changed.rows = t.rows ++ [row] ∧
      Inserted sql session.relation t.columns cells row := by
  obtain ⟨values, hvalues, h⟩ := bind_eq_ok.mp h
  obtain ⟨row, hrow, h⟩ := bind_eq_ok.mp h
  split at h
  · obtain ⟨-, -, h⟩ := bind_eq_ok.mp h
    cases h
    exact ⟨rfl, ⟨t.next, row⟩, rfl, values, hvalues, mapM_eq_ok.mp hrow⟩
  · cases h

omit [DecidableEq V] in
theorem insertions_spec {session : Session V} {t changed : Table V}
    {insertions : List (List (String × String × Option String))}
    (h : insertions.foldlM (insertRow sql session) t = .ok changed) :
    changed.columns = t.columns ∧ ∃ rows, changed.rows = t.rows ++ rows ∧
      List.Forall₂ (Inserted sql session.relation t.columns) insertions rows := by
  refine foldlM_relates (fun before changed => changed.columns = t.columns ∧ ∃ rows,
    changed.rows = t.rows ++ rows ∧ List.Forall₂ (Inserted sql session.relation t.columns) before rows) h
    ⟨rfl, [], by simp, .nil⟩ ?_
  rintro before cells s s' - ⟨hcolumns, rows, hrows, hall⟩ hinsert
  obtain ⟨hsame, row, hrow, hinserted⟩ := insertRow_spec hinsert
  refine ⟨hsame.trans hcolumns, rows ++ [row], by rw [hrow, hrows, List.append_assoc], ?_⟩
  rw [hcolumns] at hinserted
  exact List.rel_append hall (.cons hinserted .nil)

theorem collectDeletions_spec {input : List String} {deletions : List (String × Unit)}
    (h : input.foldlM collectDeletion [] = .ok deletions) :
    OrderedMap.Sorted deletions ∧ (∀ d, d ∈ deletions ↔ d.1 ∈ input) ∧ input.Nodup := by
  refine foldlM_relates (fun before deletions => OrderedMap.Sorted deletions ∧
    (∀ d : String × Unit, d ∈ deletions ↔ d.1 ∈ before) ∧ before.Nodup) h
    ⟨List.Pairwise.nil, by simp, List.nodup_nil⟩ ?_
  rintro before rowRef s s' - ⟨hsorted, hmem, hnodup⟩ hcollect
  obtain ⟨hnew, hcollect⟩ := guard_eq_ok.mp hcollect
  cases hcollect
  have hfresh : rowRef ∉ before := by
    intro hin
    exact hnew (by rw [(OrderedMap.get?_eq_some hsorted).mpr ((hmem (rowRef, ())).mpr hin)]; rfl)
  refine ⟨OrderedMap.sorted_insert hsorted, fun d => ?_, ?_⟩
  · rw [OrderedMap.mem_insert hsorted, hmem, List.mem_append, List.mem_singleton, Prod.ext_iff]
    constructor
    · rintro (⟨hd, -⟩ | ⟨hd, -⟩)
      · exact .inr hd
      · exact .inl hd
    · rintro (hd | hd)
      · exact .inr ⟨hd, fun heq => hfresh (heq ▸ hd)⟩
      · exact .inl ⟨hd, rfl⟩
  · rw [List.nodup_append]
    refine ⟨hnodup, List.nodup_singleton _, ?_⟩
    rintro a ha b hb rfl
    exact hfresh (List.mem_singleton.mp hb ▸ ha)

theorem editableColumn_spec {columns : List Column} {name : String} {column : Column}
    (h : editableColumn columns name = .ok column) : column ∈ columns ∧ column.name = name ∧ column.editable = true := by
  simp only [editableColumn] at h
  split at h
  · rename_i found hfind
    cases h
    have hfound := List.find?_some hfind
    simp only [Bool.and_eq_true, decide_eq_true_eq] at hfound
    exact ⟨List.mem_of_find?_eq_some hfind, hfound⟩
  · cases h

/-- What the collected rows say about the patches read so far. -/
structure Collected (columns : List Column) (deletions : List (String × Unit)) (changes : List Patch)
    (rows : List RowChange) : Prop where
  sorted : OrderedMap.Sorted rows
  cells : ∀ row ∈ rows, OrderedMap.Sorted row.2
  named : ∀ row ∈ rows, ∃ p ∈ changes, p.rowRef = row.1
  sound : ∀ row ∈ rows, ∀ cell ∈ row.2, ∃ p ∈ changes, p.rowRef = row.1 ∧ p.column = cell.1 ∧
    p.value = cell.2.2 ∧ ∃ column, editableColumn columns p.column = .ok column ∧ column.dataType = cell.2.1
  complete : ∀ p ∈ changes, ∃ row ∈ rows, row.1 = p.rowRef ∧ ∃ cell ∈ row.2, cell.1 = p.column
  kept : ∀ p ∈ changes, OrderedMap.get? deletions p.rowRef = none
  once : (changes.map fun p => (p.rowRef, p.column)).Nodup

theorem collectPatch_spec {columns : List Column} {deletions : List (String × Unit)} {rows rows' : List RowChange}
    {patch : Patch} (h : collectPatch columns deletions rows patch = .ok rows') :
    ∃ column, editableColumn columns patch.column = .ok column ∧ OrderedMap.get? deletions patch.rowRef = none ∧
      OrderedMap.get? ((OrderedMap.get? rows patch.rowRef).getD []) column.name = none ∧
      rows' = OrderedMap.insert rows patch.rowRef (OrderedMap.insert ((OrderedMap.get? rows patch.rowRef).getD [])
        column.name (column.dataType, patch.value)) := by
  obtain ⟨column, hcolumn, h⟩ := bind_eq_ok.mp h
  obtain ⟨hkept, h⟩ := guard_eq_ok.mp h
  obtain ⟨hfresh, h⟩ := guard_eq_ok.mp h
  refine ⟨column, hcolumn, ?_, ?_, (Except.ok.inj h).symm⟩
  · simpa using hkept
  · simpa using hfresh

theorem getD_get? {rows : List RowChange} (hsorted : OrderedMap.Sorted rows) (rowRef : String) :
    (∀ row ∈ rows, row.1 = rowRef → row.2 = (OrderedMap.get? rows rowRef).getD []) ∧
      ((OrderedMap.get? rows rowRef).getD [] = [] ∨ (rowRef, (OrderedMap.get? rows rowRef).getD []) ∈ rows) := by
  constructor
  · rintro ⟨_, cells⟩ hrow rfl
    rw [(OrderedMap.get?_eq_some hsorted).mpr hrow]
    rfl
  · cases hget : OrderedMap.get? rows rowRef with
    | none => exact .inl rfl
    | some cells => exact .inr ((OrderedMap.get?_eq_some hsorted).mp hget)

theorem Collected.step {columns : List Column} {deletions : List (String × Unit)} {changes : List Patch}
    {rows rows' : List RowChange} {patch : Patch} (hc : Collected columns deletions changes rows)
    (h : collectPatch columns deletions rows patch = .ok rows') :
    Collected columns deletions (changes ++ [patch]) rows' := by
  obtain ⟨column, hcolumn, hkept, hfresh, rfl⟩ := collectPatch_spec h
  have hname := (editableColumn_spec hcolumn).2.1
  obtain ⟨hsame, hcells⟩ := getD_get? hc.sorted patch.rowRef
  set cells := (OrderedMap.get? rows patch.rowRef).getD []
  have hsortedCells : OrderedMap.Sorted cells := by
    rcases hcells with hnil | hmem
    · rw [hnil]
      exact List.Pairwise.nil
    · exact hc.cells _ hmem
  have hold : ∀ cell ∈ cells, (patch.rowRef, cells) ∈ rows := by
    intro cell hcell
    rcases hcells with hnil | hmem
    · simp [hnil] at hcell
    · exact hmem
  refine ⟨OrderedMap.sorted_insert hc.sorted, ?_, ?_, ?_, ?_, ?_, ?_⟩
  · intro row hrow
    rcases (OrderedMap.mem_insert hc.sorted).mp hrow with rfl | ⟨hrow, -⟩
    · exact OrderedMap.sorted_insert hsortedCells
    · exact hc.cells row hrow
  · intro row hrow
    rcases (OrderedMap.mem_insert hc.sorted).mp hrow with rfl | ⟨hrow, -⟩
    · exact ⟨patch, by simp, rfl⟩
    · obtain ⟨p, hp, href⟩ := hc.named row hrow
      exact ⟨p, List.mem_append_left _ hp, href⟩
  · intro row hrow cell hcell
    rcases (OrderedMap.mem_insert hc.sorted).mp hrow with rfl | ⟨hrow, -⟩
    · rcases (OrderedMap.mem_insert hsortedCells).mp hcell with rfl | ⟨hcell, -⟩
      · exact ⟨patch, by simp, rfl, hname.symm, rfl, column, hcolumn, rfl⟩
      · obtain ⟨p, hp, hrest⟩ := hc.sound _ (hold cell hcell) cell hcell
        exact ⟨p, List.mem_append_left _ hp, hrest⟩
    · obtain ⟨p, hp, hrest⟩ := hc.sound row hrow cell hcell
      exact ⟨p, List.mem_append_left _ hp, hrest⟩
  · intro p hp
    rcases List.mem_append.mp hp with hp | hp
    · obtain ⟨row, hrow, hrowRef, cell, hcell, hcellName⟩ := hc.complete p hp
      by_cases href : row.1 = patch.rowRef
      · refine ⟨_, (OrderedMap.mem_insert hc.sorted).mpr (.inl rfl), href.symm.trans hrowRef, ?_⟩
        rw [hsame row hrow href] at hcell
        by_cases hcol : cell.1 = column.name
        · exact ⟨_, (OrderedMap.mem_insert hsortedCells).mpr (.inl rfl), hcol.symm.trans hcellName⟩
        · exact ⟨cell, (OrderedMap.mem_insert hsortedCells).mpr (.inr ⟨hcell, hcol⟩), hcellName⟩
      · exact ⟨row, (OrderedMap.mem_insert hc.sorted).mpr (.inr ⟨hrow, href⟩), hrowRef, cell, hcell, hcellName⟩
    · obtain rfl := List.mem_singleton.mp hp
      exact ⟨_, (OrderedMap.mem_insert hc.sorted).mpr (.inl rfl), rfl, _,
        (OrderedMap.mem_insert hsortedCells).mpr (.inl rfl), hname⟩
  · exact List.forall_mem_append.mpr ⟨hc.kept, List.forall_mem_singleton.mpr hkept⟩
  · rw [List.map_append, List.map_singleton, List.nodup_append]
    refine ⟨hc.once, List.nodup_singleton _, ?_⟩
    rintro a ha b hb rfl
    obtain ⟨p, hp, hpe⟩ := List.mem_map.mp ha
    obtain ⟨hrowRef, hcol⟩ := Prod.mk.inj (hpe.trans (List.mem_singleton.mp hb))
    obtain ⟨row, hrow, href, cell, hcell, hcellName⟩ := hc.complete p hp
    rw [hsame row hrow (href.trans hrowRef)] at hcell
    have hpresent := (OrderedMap.get?_eq_some hsortedCells).mpr (show (column.name, cell.2) ∈ cells from by
      rw [hname, ← hcol, ← hcellName]
      exact hcell)
    rw [hfresh] at hpresent
    cases hpresent

theorem collectPatches_spec {columns : List Column} {deletions : List (String × Unit)} {changes : List Patch}
    {rows : List RowChange} (h : changes.foldlM (collectPatch columns deletions) [] = .ok rows) :
    Collected columns deletions changes rows :=
  foldlM_relates (Collected columns deletions) h
    ⟨List.Pairwise.nil, by simp, by simp, by simp, by simp, by simp, List.nodup_nil⟩ fun _ hc hstep => hc.step hstep

/-- Every cell of a kept row: patched exactly where a patch names it. -/
def Replaced (sql : Sql V) (session : Session V) (changes : List Patch) (old new : Row V) : Prop :=
  List.Forall₂ (fun c c' => c'.1 = c.1 ∧
    ((∃ p ∈ changes, denotes sql session.rowType p.rowRef old = true ∧ p.column = c.1 ∧
        ∃ column, editableColumn session.columns p.column = .ok column ∧
          sql.cast column.dataType p.value = .ok c'.2) ∨
      ((∀ p ∈ changes, denotes sql session.rowType p.rowRef old = true → p.column ≠ c.1) ∧ c'.2 = c.2)))
    old.cells new.cells

/-- Every cell of an inserted row: the given value, or the column's default. -/
def InsertedBy (sql : Sql V) (session : Session V) (columns : List (String × String)) (insertion : Insertion)
    (new : Row V) : Prop :=
  List.Forall₂ (fun column cell => cell.1 = column.1 ∧
    ((∃ value, insertionValue insertion column.1 = some value ∧ ∃ c ∈ session.columns, c.name = column.1 ∧
        sql.cast c.dataType value = .ok cell.2) ∨
      (insertionValue insertion column.1 = none ∧ sql.default session.relation column.1 = .ok cell.2)))
    columns new.cells

/-- `after` is `before` with exactly the accepted edits. -/
structure Saved (sql : Sql V) (session : Session V) (input : Save) (before after : Table V) : Prop where
  columns : after.columns = before.columns
  references : ∀ rowRef, rowRef ∈ input.deletions ∨ (∃ p ∈ input.changes, p.rowRef = rowRef) →
    ∃ row ∈ before.rows, denotes sql session.rowType rowRef row = true ∧
      ∀ other ∈ before.rows, denotes sql session.rowType rowRef other = true → other = row
  deletions : input.deletions.Nodup
  cells : (input.changes.map fun p => (p.rowRef, p.column)).Nodup
  disjoint : ∀ p ∈ input.changes, p.rowRef ∉ input.deletions
  rows : ∃ kept inserted, after.rows = kept ++ inserted ∧
    List.Forall₂ (Replaced sql session input.changes)
      (before.rows.filter fun r => input.deletions.all fun d => !denotes sql session.rowType d r) kept ∧
    List.Forall₂ (InsertedBy sql session before.columns) input.insertions inserted

omit [DecidableEq V] in
theorem castCells_find {cells : List (String × (String × Option String))} {values : List (String × V)}
    (h : castCells sql cells = .ok values) (name : String) :
    (∃ v, values.find? (fun v => v.1 = name) = some (name, v) ∧
        ∃ c ∈ cells, c.1 = name ∧ sql.cast c.2.1 c.2.2 = .ok v) ∨
      (values.find? (fun v => v.1 = name) = none ∧ ∀ c ∈ cells, c.1 ≠ name) := by
  have hall := mapM_eq_ok.mp h
  clear h
  induction hall with
  | nil => exact .inr ⟨rfl, by simp⟩
  | @cons c v cells values hc _ ih =>
      obtain ⟨w, hw, rfl⟩ := map_eq_ok.mp hc
      by_cases hname : c.1 = name
      · exact .inl ⟨w, by simp [hname], c, List.mem_cons_self, hname, hw⟩
      · rcases ih with ⟨w, hfind, d, hd, hrest⟩ | ⟨hfind, hnone⟩
        · exact .inl ⟨w, by simpa [hname] using hfind, d, List.mem_cons_of_mem _ hd, hrest⟩
        · exact .inr ⟨by simpa [hname] using hfind, List.forall_mem_cons.mpr ⟨hname, hnone⟩⟩

theorem replaced_of_tracked {session : Session V} {deletions : List (String × Unit)} {changes : List Patch}
    {plan : List RowChange} {old new : Row V} (hc : Collected session.columns deletions changes plan)
    (h : (new = old ∧ ∀ e ∈ plan, denotes sql session.rowType e.1 old = false) ∨
      ∃ e ∈ plan, denotes sql session.rowType e.1 old = true ∧ Updated sql e.2 old new) :
    Replaced sql session changes old new := by
  rcases h with ⟨rfl, hnone⟩ | ⟨e, he, hde, values, hvalues, hcells⟩
  · apply List.forall₂_same.mpr
    refine fun c _ => ⟨rfl, .inr ⟨fun p hp hd _ => ?_, rfl⟩⟩
    obtain ⟨row, hrow, href, -⟩ := hc.complete p hp
    have hfalse := hnone row hrow
    rw [href, hd] at hfalse
    cases hfalse
  · rw [Replaced, hcells, List.forall₂_map_right_iff]
    apply List.forall₂_same.mpr
    refine fun c _ => ⟨rfl, ?_⟩
    rcases castCells_find hvalues c.1 with ⟨v, hfind, cell, hcell, hname, hcast⟩ | ⟨hfind, hnone⟩
    · left
      obtain ⟨p, hp, href, hcol, hvalue, column, hcolumn, htype⟩ := hc.sound e he cell hcell
      refine ⟨p, hp, href ▸ hde, hcol.trans hname, column, hcolumn, ?_⟩
      simp only [assign, hfind, Option.map_some, Option.getD_some, hvalue, htype, hcast]
    · right
      refine ⟨fun p hp hd hcol => ?_, by simp [assign, hfind]⟩
      obtain ⟨row, hrow, href, cell, hcell, hname⟩ := hc.complete p hp
      have hkey : row.1 = e.1 := href.trans (denotes_unique hd hde)
      obtain rfl := hc.sorted.eq_of_key hrow he hkey
      exact hnone cell hcell (hname.trans hcol)

omit [DecidableEq V] in
theorem collectInsertion_spec {columns : List Column} {insertion : Insertion}
    {cells : List (String × String × Option String)} (h : collectInsertion columns insertion = .ok cells) :
    List.Forall₂ (fun v c => collectCell columns v = .ok c) insertion.values cells := by
  simp only [collectInsertion] at h
  split at h
  · exact mapM_eq_ok.mp (guard_eq_ok.mp h).2
  · exact mapM_eq_ok.mp h

theorem collectCell_spec {columns : List Column} {value : String × Option String}
    {cell : String × String × Option String} (h : collectCell columns value = .ok cell) :
    ∃ c ∈ columns, c.name = value.1 ∧ cell = (value.1, c.dataType, value.2) := by
  simp only [collectCell] at h
  split at h
  · rename_i found hfind
    have hfound := List.find?_some hfind
    simp only [Bool.and_eq_true, decide_eq_true_eq] at hfound
    exact ⟨found, List.mem_of_find?_eq_some hfind, hfound.1, (Except.ok.inj h).symm⟩
  · cases h

omit [DecidableEq V] in
/-- The first value an insertion gives for a column, and what it is cast to. -/
theorem insertion_find {columns : List Column} {values : List (String × Option String)}
    {cells : List (String × String × Option String)} {casts : List (String × V)}
    (hcells : List.Forall₂ (fun v c => collectCell columns v = .ok c) values cells)
    (hcasts : castCells sql cells = .ok casts) (name : String) :
    (∃ value v, (values.find? fun v => v.1 = name).map Prod.snd = some value ∧
        casts.find? (fun v => v.1 = name) = some (name, v) ∧
        ∃ c ∈ columns, c.name = name ∧ sql.cast c.dataType value = .ok v) ∨
      ((values.find? fun v => v.1 = name).map Prod.snd = none ∧ casts.find? (fun v => v.1 = name) = none) := by
  induction hcells generalizing casts with
  | nil =>
      cases hcasts
      exact .inr ⟨rfl, rfl⟩
  | @cons value cell values cells hcell _ ih =>
      obtain ⟨c, hc, hcname, rfl⟩ := collectCell_spec hcell
      cases mapM_eq_ok.mp hcasts with
      | cons hcast hrest =>
          obtain ⟨v, hv, rfl⟩ := map_eq_ok.mp hcast
          by_cases hname : value.1 = name
          · exact .inl ⟨value.2, v, by simp [hname], by simp [hname], c, hc, hcname.trans hname, hv⟩
          · simpa [hname] using ih (mapM_eq_ok.mpr hrest)

omit [DecidableEq V] in
theorem insertedBy_of_inserted {session : Session V} {columns : List (String × String)} {insertion : Insertion}
    {cells : List (String × String × Option String)} {row : Row V}
    (hcollect : collectInsertion session.columns insertion = .ok cells)
    (h : Inserted sql session.relation columns cells row) : InsertedBy sql session columns insertion row := by
  obtain ⟨casts, hcasts, hrow⟩ := h
  refine hrow.imp fun column cell hcell => ?_
  rcases insertion_find (collectInsertion_spec hcollect) hcasts column.1 with
    ⟨value, v, hvalue, hfind, hcast⟩ | ⟨hvalue, hfind⟩
  · simp only [insertCell, hfind, Except.ok.injEq] at hcell
    subst hcell
    exact ⟨rfl, .inl ⟨value, hvalue, hcast⟩⟩
  · simp only [insertCell, hfind] at hcell
    obtain ⟨v, hv, rfl⟩ := map_eq_ok.mp hcell
    exact ⟨rfl, .inr ⟨hvalue, hv⟩⟩

theorem forall₂_chain {α β γ : Type*} {R : α → β → Prop} {S : β → γ → Prop} {T : α → γ → Prop} {as : List α}
    {bs : List β} {cs : List γ} (hT : ∀ a b c, R a b → S b c → T a c) (hR : List.Forall₂ R as bs)
    (hS : List.Forall₂ S bs cs) : List.Forall₂ T as cs := by
  induction hR generalizing cs with
  | nil =>
      cases hS
      exact .nil
  | cons hab _ ih =>
      cases hS with
      | cons hbc hS => exact .cons (hT _ _ _ hab hbc) (ih hS)

theorem collect_spec {columns : List Column} {input : Save} {plan : Plan} (h : collect columns input = .ok plan) :
    input.deletions.foldlM collectDeletion [] = .ok plan.deletions ∧
      Collected columns plan.deletions input.changes plan.rows ∧
      List.Forall₂ (fun i cells => collectInsertion columns i = .ok cells) input.insertions plan.insertions := by
  obtain ⟨deletions, hdeletions, h⟩ := bind_eq_ok.mp h
  obtain ⟨rows, hrows, h⟩ := bind_eq_ok.mp h
  obtain ⟨insertions, hinsertions, h⟩ := bind_eq_ok.mp h
  cases h
  exact ⟨hdeletions, collectPatches_spec hrows, mapM_eq_ok.mp hinsertions⟩

theorem tracks_forall₂ {session : Session V} {deletions : List (String × Unit)} {changes : List Patch}
    {plan : List RowChange} {base rows : List (Row V)} (hc : Collected session.columns deletions changes plan)
    (h : Tracks sql session.rowType base plan rows) : List.Forall₂ (Replaced sql session changes) base rows := by
  rw [List.forall₂_iff_get]
  refine ⟨h.1.symm, fun i hb hr => replaced_of_tracked hc ?_⟩
  obtain ⟨r, hrow, hstate⟩ := h.2 i _ (List.getElem?_eq_getElem hb)
  rw [List.getElem?_eq_getElem hr, Option.some_inj] at hrow
  rw [List.get_eq_getElem, List.get_eq_getElem, hrow]
  exact hstate

/-- The statements of a Save do what its edits ask for, whatever rowids its own
updates move. -/
theorem applyPlan_spec {session : Session V} {input : Save} {plan : Plan} {t changed : Table V}
    (hkeyed : Keyed sql t.rows) (hcollect : collect session.columns input = .ok plan)
    (hnamed : ∀ rowRef ∈ plan.rows.map Prod.fst ++ plan.deletions.map Prod.fst,
      ∃ row ∈ t.rows, denotes sql session.rowType rowRef row = true)
    (h : applyPlan sql session t plan = .ok changed) : Saved sql session input t changed := by
  obtain ⟨hdeletions, hcollected, hinsertions⟩ := collect_spec hcollect
  obtain ⟨hsortedDeletions, hmemDeletions, hnodup⟩ := collectDeletions_spec hdeletions
  obtain ⟨t₁, ht₁, h⟩ := bind_eq_ok.mp h
  obtain ⟨t₂, ht₂, hinsert⟩ := bind_eq_ok.mp h
  have hnamedRows : ∀ e ∈ plan.rows, ∃ row ∈ t.rows, denotes sql session.rowType e.1 row = true := fun e he =>
    hnamed e.1 (List.mem_append_left _ (List.mem_map_of_mem he))
  have hnamedDeletions : ∀ d ∈ plan.deletions, ∃ row ∈ t.rows, denotes sql session.rowType d.1 row = true :=
    fun d hd => hnamed d.1 (List.mem_append_right _ (List.mem_map_of_mem hd))
  have hdisjoint : ∀ p ∈ input.changes, p.rowRef ∉ input.deletions := by
    intro p hp hin
    have hsome := (OrderedMap.get?_eq_some hsortedDeletions).mpr ((hmemDeletions (p.rowRef, ())).mpr hin)
    rw [hcollected.kept p hp] at hsome
    cases hsome
  obtain ⟨hcolumns₁, hrows₁⟩ := deletions_spec hkeyed hnamedDeletions ht₁
  have hnamed₁ : ∀ e ∈ plan.rows, ∃ row ∈ t₁.rows, denotes sql session.rowType e.1 row = true := by
    intro e he
    obtain ⟨row, hrow, hd⟩ := hnamedRows e he
    refine ⟨row, ?_, hd⟩
    rw [hrows₁, List.mem_filter]
    refine ⟨hrow, List.all_eq_true.mpr fun d hdel => ?_⟩
    rw [Bool.not_eq_true', ← Bool.not_eq_true]
    intro hdd
    -- A row that is deleted too would be named by the same text in both lists.
    obtain ⟨p, hp, href⟩ := hcollected.named e he
    apply hdisjoint p hp
    rw [href, ← denotes_unique hdd hd]
    exact (hmemDeletions d).mp hdel
  obtain ⟨hcolumns₂, htracks⟩ := updates_spec hcollected.sorted hnamed₁ ht₂
  obtain ⟨hcolumns₃, inserted, hrows₃, hinserted⟩ := insertions_spec hinsert
  have hfilter : (t.rows.filter fun r => plan.deletions.all fun d => !denotes sql session.rowType d.1 r) =
      t.rows.filter fun r => input.deletions.all fun d => !denotes sql session.rowType d r := by
    apply List.filter_congr
    intro r _
    rw [Bool.eq_iff_iff, List.all_eq_true, List.all_eq_true]
    exact ⟨fun hall d hd => hall (d, ()) ((hmemDeletions (d, ())).mpr hd),
      fun hall d hd => hall d.1 ((hmemDeletions d).mp hd)⟩
  refine ⟨hcolumns₃.trans (hcolumns₂.trans hcolumns₁), ?_, hnodup, hcollected.once, hdisjoint, t₂.rows, inserted,
    hrows₃, ?_, ?_⟩
  · intro rowRef hin
    have hplan : rowRef ∈ plan.rows.map Prod.fst ++ plan.deletions.map Prod.fst := by
      rcases hin with hin | ⟨p, hp, rfl⟩
      · exact List.mem_append_right _ (List.mem_map.mpr ⟨_, (hmemDeletions (rowRef, ())).mpr hin, rfl⟩)
      · obtain ⟨row, hrow, href, -⟩ := hcollected.complete p hp
        exact List.mem_append_left _ (List.mem_map.mpr ⟨row, hrow, href⟩)
    obtain ⟨row, hrow, hd⟩ := hnamed rowRef hplan
    refine ⟨row, hrow, hd, fun other hother hdo => ?_⟩
    obtain ⟨key, hkey⟩ := cast_of_denotes hd
    exact hkeyed.eq_of_matched hother hrow (matched_of_denotes hkey hdo) (matched_of_denotes hkey hd)
  · rw [← hfilter, ← hrows₁]
    exact tracks_forall₂ hcollected htracks
  · rw [hcolumns₂.trans hcolumns₁] at hinserted
    exact forall₂_chain (S := Inserted sql session.relation t.columns)
      (fun _ _ _ hcells hrow => insertedBy_of_inserted hcells hrow) hinsertions hinserted

theorem saveTransaction_spec {live : Catalogue V} {session : Session V} {input : Save} {t : Table V}
    {result : Option (Catalogue V)} (ht : session.snapshot.table? session.relation = some t)
    (hlive : live.table? session.relation = some t) (hkeyed : Keyed sql t.rows)
    (h : saveTransaction sql live session input = .ok result) :
    ∃ accepted changed, acceptedChanges sql live session input = .ok accepted ∧ Saved sql session accepted t changed ∧
      ((result = none ∧ changed = t) ∨ result = some (live.set session.relation changed)) := by
  obtain ⟨accepted, haccepted, h⟩ := bind_eq_ok.mp h
  obtain ⟨plan, hplan, h⟩ := bind_eq_ok.mp h
  obtain ⟨⟨⟩, hchecked, h⟩ := bind_eq_ok.mp h
  have hnamed : ∀ rowRef ∈ plan.rows.map Prod.fst ++ plan.deletions.map Prod.fst,
      ∃ row ∈ t.rows, denotes sql session.rowType rowRef row = true := fun rowRef hin =>
    checkReference_spec ht (forM_eq_ok.mp hchecked rowRef hin)
  split at h
  · rename_i hempty
    cases h
    simp only [Plan.isEmpty, Bool.and_eq_true, List.isEmpty_iff] at hempty
    obtain ⟨⟨hrows, hdeletions⟩, hinsertions⟩ := hempty
    have happly : applyPlan sql session t plan = .ok t := by
      simp only [applyPlan, hrows, hdeletions, hinsertions, List.foldlM_nil]
      rfl
    exact ⟨accepted, t, haccepted, applyPlan_spec hkeyed hplan hnamed happly, .inl ⟨rfl, rfl⟩⟩
  · simp only [hlive] at h
    obtain ⟨changed, hchanged, h⟩ := bind_eq_ok.mp h
    obtain ⟨-, -, h⟩ := bind_eq_ok.mp h
    cases h
    exact ⟨accepted, changed, haccepted, applyPlan_spec hkeyed hplan hnamed hchanged, .inr rfl⟩

end Wordflow.CellEdit
