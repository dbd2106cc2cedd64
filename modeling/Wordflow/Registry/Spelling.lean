import Wordflow.Registry.Consistent

namespace Wordflow.Registry

open Library Library.Fallible Library.Identifier Library.Run Objects

/-- The Data Blocks that each row of the metadata names. -/
def State.rows (s : State) : List (List String) :=
  s.nodes.map (fun n => [n.tableName]) ++ s.edges.map (fun e => [e.sourceName, e.targetName]) ++
    s.tokenizerModels.map fun m => [m.tableName]

/-- The columns that the metadata names, each with its Data Block. -/
def State.columnRows (s : State) : List (String × String) :=
  (s.nodes.filterMap fun n => n.documentColumn.map fun column => (n.tableName, column)) ++
    s.tokenizerModels.map fun m => (m.tableName, m.columnName)

def isData (relation : Relation) : Bool := eqIgnoreAsciiCase relation.schema "data"

/-- A name of one of the relations, in any letter case. -/
def Named (relations : List Relation) (name : String) : Prop :=
  ∃ r ∈ relations, isData r = true ∧ eqIgnoreAsciiCase name r.name = true

def Forgotten (t : State) (relations : List Relation) : Prop := ∀ row ∈ t.rows, ∀ name ∈ row, ¬Named relations name

def follow (before after value : String) : String := if eqIgnoreAsciiCase value before then after else value

structure Moved (s t : State) (before after : String) : Prop where
  nodes : t.nodes = s.nodes.map fun n => { n with tableName := follow before after n.tableName }
  edges : t.edges = s.edges.map fun e => ⟨follow before after e.sourceName, follow before after e.targetName⟩
  tokenizerModels : t.tokenizerModels = s.tokenizerModels.map fun m => { m with tableName := follow before after m.tableName }

def ColumnForgotten (t : State) (table : String) (columns : List String) : Prop :=
  ∀ row ∈ t.columnRows, eqIgnoreAsciiCase row.1 table = true → ∀ c ∈ columns, ¬eqIgnoreAsciiCase row.2 c = true

structure ColumnMoved (s t : State) (table before after : String) : Prop where
  nodes : t.nodes = s.nodes.map fun n =>
    if eqIgnoreAsciiCase n.tableName table then { n with documentColumn := n.documentColumn.map (follow before after) } else n
  tokenizerModels : t.tokenizerModels = s.tokenizerModels.map fun m =>
    if eqIgnoreAsciiCase m.tableName table then { m with columnName := follow before after m.columnName } else m

/-- What the metadata says of a column after a change of it. -/
def ColumnSettled (s t : State) (relation : Relation) : ColumnChange → Prop
  | .delete column => ∀ c, Database.columnName s relation column = .ok c → ColumnForgotten t relation.name [c]
  | .deleteMany columns =>
      ∀ names, columns.mapM (Database.columnName s relation) = .ok names → ColumnForgotten t relation.name names
  | .rename column name =>
      ∀ before, Database.columnName s relation column = .ok before → before ≠ Text.trim name →
        ColumnMoved s t relation.name before (Text.trim name)
  | _ => True

/-- What the metadata says after an operation of the objects it was about. -/
def Settled (s t : State) : Operation → Prop
  | .deleteNode target => ∀ object, resolve s target = .ok object → Forgotten t [object.relation]
  | .deleteObjects targets => ∀ selected, targets.mapM (Database.select s) = .ok selected → Forgotten t selected
  | .renameNode target name =>
      ∀ object, resolve s target = .ok object → object.registered = true → object.relation.name ≠ Text.trim name →
        Moved s t object.relation.name (Text.trim name)
  | .changeColumn target change =>
      ∀ object, resolve s target = .ok object → object.registered = true → ColumnSettled s t object.relation change
  | _ => True

/-- Each row that names one of the relations has the name of one as it is spelled. -/
def SpelledAs (s : State) (relations : List Relation) (sought : Relation → Bool) : Prop :=
  ∀ row ∈ s.rows, (∃ name ∈ row, Named relations name) → ∃ name ∈ row, ∃ r ∈ relations, sought r = true ∧ name = r.name

def ColumnsSpelled (s : State) (relation : Relation) (columns : List String) : Prop :=
  ∀ row ∈ s.columnRows, eqIgnoreAsciiCase row.1 relation.name = true → (∃ c ∈ columns, eqIgnoreAsciiCase row.2 c = true) →
    relation.schema = "data" ∧ row.1 = relation.name ∧ row.2 ∈ columns

def ColumnSpelled (s : State) (relation : Relation) : ColumnChange → Prop
  | .delete column => ∀ c, Database.columnName s relation column = .ok c → ColumnsSpelled s relation [c]
  | .deleteMany columns =>
      ∀ names, columns.mapM (Database.columnName s relation) = .ok names → ColumnsSpelled s relation names
  | .rename column name =>
      ∀ before, Database.columnName s relation column = .ok before → before ≠ Text.trim name →
        ∀ row ∈ s.columnRows, eqIgnoreAsciiCase row.1 relation.name = true → eqIgnoreAsciiCase row.2 before = true →
          row.1 = relation.name ∧ row.2 = before ∨ row.2 = Text.trim name
  | _ => True

/-- The rows that name an object or a column in any letter case spell it as the
catalogue does. -/
def Spelled (s : State) : Operation → Prop
  | .deleteNode target => ∀ object, resolve s target = .ok object → SpelledAs s [object.relation] isData
  | .deleteObjects targets =>
      ∀ selected, targets.mapM (Database.select s) = .ok selected → SpelledAs s selected fun r => r.schema = "data"
  | .renameNode target name =>
      ∀ object, resolve s target = .ok object → object.registered = true → object.relation.name ≠ Text.trim name →
        ∀ row ∈ s.rows, ∀ found ∈ row, eqIgnoreAsciiCase found object.relation.name = true →
          found = object.relation.name ∨ found = Text.trim name
  | .changeColumn target change =>
      ∀ object, resolve s target = .ok object → object.registered = true → ColumnSpelled s object.relation change
  | _ => True

section Rows

variable {s t : State}

theorem mem_rows {row : List String} : row ∈ s.rows ↔
    (∃ n ∈ s.nodes, row = [n.tableName]) ∨ (∃ e ∈ s.edges, row = [e.sourceName, e.targetName]) ∨
      ∃ m ∈ s.tokenizerModels, row = [m.tableName] := by
  simp only [State.rows, List.mem_append, List.mem_map, or_assoc, eq_comm]

theorem mem_columnRows {row : String × String} : row ∈ s.columnRows ↔
    (∃ n ∈ s.nodes, n.tableName = row.1 ∧ n.documentColumn = some row.2) ∨
      ∃ m ∈ s.tokenizerModels, m.tableName = row.1 ∧ m.columnName = row.2 := by
  obtain ⟨table, column⟩ := row
  simp only [State.columnRows, List.mem_append, List.mem_filterMap, List.mem_map, Option.map_eq_some_iff, Prod.mk.injEq]
  constructor
  · rintro (⟨n, hn, c, hc, rfl, rfl⟩ | ⟨m, hm, rfl, rfl⟩)
    · exact .inl ⟨n, hn, rfl, hc⟩
    · exact .inr ⟨m, hm, rfl, rfl⟩
  · rintro (⟨n, hn, rfl, hc⟩ | ⟨m, hm, rfl, rfl⟩)
    · exact .inl ⟨n, hn, column, hc, rfl, rfl⟩
    · exact .inr ⟨m, hm, rfl, rfl⟩

theorem Consistent.registered (hs : Consistent s) {row : List String} (hrow : row ∈ s.rows) {name : String}
    (hname : name ∈ row) : s.registered name := by
  rcases mem_rows.mp hrow with ⟨n, hn, rfl⟩ | ⟨e, he, rfl⟩ | ⟨m, hm, rfl⟩
  · obtain rfl := List.mem_singleton.mp hname
    exact ⟨n, hn, eqIgnoreAsciiCase_refl _⟩
  · rcases List.mem_cons.mp hname with rfl | hname
    · exact (hs.edges e he).1
    · obtain rfl := List.mem_singleton.mp hname
      exact (hs.edges e he).2
  · obtain rfl := List.mem_singleton.mp hname
    exact hs.tokenizerModels m hm

/-- The rows that remain are those that give none of the names. -/
structure Deletes (gone : String → Prop) (s t : State) : Prop where
  nodes : ∀ n, n ∈ t.nodes ↔ n ∈ s.nodes ∧ ¬gone n.tableName
  edges : ∀ e, e ∈ t.edges ↔ e ∈ s.edges ∧ ¬gone e.sourceName ∧ ¬gone e.targetName
  tokenizerModels : ∀ m, m ∈ t.tokenizerModels ↔ m ∈ s.tokenizerModels ∧ ¬gone m.tableName

theorem Deletes.rows {gone : String → Prop} (h : Deletes gone s t) {row : List String} :
    row ∈ t.rows ↔ row ∈ s.rows ∧ ∀ name ∈ row, ¬gone name := by
  simp only [mem_rows, h.nodes, h.edges, h.tokenizerModels]
  constructor
  · rintro (⟨n, ⟨hn, hgone⟩, rfl⟩ | ⟨e, ⟨he, hsource, htarget⟩, rfl⟩ | ⟨m, ⟨hm, hgone⟩, rfl⟩)
    · exact ⟨.inl ⟨n, hn, rfl⟩, by simpa using hgone⟩
    · exact ⟨.inr (.inl ⟨e, he, rfl⟩), by simpa using ⟨hsource, htarget⟩⟩
    · exact ⟨.inr (.inr ⟨m, hm, rfl⟩), by simpa using hgone⟩
  · rintro ⟨⟨n, hn, rfl⟩ | ⟨e, he, rfl⟩ | ⟨m, hm, rfl⟩, hgone⟩
    · exact .inl ⟨n, ⟨hn, by simpa using hgone⟩, rfl⟩
    · exact .inr (.inl ⟨e, ⟨he, by simpa using hgone⟩, rfl⟩)
    · exact .inr (.inr ⟨m, ⟨hm, by simpa using hgone⟩, rfl⟩)

theorem SameRows.deletes (h : SameRows s t) : Deletes (fun _ => False) s t :=
  ⟨by simp [h.1], by simp [h.2.1], by simp [h.2.2]⟩

theorem Deletes.trans {u : State} {gone gone' : String → Prop} (h : Deletes gone s t) (h' : Deletes gone' t u) :
    Deletes (fun name => gone name ∨ gone' name) s u where
  nodes := fun n => by rw [h'.nodes, h.nodes, not_or, and_assoc]
  edges := fun e => by
    rw [h'.edges, h.edges]
    tauto
  tokenizerModels := fun m => by rw [h'.tokenizerModels, h.tokenizerModels, not_or, and_assoc]

theorem deleteNode_deletes (s : State) (name : String) : Deletes (fun n => n = name) s (Metadata.deleteNode s name) where
  nodes := by simp [Metadata.deleteNode]
  edges := by simp [Metadata.deleteNode]
  tokenizerModels := by simp [Metadata.deleteNode]

/-- A deletion forgets the relations exactly when each row of theirs goes. -/
theorem Deletes.forgotten {gone : String → Prop} (h : Deletes gone s t) (relations : List Relation) :
    Forgotten t relations ↔ ∀ row ∈ s.rows, (∃ name ∈ row, Named relations name) → ∃ name ∈ row, gone name := by
  constructor
  · rintro hforgotten row hrow ⟨name, hname, hnamed⟩
    by_contra hnone
    have hkept : ∀ name ∈ row, ¬gone name := fun name hname hgone => hnone ⟨name, hname, hgone⟩
    exact hforgotten row (h.rows.mpr ⟨hrow, hkept⟩) name hname hnamed
  · intro hgone row hrow name hname hnamed
    obtain ⟨hold, hkept⟩ := h.rows.mp hrow
    obtain ⟨other, hother, hdeleted⟩ := hgone row hold ⟨name, hname, hnamed⟩
    exact hkept other hother hdeleted

theorem Deletes.consistent {gone : String → Prop} (h : Deletes gone s t) (hs : Consistent s) {relations : List Relation}
    (hgone : ∀ name, gone name → ∃ r ∈ relations, isData r = true ∧ name = r.name) (hforgotten : Forgotten t relations) :
    Consistent t := by
  have hkept : ∀ row ∈ t.rows, ∀ name ∈ row, t.registered name := by
    intro row hrow name hname
    obtain ⟨n, hn, hsame⟩ := hs.registered (h.rows.mp hrow).1 hname
    refine ⟨n, (h.nodes n).mpr ⟨hn, fun hdeleted => ?_⟩, hsame⟩
    obtain ⟨r, hr, hdata, heq⟩ := hgone _ hdeleted
    rw [heq, eqIgnoreAsciiCase_comm] at hsame
    exact hforgotten row hrow name hname ⟨r, hr, hdata, hsame⟩
  constructor
  · intro e he
    have hrow := mem_rows.mpr (.inr (.inl ⟨e, he, rfl⟩))
    exact ⟨hkept _ hrow _ (by simp), hkept _ hrow _ (by simp)⟩
  · intro m hm
    exact hkept _ (mem_rows.mpr (.inr (.inr ⟨m, hm, rfl⟩))) _ (by simp)

end Rows

section Deletion

variable {s t : State}

theorem resolve_isData {target : ObjectTarget} {object : ResolvedObject} (h : resolve s target = .ok object) :
    object.registered = true ↔ isData object.relation = true ∧ s.registered object.relation.name := by
  refine ⟨resolve_registered h, fun ⟨hdata, n, hn, hname⟩ => ?_⟩
  simp only [resolve] at h
  split at h
  · obtain ⟨n, -, rfl⟩ := map_eq_ok.mp h
    rfl
  · split at h
    · cases h
    · split at h
      · obtain rfl := Except.ok.inj h
        exact Bool.and_eq_true_iff.mpr ⟨hdata, List.any_eq_true.mpr ⟨n, hn, hname⟩⟩
      · cases h

theorem deleteNode_step {target : ObjectTarget} {object : ResolvedObject} (hobject : resolve s target = .ok object)
    (h : Database.deleteNode s target = .ok t) :
    Deletes (fun name => object.registered = true ∧ name = object.relation.name) s t := by
  simp only [Database.deleteNode, bind_eq_ok, hobject] at h
  obtain ⟨_, hsame, h⟩ := h
  obtain rfl := Except.ok.inj hsame
  have hdrop := (drop_sameRows h).deletes
  by_cases hregistered : object.registered = true
  · rw [if_pos hregistered] at hdrop
    simpa [hregistered] using (deleteNode_deletes s object.relation.name).trans hdrop
  · rw [if_neg hregistered] at hdrop
    simpa [hregistered] using hdrop

theorem dependencyNodes_registered {n : DependencyNode} (hn : n ∈ dependencyNodes s) :
    n.registered = true ↔ n.object.schema = "data" ∧ s.registered n.object.name := by
  rcases List.mem_append.mp hn with hn | hn
  · obtain ⟨e, -, rfl⟩ := List.mem_map.mp hn
    simp only [Bool.and_eq_true, decide_eq_true_eq, List.any_eq_true, State.registered]
    simp only [eqIgnoreAsciiCase_comm]
  · obtain ⟨m, hm, rfl⟩ := List.mem_map.mp hn
    exact ⟨fun _ => ⟨rfl, m, List.mem_of_mem_filter hm, eqIgnoreAsciiCase_refl _⟩, fun _ => rfl⟩

theorem deleteObject_step {u : State} {relation : Relation} (h : Database.deleteObject (dependencyNodes s) t relation = .ok u) :
    Deletes (fun name => (relation.schema = "data" ∧ s.registered relation.name) ∧ name = relation.name) t u := by
  rw [Database.deleteObject] at h
  split at h
  · cases h
  · rename_i n hfind
    have hobject : n.object = relation := by simpa using List.find?_some hfind
    have hregistered := dependencyNodes_registered (List.mem_of_find?_eq_some hfind)
    rw [hobject] at hregistered
    obtain rfl := Except.ok.inj h
    have hrest : ∀ v : State, SameRows v (if n.kind.isSome then remove v relation else v) := by
      intro v
      split <;> exact ⟨rfl, rfl, rfl⟩
    by_cases hn : n.registered = true
    · have hdeletes := (deleteNode_deletes t relation.name).trans (hrest (Metadata.deleteNode t relation.name)).deletes
      simpa [hn, ← hregistered] using hdeletes
    · have hdeletes := (hrest t).deletes
      simpa [hn, ← hregistered] using hdeletes

/-- Every selected object is deleted, leaves first. -/
theorem mem_deletionOrder {edges : List (Relation × Relation)} {rounds : Nat} {remaining ordered : List Relation}
    (hrounds : remaining.length ≤ rounds) (h : Database.deletionOrder edges rounds remaining = .ok ordered) :
    ∀ r, r ∈ ordered ↔ r ∈ remaining := by
  induction rounds generalizing remaining ordered with
  | zero =>
      obtain rfl := List.length_eq_zero_iff.mp (Nat.le_zero.mp hrounds)
      obtain rfl := Except.ok.inj h
      exact fun _ => Iff.rfl
  | succ rounds ih =>
      simp only [Database.deletionOrder] at h
      split at h
      · rename_i hempty
        obtain rfl := List.isEmpty_iff.mp hempty
        obtain rfl := Except.ok.inj h
        exact fun _ => Iff.rfl
      · generalize hdef : (remaining.filter fun object => !edges.any fun e => e.1 = object && e.2 ∈ remaining) = leaves at h
        have hsub : ∀ r ∈ leaves, r ∈ remaining := fun r hr => List.mem_of_mem_filter (hdef ▸ hr)
        rw [guard_eq_ok] at h
        obtain ⟨hleaves, h⟩ := h
        obtain ⟨rest, hrest, h⟩ := bind_eq_ok.mp h
        obtain rfl := Except.ok.inj h
        obtain ⟨leaf, hleaf⟩ := List.exists_mem_of_ne_nil _ (mt List.isEmpty_iff.mpr hleaves)
        have hlt : (remaining.filter fun object => object ∉ leaves).length < remaining.length :=
          List.length_filter_lt_length_iff_exists.mpr ⟨leaf, hsub leaf hleaf, by simpa using hleaf⟩
        intro r
        rw [List.mem_append, List.mem_insertionSort, ih (by omega) hrest r, List.mem_filter]
        by_cases hr : r ∈ leaves
        · exact ⟨fun _ => hsub r hr, fun _ => .inl hr⟩
        · exact ⟨fun h => (h.resolve_left hr).1, fun h => .inr ⟨h, by simpa using hr⟩⟩

theorem deleteObjects_step {targets : List ObjectTarget} {selected : List Relation}
    (hselected : targets.mapM (Database.select s) = .ok selected) (h : Database.deleteObjects s targets = .ok t) :
    Deletes (fun name => ∃ r ∈ selected, (r.schema = "data" ∧ s.registered r.name) ∧ name = r.name) s t := by
  simp only [Database.deleteObjects, guard_eq_ok, bind_eq_ok, hselected] at h
  obtain ⟨-, _, hsame, -, -, ordered, hordered, h⟩ := h
  obtain rfl := Except.ok.inj hsame
  have hmem := mem_deletionOrder (Nat.le_refl _) hordered
  have hfold := foldlM_relates (fun before u =>
    Deletes (fun name => ∃ r ∈ before, (r.schema = "data" ∧ s.registered r.name) ∧ name = r.name) s u) h
    (by simpa using (SameRows.deletes (s := s) ⟨rfl, rfl, rfl⟩)) fun {before a u v} _ hdeletes hstep => by
      have hnext := hdeletes.trans (deleteObject_step hstep)
      simpa [or_and_right, exists_or] using hnext
  simpa [hmem] using hfold

end Deletion

section Renaming

variable {s t : State} {before after : String}

theorem renamed_eq_follow {value : String} : Metadata.renamed before after value = follow before after value ↔
    (eqIgnoreAsciiCase value before = true → value = before ∨ value = after) := by
  rw [Metadata.renamed, follow]
  by_cases hvalue : value = before
  · simp [hvalue]
  · by_cases hsame : eqIgnoreAsciiCase value before = true
    · simp [hvalue, hsame]
    · simp [hvalue, hsame]

theorem follow_same {a b : String} (h : eqIgnoreAsciiCase a b = true) :
    eqIgnoreAsciiCase (follow before after a) (follow before after b) = true := by
  rw [eqIgnoreAsciiCase_iff] at h
  have hboth : eqIgnoreAsciiCase a before = eqIgnoreAsciiCase b before := by simp only [eqIgnoreAsciiCase, h]
  rw [follow, follow, hboth]
  split
  · exact eqIgnoreAsciiCase_refl _
  · exact eqIgnoreAsciiCase_iff.mpr h

theorem Moved.consistent (h : Moved s t before after) (hs : Consistent s) : Consistent t := by
  have hregistered : ∀ {name}, s.registered name → t.registered (follow before after name) := by
    rintro name ⟨n, hn, hname⟩
    refine ⟨{ n with tableName := follow before after n.tableName }, ?_, follow_same hname⟩
    rw [h.nodes]
    exact List.mem_map_of_mem hn
  constructor
  · intro e he
    rw [h.edges] at he
    obtain ⟨old, hold, rfl⟩ := List.mem_map.mp he
    exact (hs.edges old hold).imp hregistered hregistered
  · intro m hm
    rw [h.tokenizerModels] at hm
    obtain ⟨old, hold, rfl⟩ := List.mem_map.mp hm
    exact hregistered (hs.tokenizerModels old hold)

theorem renameNode_rows {object : ResolvedObject} {name : String} (hregistered : object.registered = true)
    (h : Metadata.renameNode s object name = .ok t) :
    t.nodes = s.nodes.map (fun n => { n with tableName := Metadata.renamed object.relation.name name n.tableName }) ∧
      t.edges = s.edges.map (fun e =>
        ⟨Metadata.renamed object.relation.name name e.sourceName, Metadata.renamed object.relation.name name e.targetName⟩) ∧
      t.tokenizerModels = s.tokenizerModels.map fun m =>
        { m with tableName := Metadata.renamed object.relation.name name m.tableName } := by
  rw [Metadata.renameNode, if_pos hregistered] at h
  obtain ⟨s₁, h₁, h⟩ := bind_eq_ok.mp h
  obtain ⟨s₂, h₂, h⟩ := bind_eq_ok.mp h
  obtain ⟨s₃, h₃, h⟩ := bind_eq_ok.mp h
  rw [(checked_eq_ok.mp h).2, (checked_eq_ok.mp h₃).2, (checked_eq_ok.mp h₂).2, (checked_eq_ok.mp h₁).2]
  refine ⟨rfl, ?_, rfl⟩
  simp only [List.map_map, Function.comp_def]

theorem moved_iff
    (hnodes : t.nodes = s.nodes.map fun n => { n with tableName := Metadata.renamed before after n.tableName })
    (hedges : t.edges = s.edges.map fun e =>
      ⟨Metadata.renamed before after e.sourceName, Metadata.renamed before after e.targetName⟩)
    (hmodels : t.tokenizerModels = s.tokenizerModels.map fun m =>
      { m with tableName := Metadata.renamed before after m.tableName }) :
    Moved s t before after ↔
      ∀ row ∈ s.rows, ∀ found ∈ row, eqIgnoreAsciiCase found before = true → found = before ∨ found = after := by
  constructor
  · intro h row hrow found hfound
    rw [← renamed_eq_follow]
    rcases mem_rows.mp hrow with ⟨n, hn, rfl⟩ | ⟨e, he, rfl⟩ | ⟨m, hm, rfl⟩
    · obtain rfl := List.mem_singleton.mp hfound
      exact congrArg Node.tableName (List.map_inj_left.mp (hnodes.symm.trans h.nodes) n hn)
    · have hedge := List.map_inj_left.mp (hedges.symm.trans h.edges) e he
      rcases List.mem_cons.mp hfound with rfl | hfound
      · exact congrArg Edge.sourceName hedge
      · obtain rfl := List.mem_singleton.mp hfound
        exact congrArg Edge.targetName hedge
    · obtain rfl := List.mem_singleton.mp hfound
      exact congrArg TokenizerModel.tableName (List.map_inj_left.mp (hmodels.symm.trans h.tokenizerModels) m hm)
  · intro h
    have hfollow : ∀ row ∈ s.rows, ∀ found ∈ row, Metadata.renamed before after found = follow before after found :=
      fun row hrow found hfound => renamed_eq_follow.mpr (h row hrow found hfound)
    refine ⟨hnodes.trans ?_, hedges.trans ?_, hmodels.trans ?_⟩
    · refine List.map_congr_left fun n hn => ?_
      rw [hfollow _ (mem_rows.mpr (.inl ⟨n, hn, rfl⟩)) _ List.mem_cons_self]
    · refine List.map_congr_left fun e he => ?_
      have hrow := mem_rows.mpr (.inr (.inl ⟨e, he, rfl⟩))
      rw [hfollow _ hrow e.sourceName (by simp), hfollow _ hrow e.targetName (by simp)]
    · refine List.map_congr_left fun m hm => ?_
      rw [hfollow _ (mem_rows.mpr (.inr (.inr ⟨m, hm, rfl⟩))) _ List.mem_cons_self]

/-- A rename changes the metadata of a registered relation only. -/
theorem renameNode_step {target : ObjectTarget} {object : ResolvedObject} {name : String}
    (hobject : resolve s target = .ok object) (h : Database.renameNode s target name = .ok t) :
    (object.registered = true → object.relation.name ≠ Text.trim name →
      (Moved s t object.relation.name (Text.trim name) ↔ ∀ row ∈ s.rows, ∀ found ∈ row,
        eqIgnoreAsciiCase found object.relation.name = true → found = object.relation.name ∨ found = Text.trim name)) ∧
      (object.registered = false ∨ object.relation.name = Text.trim name → SameRows s t) := by
  rw [Database.renameNode, guard_eq_ok, bind_eq_ok] at h
  obtain ⟨-, _, hsame, h⟩ := h
  obtain rfl := Except.ok.inj (hobject.symm.trans hsame)
  by_cases hname : object.relation.name = Text.trim name
  · rw [if_pos hname] at h
    obtain rfl := Except.ok.inj h
    exact ⟨fun _ hne => absurd hname hne, fun _ => ⟨rfl, rfl, rfl⟩⟩
  · rw [if_neg hname] at h
    split at h
    · cases h
    · rw [guard_eq_ok, guard_eq_ok] at h
      obtain ⟨-, -, h⟩ := h
      refine ⟨fun hregistered _ => ?_, fun hquiet => ?_⟩
      · obtain ⟨hnodes, hedges, hmodels⟩ := renameNode_rows hregistered h
        exact moved_iff hnodes hedges hmodels
      · rw [Metadata.renameNode, if_neg (by simpa using hquiet.resolve_right hname)] at h
        obtain rfl := Except.ok.inj h
        exact ⟨rfl, rfl, rfl⟩

end Renaming

section Columns

variable {s t : State} {relation : Relation}

theorem removeColumn_rows (s : State) (relation : Relation) (column : String) (row : String × String) :
    row ∈ (Metadata.removeColumn s relation column).columnRows ↔
      row ∈ s.columnRows ∧ ¬(relation.schema = "data" ∧ row.1 = relation.name ∧ row.2 = column) := by
  rw [Metadata.removeColumn]
  by_cases hschema : relation.schema = "data"
  · rw [if_neg (not_not.mpr hschema)]
    simp only [mem_columnRows, Metadata.dropColumn, List.mem_map, List.mem_filter, hschema, true_and]
    constructor
    · rintro (⟨n', ⟨n, hn, rfl⟩, htable, hcolumn⟩ | ⟨m, ⟨hm, hkept⟩, htable, hcolumn⟩)
      · split at hcolumn
        · cases hcolumn
        · rename_i hkept
          rw [if_neg hkept] at htable
          exact ⟨.inl ⟨n, hn, htable, hcolumn⟩, fun h => hkept ⟨htable.trans h.1, hcolumn.trans (congrArg some h.2)⟩⟩
      · refine ⟨.inr ⟨m, hm, htable, hcolumn⟩, fun h => ?_⟩
        simp [htable.trans h.1, hcolumn.trans h.2] at hkept
    · rintro ⟨⟨n, hn, htable, hcolumn⟩ | ⟨m, hm, htable, hcolumn⟩, hkept⟩
      · refine .inl ⟨n, ⟨n, hn, if_neg fun h => ?_⟩, htable, hcolumn⟩
        exact hkept ⟨htable.symm.trans h.1, Option.some.inj (hcolumn.symm.trans h.2)⟩
      · refine .inr ⟨m, ⟨hm, ?_⟩, htable, hcolumn⟩
        have hother : ¬(m.tableName = relation.name ∧ m.columnName = column) := fun h =>
          hkept ⟨htable.symm.trans h.1, hcolumn.symm.trans h.2⟩
        rw [← Bool.decide_and, decide_eq_false hother]
        rfl
  · rw [if_pos hschema]
    simp [hschema]

theorem removeColumns_rows (names : List String) (s : State) (row : String × String) :
    row ∈ (names.foldl (fun s name => Metadata.removeColumn s relation name) s).columnRows ↔
      row ∈ s.columnRows ∧ ¬(relation.schema = "data" ∧ row.1 = relation.name ∧ row.2 ∈ names) := by
  induction names generalizing s with
  | nil => simp
  | cons name names ih =>
      rw [List.foldl_cons, ih, removeColumn_rows, List.mem_cons]
      tauto

/-- A deletion forgets the columns exactly when each row of theirs goes. -/
theorem columnForgotten_iff {names : List String} (h : ∀ row, row ∈ t.columnRows ↔
      row ∈ s.columnRows ∧ ¬(relation.schema = "data" ∧ row.1 = relation.name ∧ row.2 ∈ names)) :
    ColumnForgotten t relation.name names ↔ ColumnsSpelled s relation names := by
  constructor
  · rintro hforgotten row hrow htable ⟨c, hc, hcolumn⟩
    by_contra hkept
    exact hforgotten row ((h row).mpr ⟨hrow, hkept⟩) htable c hc hcolumn
  · intro hspelled row hrow htable c hc hcolumn
    obtain ⟨hold, hkept⟩ := (h row).mp hrow
    exact hkept (hspelled row hold htable ⟨c, hc, hcolumn⟩)

theorem chooseColumns_eq {requested done names : List String}
    (h : requested.foldlM (Database.chooseColumn s relation) done = .ok names) :
    ∃ chosen, requested.mapM (Database.columnName s relation) = .ok chosen ∧ names = done ++ chosen := by
  induction requested generalizing done with
  | nil =>
      obtain rfl := Except.ok.inj h
      exact ⟨[], rfl, (List.append_nil _).symm⟩
  | cons column requested ih =>
      rw [List.foldlM_cons, bind_eq_ok] at h
      obtain ⟨next, hnext, h⟩ := h
      simp only [Database.chooseColumn, bind_eq_ok, guard_eq_ok] at hnext
      obtain ⟨name, hname, -, hnext⟩ := hnext
      obtain rfl := Except.ok.inj hnext
      obtain ⟨chosen, hchosen, rfl⟩ := ih h
      refine ⟨name :: chosen, ?_, by simp⟩
      simp only [List.mapM_cons, bind_eq_ok]
      exact ⟨name, hname, chosen, hchosen, rfl⟩

theorem deleteColumns_step {requested names : List String}
    (hnames : requested.mapM (Database.columnName s relation) = .ok names)
    (h : Database.deleteColumns s relation requested = .ok t) :
    ColumnForgotten t relation.name names ↔ ColumnsSpelled s relation names := by
  rw [Database.deleteColumns, guard_eq_ok, bind_eq_ok] at h
  obtain ⟨-, found, hfound, h⟩ := h
  obtain ⟨chosen, hchosen, rfl⟩ := chooseColumns_eq hfound
  obtain rfl := Except.ok.inj (hnames.symm.trans hchosen)
  split at h
  · cases h
  · obtain rfl := Except.ok.inj h
    exact columnForgotten_iff (removeColumns_rows _ _)

theorem deleteColumn_step {column name : String} (hname : Database.columnName s relation column = .ok name)
    (h : Database.deleteColumn s relation column = .ok t) :
    ColumnForgotten t relation.name [name] ↔ ColumnsSpelled s relation [name] := by
  simp only [Database.deleteColumn, bind_eq_ok] at h
  obtain ⟨found, hfound, h⟩ := h
  have hsame : found = name := by
    rw [Database.columnName] at hname
    rw [Database.changedColumn] at hfound
    split at hname
    · rename_i f hf
      rw [hf] at hfound
      exact (Except.ok.inj hfound).symm.trans (Except.ok.inj hname)
    · cases hname
  subst hsame
  split at h
  · cases h
  · obtain rfl := Except.ok.inj h
    exact columnForgotten_iff fun row => (removeColumn_rows _ _ _ row).trans (by simp only [List.mem_singleton]; rfl)

theorem renameColumn_rows {object : ResolvedObject} {before after : String} (hregistered : object.registered = true)
    (h : Metadata.renameColumn s object before after = .ok t) :
    (t.nodes = s.nodes.map fun n =>
      if n.tableName = object.relation.name then
        { n with documentColumn := n.documentColumn.map (Metadata.renamed before after) } else n) ∧
    t.tokenizerModels = s.tokenizerModels.map fun m =>
      if m.tableName = object.relation.name then { m with columnName := Metadata.renamed before after m.columnName } else m := by
  rw [Metadata.renameColumn, if_pos hregistered] at h
  obtain ⟨s₁, h₁, h⟩ := bind_eq_ok.mp h
  rw [(checked_eq_ok.mp h).2, (checked_eq_ok.mp h₁).2]
  exact ⟨rfl, rfl⟩

theorem columnMoved_iff {table before after : String}
    (hnodes : t.nodes = s.nodes.map fun n =>
      if n.tableName = table then { n with documentColumn := n.documentColumn.map (Metadata.renamed before after) } else n)
    (hmodels : t.tokenizerModels = s.tokenizerModels.map fun m =>
      if m.tableName = table then { m with columnName := Metadata.renamed before after m.columnName } else m) :
    ColumnMoved s t table before after ↔
      ∀ row ∈ s.columnRows, eqIgnoreAsciiCase row.1 table = true → eqIgnoreAsciiCase row.2 before = true →
        row.1 = table ∧ row.2 = before ∨ row.2 = after := by
  have hrow : ∀ {name column : String}, eqIgnoreAsciiCase name table = true →
      ((if name = table then Metadata.renamed before after column else column) = follow before after column ↔
        (eqIgnoreAsciiCase column before = true → name = table ∧ column = before ∨ column = after)) := by
    intro name column hname
    by_cases htable : name = table
    · simp [htable, renamed_eq_follow]
    · rw [if_neg htable, follow]
      by_cases hcolumn : eqIgnoreAsciiCase column before = true
      · simp [hcolumn, htable]
      · simp [hcolumn]
  constructor
  · rintro h ⟨name, column⟩ hmem hname hcolumn
    rcases mem_columnRows.mp hmem with ⟨n, hn, rfl, hdocument⟩ | ⟨m, hm, rfl, rfl⟩
    · have hnode := congrArg Node.documentColumn (List.map_inj_left.mp (hnodes.symm.trans h.nodes) n hn)
      refine (hrow hname).mp ?_ hcolumn
      rw [if_pos hname] at hnode
      split at hnode
      · rename_i htable
        simpa [hdocument, htable] using hnode
      · rename_i htable
        simpa [hdocument, htable] using hnode
    · have hmodel := congrArg TokenizerModel.columnName (List.map_inj_left.mp (hmodels.symm.trans h.tokenizerModels) m hm)
      refine (hrow hname).mp ?_ hcolumn
      rw [if_pos hname] at hmodel
      split at hmodel
      · rename_i htable
        simpa [htable] using hmodel
      · rename_i htable
        simpa [htable] using hmodel
  · intro h
    have hother : ∀ {name}, ¬eqIgnoreAsciiCase name table = true → name ≠ table := by
      rintro name hname rfl
      exact hname (eqIgnoreAsciiCase_refl _)
    refine ⟨hnodes.trans (List.map_congr_left fun n hn => ?_), hmodels.trans (List.map_congr_left fun m hm => ?_)⟩
    · obtain ⟨name, visible, color, document⟩ := n
      by_cases hname : eqIgnoreAsciiCase name table = true
      · rw [if_pos hname]
        cases document with
        | none => exact ite_self _
        | some column =>
            have hsame := (hrow hname).mpr (h (name, column) (mem_columnRows.mpr (.inl ⟨_, hn, rfl, rfl⟩)) hname)
            simp only [Option.map_some, ← hsame]
            split <;> rfl
      · rw [if_neg hname, if_neg (hother hname)]
    · obtain ⟨name, column, model⟩ := m
      by_cases hname : eqIgnoreAsciiCase name table = true
      · have hsame := (hrow hname).mpr (h (name, column) (mem_columnRows.mpr (.inr ⟨_, hm, rfl, rfl⟩)) hname)
        simp only [if_pos hname, ← hsame]
        split <;> rfl
      · rw [if_neg hname, if_neg (hother hname)]

theorem renameColumn_step {object : ResolvedObject} {column name before : String} (hregistered : object.registered = true)
    (hbefore : Database.columnName s object.relation column = .ok before)
    (h : Database.renameColumn s object column name = .ok t) :
    ColumnMoved s t object.relation.name before (Text.trim name) ↔
      ∀ row ∈ s.columnRows, eqIgnoreAsciiCase row.1 object.relation.name = true →
        eqIgnoreAsciiCase row.2 before = true → row.1 = object.relation.name ∧ row.2 = before ∨ row.2 = Text.trim name := by
  simp only [Database.renameColumn, bind_eq_ok] at h
  obtain ⟨_, hsame, h⟩ := h
  obtain rfl := Except.ok.inj (hbefore.symm.trans hsame)
  rw [guard_eq_ok, guard_eq_ok] at h
  obtain ⟨hnodes, hmodels⟩ := renameColumn_rows hregistered h.2.2
  exact columnMoved_iff hnodes hmodels

theorem columnChange_step {object : ResolvedObject} {target : ObjectTarget} {change : ColumnChange}
    (hobject : resolve s target = .ok object) (hregistered : object.registered = true)
    (h : Database.changeColumn s target change = .ok t) :
    ColumnSettled s t object.relation change ↔ ColumnSpelled s object.relation change := by
  simp only [Database.changeColumn, bind_eq_ok] at h
  obtain ⟨_, hsame, h⟩ := h
  obtain rfl := Except.ok.inj (hobject.symm.trans hsame)
  cases change with
  | delete column => exact forall₂_congr fun name hname => deleteColumn_step hname h
  | deleteMany columns => exact forall₂_congr fun names hnames => deleteColumns_step hnames h
  | rename column name =>
      exact forall₂_congr fun before hbefore => forall_congr' fun _ => renameColumn_step hregistered hbefore h
  | _ => exact Iff.rfl

end Columns

section Runs

variable {env : Environment} {s t : State}

/-- The metadata is as it should be after an operation exactly when the rows it
was to change were spelled as the catalogue spells them. -/
theorem apply_settled (hs : Consistent s) {operation : Operation} (h : apply env s operation = some t) :
    Settled s t operation ↔ Spelled s operation := by
  cases operation with
  | deleteNode target =>
      have h := toOption_eq_some.mp h
      refine forall₂_congr fun object hobject => ?_
      rw [(deleteNode_step hobject h).forgotten]
      refine forall₂_congr fun row hrow => forall_congr' fun _ => exists_congr fun name => and_congr_right fun hname => ?_
      simp only [List.mem_singleton, exists_eq_left, resolve_isData hobject]
      exact ⟨fun h => ⟨h.1.1, h.2⟩, fun h => ⟨⟨h.1, h.2 ▸ hs.registered hrow hname⟩, h.2⟩⟩
  | deleteObjects targets =>
      have h := toOption_eq_some.mp h
      refine forall₂_congr fun selected hselected => ?_
      rw [(deleteObjects_step hselected h).forgotten]
      refine forall₂_congr fun row hrow => forall_congr' fun _ => exists_congr fun name => and_congr_right fun hname => ?_
      refine exists_congr fun r => and_congr_right fun _ => ?_
      rw [decide_eq_true_eq]
      exact ⟨fun h => ⟨h.1.1, h.2⟩, fun h => ⟨⟨h.1, h.2 ▸ hs.registered hrow hname⟩, h.2⟩⟩
  | renameNode target name =>
      have h := toOption_eq_some.mp h
      exact forall₂_congr fun object hobject => forall₂_congr (renameNode_step hobject h).1
  | changeColumn target change =>
      have h := toOption_eq_some.mp h
      exact forall₂_congr fun object hobject => forall_congr' fun hregistered => columnChange_step hobject hregistered h
  | _ => exact Iff.rfl

theorem apply_consistent (hs : Consistent s) {operation : Operation} (hspelled : Spelled s operation)
    (h : apply env s operation = some t) : Consistent t := by
  have hsettled := (apply_settled hs h).mpr hspelled
  cases operation with
  | importSources sources => exact (importSources_extends (toOption_eq_some.mp h)).consistent hs
  | createViews views => exact (createViews_extends (toOption_eq_some.mp h)).consistent hs
  | cloneNode target => exact (cloneNode_extends hs (toOption_eq_some.mp h)).consistent hs
  | changeColumn target change => exact (changeColumn_extends (toOption_eq_some.mp h)).consistent hs
  | materialize target => exact (materialize_extends (toOption_eq_some.mp h)).consistent hs
  | setNodePreference name input => exact (setNodePreference_extends (toOption_eq_some.mp h)).consistent hs
  | create e => exact (create_sameRows (toOption_eq_some.mp h)).extends.consistent hs
  | drop relation =>
      obtain rfl := Option.some.inj h
      exact ⟨hs.edges, hs.tokenizerModels⟩
  | renameNode target name =>
      have h := toOption_eq_some.mp h
      obtain ⟨object, hobject, -⟩ := bind_eq_ok.mp (guard_eq_ok.mp h).2
      by_cases hquiet : object.registered = false ∨ object.relation.name = Text.trim name
      · exact ((renameNode_step hobject h).2 hquiet).extends.consistent hs
      · rw [not_or, Bool.not_eq_false] at hquiet
        exact (hsettled object hobject hquiet.1 hquiet.2).consistent hs
  | deleteNode target =>
      have h := toOption_eq_some.mp h
      obtain ⟨object, hobject, -⟩ := bind_eq_ok.mp h
      refine (deleteNode_step hobject h).consistent hs ?_ (hsettled object hobject)
      rintro name ⟨hregistered, rfl⟩
      exact ⟨_, List.mem_singleton_self _, ((resolve_isData hobject).mp hregistered).1, rfl⟩
  | deleteObjects targets =>
      have h := toOption_eq_some.mp h
      obtain ⟨selected, hselected, -⟩ := bind_eq_ok.mp (guard_eq_ok.mp h).2
      refine (deleteObjects_step hselected h).consistent hs ?_ (hsettled selected hselected)
      rintro name ⟨r, hr, ⟨hschema, -⟩, rfl⟩
      refine ⟨r, hr, ?_, rfl⟩
      rw [isData, hschema]
      exact eqIgnoreAsciiCase_refl _

/-- In every run whose operations find the metadata spelled as the catalogue is,
no row of it dangles, and what an operation is about is deleted or moved exactly
when it finds it so. -/
theorem metadata_follows {operations : List Operation} (hs : Consistent s) (h : exec (apply env) s operations = some t)
    (hspelled : Along (apply env) Spelled s operations) :
    Consistent t ∧ ∀ operation u, apply env t operation = some u → (Settled t u operation ↔ Spelled t operation) := by
  have ht : Consistent t := exec_invariant_along (fun hs hP hstep => apply_consistent hs hP hstep) hs h hspelled
  exact ⟨ht, fun operation u hstep => apply_settled ht hstep⟩

def emptyProject : State := ⟨[], [], [], []⟩

def letters : Environment := ⟨Char.isAlphanum, ["en_core"]⟩

/-- An import, and a View made in its place in another letter case. -/
def recreated : List Operation :=
  [.importSources [⟨"Docs", [("text", "VARCHAR")]⟩], .drop ⟨"data", "docs"⟩,
    .create ⟨⟨"data", "DOCS"⟩, .view [⟨"data", "Docs_raw"⟩] false, [("text", "VARCHAR")]⟩]

/-- A rename leaves the links of a Table of another spelling behind, and a
deletion the Data Block itself. -/
theorem recreated_dangles :
    (¬∀ operations t, exec (apply letters) emptyProject operations = some t → Consistent t) ∧
      ¬∀ operations t, exec (apply letters) emptyProject operations = some t →
        ∀ operation u, apply letters t operation = some u → Settled t u operation := by
  constructor
  · intro hclaim
    have hrun : (exec (apply letters) emptyProject (recreated ++
        [.materialize ⟨some "data", "docs"⟩, .renameNode ⟨none, "docs"⟩ "texts"])).any (fun t =>
          decide (⟨"Docs_raw", "DOCS"⟩ ∈ t.edges) && t.nodes.all fun n => !eqIgnoreAsciiCase n.tableName "DOCS") = true := by
      decide +kernel
    obtain ⟨t, ht, hdangling⟩ := (Option.any_eq_true _ _).mp hrun
    obtain ⟨hedge, hnone⟩ := Bool.and_eq_true_iff.mp hdangling
    obtain ⟨n, hn, hname⟩ := ((hclaim _ t ht).edges _ (of_decide_eq_true hedge)).2
    have hother := List.all_eq_true.mp hnone n hn
    rw [hname] at hother
    cases hother
  · intro hclaim
    have hrun : (exec (apply letters) emptyProject recreated).any (fun t =>
        ([⟨some "data", "docs"⟩].mapM (Database.select t)).toOption = some [⟨"data", "DOCS"⟩] &&
          (apply letters t (.deleteObjects [⟨some "data", "docs"⟩])).any fun u => ["Docs"] ∈ u.rows) = true := by
      decide +kernel
    obtain ⟨t, ht, hdelete⟩ := (Option.any_eq_true _ _).mp hrun
    obtain ⟨hselected, hdelete⟩ := Bool.and_eq_true_iff.mp hdelete
    obtain ⟨u, hu, hrow⟩ := (Option.any_eq_true _ _).mp hdelete
    have hforgotten := hclaim recreated t ht _ u hu _ (toOption_eq_some.mp (of_decide_eq_true hselected))
    exact hforgotten _ (of_decide_eq_true hrow) "Docs" (by simp)
      ⟨_, List.mem_singleton_self _, eqIgnoreAsciiCase_refl _, by decide +kernel⟩

def docsProject : State where
  catalogue := [⟨⟨"data", "Docs_raw"⟩, .table, [("text", "VARCHAR")]⟩,
    ⟨⟨"data", "Docs"⟩, .view [⟨"data", "Docs_raw"⟩] false, [("text", "VARCHAR")]⟩]
  nodes := [⟨"Docs_raw", false, none, none⟩, ⟨"Docs", true, none, some "text"⟩]
  edges := [⟨"Docs_raw", "Docs"⟩]
  tokenizerModels := [⟨"Docs", "text", "en_core"⟩]

theorem docsProject_consistent : Consistent docsProject where
  edges := by simp [docsProject, State.registered]
  tokenizerModels := by simp [docsProject, State.registered]

theorem docs_moved : ∃ t, exec (apply letters) docsProject [.renameNode ⟨some "DATA", "docs"⟩ "Texts"] = some t ∧ Consistent t ∧
    t.edges = [⟨"Docs_raw", "Texts"⟩] := by
  have hobject : resolve docsProject ⟨some "DATA", "docs"⟩ = .ok ⟨⟨"data", "Docs"⟩, true⟩ :=
    toOption_eq_some.mp (by decide +kernel)
  have hspelled : Spelled docsProject (.renameNode ⟨some "DATA", "docs"⟩ "Texts") := by
    intro object hsame _ _
    obtain rfl := Except.ok.inj (hobject.symm.trans hsame)
    decide +kernel
  obtain ⟨t, ht, hedges⟩ : ∃ t, exec (apply letters) docsProject [.renameNode ⟨some "DATA", "docs"⟩ "Texts"] = some t ∧
      t.edges = [⟨"Docs_raw", "Texts"⟩] := Option.map_eq_some_iff.mp (by decide +kernel)
  exact ⟨t, ht, (metadata_follows docsProject_consistent ht ⟨hspelled, fun _ _ => trivial⟩).1, hedges⟩

end Runs

end Wordflow.Registry
