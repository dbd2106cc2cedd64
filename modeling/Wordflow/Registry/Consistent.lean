import Wordflow.Library.Fallible
import Wordflow.Library.Run
import Wordflow.Registry.Database

namespace Wordflow.Registry

open Library Library.Fallible Library.Identifier Library.Run Objects

def State.registered (s : State) (name : String) : Prop := ∃ n ∈ s.nodes, eqIgnoreAsciiCase n.tableName name = true

/-- The metadata names registered Data Blocks only. -/
structure Consistent (s : State) : Prop where
  edges : ∀ e ∈ s.edges, s.registered e.sourceName ∧ s.registered e.targetName
  tokenizerModels : ∀ m ∈ s.tokenizerModels, s.registered m.tableName

section Extension

variable {s t : State}

theorem checked_eq_ok : checked s = .ok t ↔ s.Checked ∧ t = s := by
  rw [checked]
  split
  · rename_i h
    simp [h, eq_comm]
  · rename_i h
    simp [h]

theorem State.registered.mono (hnodes : ∀ n ∈ s.nodes, ∃ n' ∈ t.nodes, n'.tableName = n.tableName) {name : String}
    (h : s.registered name) : t.registered name := by
  obtain ⟨n, hn, hname⟩ := h
  obtain ⟨n', hn', heq⟩ := hnodes n hn
  exact ⟨n', hn', heq ▸ hname⟩

/-- A step that keeps the registered names, and writes rows of registered names. -/
structure Extends (s t : State) : Prop where
  nodes : ∀ n ∈ s.nodes, ∃ n' ∈ t.nodes, n'.tableName = n.tableName
  edges : ∀ e ∈ t.edges, e ∈ s.edges ∨ t.registered e.sourceName ∧ t.registered e.targetName
  tokenizerModels : ∀ m ∈ t.tokenizerModels, (∃ m' ∈ s.tokenizerModels, m'.tableName = m.tableName) ∨ t.registered m.tableName

theorem Extends.refl (s : State) : Extends s s where
  nodes := fun n hn => ⟨n, hn, rfl⟩
  edges := fun _ he => .inl he
  tokenizerModels := fun m hm => .inl ⟨m, hm, rfl⟩

theorem Extends.consistent (h : Extends s t) (hs : Consistent s) : Consistent t where
  edges := by
    intro e he
    rcases h.edges e he with hold | hnew
    · exact (hs.edges e hold).imp (State.registered.mono h.nodes) (State.registered.mono h.nodes)
    · exact hnew
  tokenizerModels := by
    intro m hm
    rcases h.tokenizerModels m hm with ⟨m', hold, heq⟩ | hnew
    · exact heq ▸ (hs.tokenizerModels m' hold).mono h.nodes
    · exact hnew

theorem Extends.trans {u : State} (h : Extends s t) (h' : Extends t u) : Extends s u where
  nodes := by
    intro n hn
    obtain ⟨n', hn', heq⟩ := h.nodes n hn
    obtain ⟨n'', hn'', heq'⟩ := h'.nodes n' hn'
    exact ⟨n'', hn'', heq'.trans heq⟩
  edges := by
    intro e he
    rcases h'.edges e he with hold | hnew
    · exact (h.edges e hold).imp_right fun h => h.imp (State.registered.mono h'.nodes) (State.registered.mono h'.nodes)
    · exact .inr hnew
  tokenizerModels := by
    intro m hm
    rcases h'.tokenizerModels m hm with ⟨m', hold, heq⟩ | hnew
    · rcases h.tokenizerModels m' hold with ⟨m'', hold', heq'⟩ | hnew
      · exact .inl ⟨m'', hold', heq'.trans heq⟩
      · exact .inr (heq ▸ hnew.mono h'.nodes)
    · exact .inr hnew

theorem Extends.fold {α : Type} {f : State → α → Except Error State} {items : List α}
    (hstep : ∀ {a s t}, a ∈ items → f s a = .ok t → Extends s t) (h : items.foldlM f s = .ok t) : Extends s t :=
  foldlM_preserves (Extends s) h (.refl s) fun ha hs hf => hs.trans (hstep ha hf)

/-- The metadata of two states is the same. -/
def SameRows (s t : State) : Prop := t.nodes = s.nodes ∧ t.edges = s.edges ∧ t.tokenizerModels = s.tokenizerModels

theorem SameRows.extends (h : SameRows s t) : Extends s t where
  nodes := fun n hn => ⟨n, h.1 ▸ hn, rfl⟩
  edges := fun _ he => .inl (h.2.1 ▸ he)
  tokenizerModels := fun m hm => .inl ⟨m, h.2.2 ▸ hm, rfl⟩

theorem create_sameRows {entry : Entry} (h : create s entry = .ok t) : SameRows s t := by
  rw [create, guard_eq_ok] at h
  obtain ⟨-, rfl⟩ := h.2
  exact ⟨rfl, rfl, rfl⟩

theorem drop_sameRows {view : Bool} {relation : Relation} (h : drop s view relation = .ok t) : SameRows s t := by
  simp only [drop] at h
  split at h
  · obtain rfl := Except.ok.inj h
    exact ⟨rfl, rfl, rfl⟩
  · split at h
    · obtain rfl := Except.ok.inj h
      exact ⟨rfl, rfl, rfl⟩
    · cases h

/-- New Data Blocks are registered. -/
theorem addNodes_extends {nodes : List Node} (h : checked { s with nodes := s.nodes ++ nodes } = .ok t) : Extends s t := by
  obtain ⟨-, rfl⟩ := checked_eq_ok.mp h
  exact ⟨fun n hn => ⟨n, List.mem_append_left _ hn, rfl⟩, fun _ he => .inl he, fun m hm => .inl ⟨m, hm, rfl⟩⟩

theorem addNodes_registered {nodes : List Node} (h : checked { s with nodes := s.nodes ++ nodes } = .ok t) {n : Node}
    (hn : n ∈ nodes) : t.registered n.tableName := by
  obtain ⟨-, rfl⟩ := checked_eq_ok.mp h
  exact ⟨n, List.mem_append_right _ hn, eqIgnoreAsciiCase_refl _⟩

theorem addModels_extends {models : List TokenizerModel} (hmodels : ∀ m ∈ models, s.registered m.tableName)
    (h : checked { s with tokenizerModels := s.tokenizerModels ++ models } = .ok t) : Extends s t := by
  obtain ⟨-, rfl⟩ := checked_eq_ok.mp h
  refine ⟨fun n hn => ⟨n, hn, rfl⟩, fun _ he => .inl he, fun m hm => ?_⟩
  exact (List.mem_append.mp hm).imp (fun h => ⟨m, h, rfl⟩) (hmodels m)

theorem addEdges_extends {edges : List Edge}
    (hedges : ∀ e ∈ edges, s.registered e.sourceName ∧ s.registered e.targetName)
    (h : checked { s with edges := s.edges ++ edges } = .ok t) : Extends s t := by
  obtain ⟨-, rfl⟩ := checked_eq_ok.mp h
  refine ⟨fun n hn => ⟨n, hn, rfl⟩, fun e he => ?_, fun m hm => .inl ⟨m, hm, rfl⟩⟩
  exact (List.mem_append.mp he).imp_right (hedges e)

/-- Rows of the metadata are changed, and none is added, without their names. -/
theorem mapRows_extends {f : Node → Node} {models : List TokenizerModel}
    (hf : ∀ n, (f n).tableName = n.tableName)
    (hmodels : ∀ m ∈ models, ∃ m' ∈ s.tokenizerModels, m'.tableName = m.tableName) :
    Extends s { s with nodes := s.nodes.map f, tokenizerModels := models } where
  nodes := fun n hn => ⟨f n, List.mem_map_of_mem hn, hf n⟩
  edges := fun _ he => .inl he
  tokenizerModels := fun m hm => .inl (hmodels m hm)

end Extension

section Operations

variable {env : Environment} {s t : State}

theorem resolve_registered {target : ObjectTarget} {object : ResolvedObject} (h : resolve s target = .ok object)
    (hregistered : object.registered = true) :
    eqIgnoreAsciiCase object.relation.schema "data" = true ∧ s.registered object.relation.name := by
  simp only [resolve] at h
  split at h
  · obtain ⟨n, hnode, rfl⟩ := map_eq_ok.mp h
    rw [node] at hnode
    split at hnode
    · rename_i found hfound
      obtain rfl := Except.ok.inj hnode
      exact ⟨eqIgnoreAsciiCase_refl _, found, List.mem_of_find?_eq_some hfound, eqIgnoreAsciiCase_refl _⟩
    · cases hnode
  · split at h
    · cases h
    · split at h
      · obtain rfl := Except.ok.inj h
        obtain ⟨hschema, hany⟩ := Bool.and_eq_true_iff.mp hregistered
        obtain ⟨n, hn, hname⟩ := List.any_eq_true.mp hany
        exact ⟨hschema, n, hn, hname⟩
      · cases h

theorem resolve_node {target : ObjectTarget} {object : ResolvedObject} (h : resolve s target = .ok object)
    (hbare : target.schema.isNone = true) : ∃ n ∈ s.nodes, n.tableName = object.relation.name := by
  obtain ⟨schema, name⟩ := target
  cases schema with
  | some schema => cases hbare
  | none =>
      simp only [resolve] at h
      obtain ⟨n, hnode, rfl⟩ := map_eq_ok.mp h
      rw [node] at hnode
      split at hnode
      · rename_i found hfound
        obtain rfl := Except.ok.inj hnode
        exact ⟨found, List.mem_of_find?_eq_some hfound, rfl⟩
      · cases hnode

theorem importSource_extends {done result : State × List String} {input : PreparedSource}
    (h : Database.importSource done input = .ok result) : Extends done.1 result.1 := by
  simp only [Database.importSource, guard_eq_ok, bind_eq_ok] at h
  obtain ⟨-, s₁, hraw, s₂, hname, s₃, hnodes, h⟩ := h
  obtain rfl := Except.ok.inj h
  exact ((create_sameRows hraw).extends.trans (create_sameRows hname).extends).trans (addNodes_extends hnodes)

theorem importSources_extends {sources : List PreparedSource} (h : Database.importSources s sources = .ok t) :
    Extends s t := by
  rw [Database.importSources] at h
  obtain ⟨result, hfold, rfl⟩ := map_eq_ok.mp h
  exact foldlM_preserves (fun done => Extends s done.1) hfold (.refl s) fun _ hs hstep =>
    hs.trans (importSource_extends hstep)

theorem copyColumns_extends {name : String} {mappings : List ColumnMapping} (hname : s.registered name)
    (h : Metadata.copyColumns s name mappings = .ok t) : Extends s t := by
  rw [Metadata.copyColumns] at h
  split at h
  · obtain rfl := Except.ok.inj h
    exact .refl s
  · simp only [bind_eq_ok] at h
    obtain ⟨u, hmodels, h⟩ := h
    obtain rfl := Except.ok.inj h
    refine (addModels_extends (fun m hm => ?_) hmodels).trans
      (mapRows_extends (fun n => by split <;> rfl) fun m hm => ⟨m, hm, rfl⟩)
    obtain ⟨p, -, rfl⟩ := List.mem_map.mp hm
    exact hname

theorem createView_extends {view : CreateView} (h : Database.createView s view = .ok t) : Extends s t := by
  simp only [Database.createView, guard_eq_ok, bind_eq_ok] at h
  obtain ⟨-, s₁, hcreate, s₂, hnode, hcopy⟩ := h
  have hname := addNodes_registered hnode (List.mem_singleton_self _)
  exact ((create_sameRows hcreate).extends.trans (addNodes_extends hnode)).trans (copyColumns_extends hname hcopy)

theorem createViews_extends {views : List CreateView} (h : Database.createViews s views = .ok t) : Extends s t := by
  rw [Database.createViews, guard_eq_ok] at h
  exact Extends.fold (fun _ => createView_extends) h.2

theorem cloneRows_extends (hs : Consistent s) {id name : String} (hid : ∃ n ∈ s.nodes, n.tableName = id)
    (h : Metadata.cloneNode s id name = .ok t) : Extends s t := by
  simp only [Metadata.cloneNode, bind_eq_ok] at h
  obtain ⟨s₁, hnodes, s₂, hmodels, hedges⟩ := h
  obtain ⟨n, hn, rfl⟩ := hid
  have hname : s₁.registered name :=
    addNodes_registered hnodes (List.mem_map_of_mem (List.mem_filter.mpr ⟨hn, by simp⟩))
  have h₁ := addNodes_extends hnodes
  have h₂ : Extends s₁ s₂ := by
    refine addModels_extends (fun m hm => ?_) hmodels
    obtain ⟨m', -, rfl⟩ := List.mem_map.mp hm
    exact hname
  have h₃ : Extends s₂ t := by
    refine addEdges_extends (fun e he => ?_) hedges
    obtain ⟨e', he', rfl⟩ := List.mem_map.mp he
    exact ⟨((hs.edges e' (List.mem_of_mem_filter he')).1.mono h₁.nodes).mono h₂.nodes, hname.mono h₂.nodes⟩
  exact (h₁.trans h₂).trans h₃

theorem cloneNode_extends (hs : Consistent s) {target : ObjectTarget} (h : Database.cloneNode env s target = .ok t) :
    Extends s t := by
  simp only [Database.cloneNode, bind_eq_ok] at h
  obtain ⟨object, hobject, found, -, s₁, hcreate, h⟩ := h
  have h₁ := create_sameRows hcreate
  split at h
  · rename_i hbare
    obtain ⟨n, hn, hname⟩ := resolve_node hobject hbare
    exact h₁.extends.trans (cloneRows_extends (h₁.extends.consistent hs) ⟨n, h₁.1 ▸ hn, hname⟩ h)
  · obtain rfl := Except.ok.inj h
    exact h₁.extends

theorem linkSource_extends {relation source : Relation} (hname : s.registered relation.name)
    (h : Database.linkSource relation s source = .ok t) : Extends s t := by
  refine addEdges_extends (fun e he => ?_) h
  obtain ⟨n, hn, rfl⟩ := List.mem_map.mp (List.mem_of_mem_filter he)
  exact ⟨⟨n, List.mem_of_mem_filter hn, eqIgnoreAsciiCase_refl _⟩, hname⟩

theorem materialize_extends {target : ObjectTarget} (h : Database.materialize s target = .ok t) : Extends s t := by
  simp only [Database.materialize, bind_eq_ok] at h
  obtain ⟨object, hobject, h⟩ := h
  split at h
  · obtain rfl := Except.ok.inj h
    exact .refl s
  · obtain ⟨u, hlinks, h⟩ := bind_eq_ok.mp h
    obtain rfl := Except.ok.inj h
    refine Extends.trans (t := u) ?_ (SameRows.extends ⟨rfl, rfl, rfl⟩)
    rw [Database.linkSources] at hlinks
    split at hlinks
    · rename_i hregistered
      have hname := (resolve_registered hobject hregistered).2
      exact foldlM_preserves (Extends s) hlinks (.refl s) fun _ hs hstep =>
        hs.trans (linkSource_extends (hname.mono hs.nodes) hstep)
    · obtain rfl := Except.ok.inj hlinks
      exact .refl s

theorem dropColumn_extends (s : State) (table column : String) : Extends s (Metadata.dropColumn s table column) :=
  mapRows_extends (fun n => by split <;> rfl) fun m hm => ⟨m, List.mem_of_mem_filter hm, rfl⟩

theorem removeColumn_extends (s : State) (relation : Relation) (column : String) :
    Extends s (Metadata.removeColumn s relation column) := by
  rw [Metadata.removeColumn]
  split
  · exact .refl s
  · exact dropColumn_extends s _ _

theorem transformedColumn_extends {object : ResolvedObject} {column : String}
    (h : Metadata.transformedColumn s object column = .ok t) : Extends s t := by
  rw [Metadata.transformedColumn] at h
  split at h
  · obtain rfl := Except.ok.inj h
    exact .refl s
  · split at h
    · cases h
    · obtain rfl := Except.ok.inj h
      split
      · exact .refl s
      · exact dropColumn_extends s _ _

theorem renameRows_extends {object : ResolvedObject} {before after : String}
    (h : Metadata.renameColumn s object before after = .ok t) : Extends s t := by
  rw [Metadata.renameColumn] at h
  split at h
  · simp only [bind_eq_ok] at h
    obtain ⟨u, hmodels, hnodes⟩ := h
    obtain ⟨-, rfl⟩ := checked_eq_ok.mp hmodels
    obtain ⟨-, rfl⟩ := checked_eq_ok.mp hnodes
    refine mapRows_extends (fun n => by split <;> rfl) fun m hm => ?_
    obtain ⟨m', hm', rfl⟩ := List.mem_map.mp hm
    exact ⟨m', hm', by split <;> rfl⟩
  · obtain rfl := Except.ok.inj h
    exact .refl s

theorem setColumns_extends (s : State) (relation : Relation) (columns : List (String × String)) :
    Extends s (setColumns s relation columns) := SameRows.extends ⟨rfl, rfl, rfl⟩

theorem retypeColumn_extends {object : ResolvedObject} {column kind : String}
    (h : Database.retypeColumn s object column kind = .ok t) : Extends s t :=
  (setColumns_extends _ _ _).trans (transformedColumn_extends h)

theorem transformColumns_extends {object : ResolvedObject} {requested : List ColumnExpression}
    (h : Database.transformColumns s object requested = .ok t) : Extends s t := by
  rw [Database.transformColumns, guard_eq_ok, bind_eq_ok] at h
  obtain ⟨-, resolved, -, h⟩ := h
  exact (setColumns_extends _ _ _).trans (Extends.fold (fun _ => transformedColumn_extends) h)

theorem foldl_removeColumn_extends (relation : Relation) (names : List String) (s : State) :
    Extends s (names.foldl (fun s name => Metadata.removeColumn s relation name) s) := by
  induction names generalizing s with
  | nil => exact .refl s
  | cons name names ih => exact (removeColumn_extends s relation name).trans (ih _)

theorem deleteColumns_extends {relation : Relation} {requested : List String}
    (h : Database.deleteColumns s relation requested = .ok t) : Extends s t := by
  rw [Database.deleteColumns, guard_eq_ok, bind_eq_ok] at h
  obtain ⟨-, names, -, h⟩ := h
  split at h
  · cases h
  · obtain rfl := Except.ok.inj h
    exact (setColumns_extends _ _ _).trans (foldl_removeColumn_extends relation names _)

theorem deleteColumn_extends {relation : Relation} {column : String}
    (h : Database.deleteColumn s relation column = .ok t) : Extends s t := by
  simp only [Database.deleteColumn, bind_eq_ok] at h
  obtain ⟨column, -, h⟩ := h
  split at h
  · cases h
  · obtain rfl := Except.ok.inj h
    exact (setColumns_extends _ _ _).trans (removeColumn_extends _ _ _)

theorem renameColumn_extends {object : ResolvedObject} {column name : String}
    (h : Database.renameColumn s object column name = .ok t) : Extends s t := by
  simp only [Database.renameColumn, bind_eq_ok] at h
  obtain ⟨before, -, h⟩ := h
  rw [guard_eq_ok, guard_eq_ok] at h
  exact (setColumns_extends _ _ _).trans (renameRows_extends h.2.2)

theorem addColumn_extends {relation : Relation} {column kind : String}
    (h : Database.addColumn s relation column kind = .ok t) : Extends s t := by
  rw [Database.addColumn] at h
  split at h
  · cases h
  · rw [guard_eq_ok] at h
    obtain ⟨-, h⟩ := h
    obtain rfl := Except.ok.inj h
    exact SameRows.extends ⟨rfl, rfl, rfl⟩

theorem changeColumn_extends {target : ObjectTarget} {change : ColumnChange}
    (h : Database.changeColumn s target change = .ok t) : Extends s t := by
  simp only [Database.changeColumn, bind_eq_ok] at h
  obtain ⟨object, -, h⟩ := h
  cases change with
  | orderCategories column kind | cast column kind | transform column kind =>
      simp only [bind_eq_ok] at h
      obtain ⟨column, -, h⟩ := h
      exact retypeColumn_extends h
  | transformMany columns => exact transformColumns_extends h
  | deleteMany columns => exact deleteColumns_extends h
  | add column kind =>
      simp only [bind_eq_ok] at h
      obtain ⟨column, -, h⟩ := h
      exact addColumn_extends h
  | rename column name => exact renameColumn_extends h
  | delete column => exact deleteColumn_extends h

theorem setNodePreference_extends {name : String} {input : NodePreference}
    (h : Database.setNodePreference env s name input = .ok t) : Extends s t := by
  simp only [Database.setNodePreference, bind_eq_ok] at h
  obtain ⟨n, hnode, h⟩ := h
  rw [guard_eq_ok] at h
  obtain ⟨-, h⟩ := h
  have hname : s.registered n.tableName := by
    rw [node] at hnode
    split at hnode
    · rename_i found hfound
      obtain rfl := Except.ok.inj hnode
      exact ⟨found, List.mem_of_find?_eq_some hfound, eqIgnoreAsciiCase_refl _⟩
    · cases hnode
  cases input with
  | documentColumn value =>
      obtain rfl := Except.ok.inj h
      exact mapRows_extends (fun n => by split <;> rfl) fun m hm => ⟨m, hm, rfl⟩
  | color value =>
      rw [Database.setPreference, guard_eq_ok] at h
      obtain rfl := Except.ok.inj h.2
      exact mapRows_extends (fun n => by split <;> rfl) fun m hm => ⟨m, hm, rfl⟩
  | tokenizer column value =>
      have hkept : Extends s { s with tokenizerModels := s.tokenizerModels.filter fun m =>
          !(m.tableName = n.tableName && m.columnName = column) } :=
        ⟨fun n hn => ⟨n, hn, rfl⟩, fun _ he => .inl he, fun m hm => .inl ⟨m, List.mem_of_mem_filter hm, rfl⟩⟩
      cases value with
      | none =>
          obtain rfl := Except.ok.inj h
          exact hkept
      | some value =>
          rw [Database.setPreference, guard_eq_ok] at h
          obtain rfl := Except.ok.inj h.2
          refine ⟨fun n hn => ⟨n, hn, rfl⟩, fun _ he => .inl he, fun m hm => ?_⟩
          rcases List.mem_append.mp hm with hold | hnew
          · exact .inl ⟨m, List.mem_of_mem_filter hold, rfl⟩
          · obtain rfl := List.mem_singleton.mp hnew
            exact .inr hname

end Operations

end Wordflow.Registry
