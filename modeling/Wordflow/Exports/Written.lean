import Wordflow.Exports.Contents

namespace Wordflow.Exports

open Library Library.Fallible Library.Identifier Library.Worklist Objects Tables
open Registry (Node Edge TokenizerModel)

variable {K V : Type} {engine : Engine K V} {s : Source K V} {d d' : Destination K V}

section Statements

variable {relation other : Relation} {rows : Rows V} {parents : List Relation} {query : Query K}

theorem key_eq_iff : key relation = key other ↔ relation.same other = true := by
  simp only [key, Relation.same_iff, Prod.mk.injEq]

theorem same_congr {p q : Relation} (h : p.same q = true) (r : Relation) : r.same p = r.same q := by
  obtain ⟨hschema, hname⟩ := Relation.same_iff.mp h
  rw [Bool.eq_iff_iff, Relation.same_iff, Relation.same_iff, hschema, hname]

theorem has_iff : d.has relation = true ↔ key relation ∈ d.objects.map fun o => key o.1 := by
  simp only [Destination.has, Destination.lookup, List.find?_isSome, List.mem_map, key_eq_iff]

theorem not_has_iff : d.has relation = false ↔ key relation ∉ d.objects.map fun o => key o.1 := by
  rw [← has_iff, Bool.not_eq_true]

/-- An object that is not there yet comes last. -/
theorem put_fresh (object : Object K V) (h : d.has relation = false) :
    d.put relation object = { d with objects := d.objects ++ [(relation, object)] } := by
  have hall : d.objects.filter (fun o => !o.1.same relation) = d.objects := by
    apply List.filter_eq_self.mpr
    intro o ho
    rw [Bool.not_eq_true', Bool.eq_false_iff]
    intro hsame
    refine not_has_iff.mp h ?_
    rw [← key_eq_iff.mpr hsame]
    exact List.mem_map_of_mem ho
  rw [Destination.put, hall]

theorem createTable_ok (h : createTable engine d relation rows parents = .ok d') :
    d.has relation = false ∧ d' = { d with objects := d.objects ++ [(relation, .table rows)] } := by
  obtain ⟨-, -, h⟩ := bind_eq_ok.mp h
  obtain ⟨hhas, h⟩ := guard_eq_ok.mp h
  obtain ⟨-, h⟩ := guard_eq_ok.mp h
  have hfree : d.has relation = false := Bool.not_eq_true _ ▸ hhas
  exact ⟨hfree, (Except.ok.inj h).symm.trans (put_fresh _ hfree)⟩

theorem createView_ok (hfree : d.has relation = false) (h : createView engine d relation query = .ok d') :
    d' = { d with objects := d.objects ++ [(relation, .view query)] } := by
  obtain ⟨-, -, h⟩ := bind_eq_ok.mp h
  obtain ⟨-, h⟩ := guard_eq_ok.mp h
  obtain ⟨-, h⟩ := guard_eq_ok.mp h
  exact (Except.ok.inj h).symm.trans (put_fresh _ hfree)

theorem mapError_ok {α : Type} {f : Error → Error} {x : Except Error α} {a : α} : x.mapError f = .ok a ↔ x = .ok a := by
  cases x <;> simp [Except.mapError]

end Statements

section Creation

/-- What an item of a plan becomes. -/
def object (engine : Engine K V) (item : Planned K V) : Object K V :=
  match item.sql with
  | some query => .view query
  | none =>
      match item.entry.kind with
      | .table t => .table (copiedRows engine t)
      | .view _ rows => .table (rows.toOption.getD ⟨[], []⟩)

def placed (engine : Engine K V) (item : Planned K V) : Relation × Object K V := (item.entry.relation, object engine item)

def appended (engine : Engine K V) (items : List (Planned K V)) (d : Destination K V) : Destination K V :=
  { d with objects := d.objects ++ items.map (placed engine) }

/-- The items of a plan by what is done with them. -/
structure Sorted (items : List (Planned K V)) : Prop where
  tables : ∀ i ∈ items, ∀ t, i.entry.kind = .table t → i.action = .copyTable ∧ i.sql = none
  views : ∀ i ∈ items, ∀ definition rows, i.entry.kind = .view definition rows →
    (i.action = .preserveView ∧ ∃ query, i.sql = some query) ∨ (i.action = .materializeView ∧ i.sql = none)

variable {items : List (Planned K V)} {item : Planned K V}

theorem copyTable_appends {t : Table V} (hkind : item.entry.kind = .table t) (hsql : item.sql = none)
    (h : copyTable engine d item = .ok d') : d.has item.entry.relation = false ∧ d' = appended engine [item] d := by
  rw [copyTable, hkind] at h
  obtain ⟨hfree, rfl⟩ := createTable_ok (mapError_ok.mp h)
  exact ⟨hfree, by simp [appended, placed, object, hsql, hkind]⟩

theorem preserve_appends {query : Query K} (hsql : item.sql = some query) (hfree : d.has item.entry.relation = false)
    (h : preserve engine d item = .ok d') : d' = appended engine [item] d := by
  rw [preserve, hsql] at h
  obtain rfl := createView_ok hfree (mapError_ok.mp h)
  simp [appended, placed, object, hsql]

/-- Statements that each create the object of an item create those of all items. -/
theorem foldlM_appends {act : Destination K V → Planned K V → Except Error (Destination K V)}
    (hact : ∀ i ∈ items, ∀ d d', d.has i.entry.relation = false → act d i = .ok d' → d' = appended engine [i] d)
    (hnodup : (items.map itemKey).Nodup) (hfresh : ∀ i ∈ items, d.has i.entry.relation = false)
    (h : items.foldlM act d = .ok d') : d' = appended engine items d := by
  induction items generalizing d with
  | nil =>
      obtain rfl := Except.ok.inj h
      simp [appended]
  | cons i items ih =>
      rw [List.foldlM_cons] at h
      obtain ⟨e, he, h⟩ := bind_eq_ok.mp h
      obtain ⟨hi, hrest⟩ := List.forall_mem_cons.mp hfresh
      obtain ⟨hnot, hnodup⟩ := List.nodup_cons.mp hnodup
      obtain rfl := hact i List.mem_cons_self d e hi he
      have hfresh' : ∀ j ∈ items, (appended engine [i] d).has j.entry.relation = false := by
        intro j hj
        rw [not_has_iff]
        intro hmem
        simp only [appended, placed, List.map_cons, List.map_nil, List.map_append, List.mem_append, List.mem_singleton] at hmem
        rcases hmem with hold | hnew
        · exact not_has_iff.mp (hrest j hj) hold
        · exact hnot (List.mem_map.mpr ⟨j, hj, hnew⟩)
      rw [ih (fun j hj => hact j (List.mem_cons_of_mem _ hj)) hnodup hfresh' h]
      simp [appended]

end Creation

section Metadata

variable {items : List (Planned K V)} {item : Planned K V} {relation : Relation} {e : Edge}

def Destination.knows (d : Destination K V) (name : String) : Prop := ∃ n ∈ d.nodes, n.tableName = name

/-- The edge that a materialized View has lost. -/
def Lost (d : Destination K V) (relation parent : Relation) (e : Edge) : Prop :=
  parent.schema = "data" ∧ relation.schema = "data" ∧ parent ≠ relation ∧ e = ⟨parent.name, relation.name⟩ ∧
    d.knows parent.name ∧ d.knows relation.name

/-- Two databases that differ in objects and edges alone. -/
structure SameRecords (d d' : Destination K V) : Prop where
  nodes : d'.nodes = d.nodes
  tokenizerModels : d'.tokenizerModels = d.tokenizerModels
  arrowMetadata : d'.arrowMetadata = d.arrowMetadata

theorem SameRecords.trans {d'' : Destination K V} (h : SameRecords d d') (k : SameRecords d' d'') : SameRecords d d'' :=
  ⟨k.nodes.trans h.nodes, k.tokenizerModels.trans h.tokenizerModels, k.arrowMetadata.trans h.arrowMetadata⟩

theorem SameRecords.lost {parent : Relation} (h : SameRecords d d') : Lost d' relation parent e ↔ Lost d relation parent e := by
  simp only [Lost, Destination.knows, h.nodes]

theorem linkParent_spec (relation : Relation) (d : Destination K V) (parent : Relation) :
    (linkParent relation d parent).objects = d.objects ∧ SameRecords d (linkParent relation d parent) ∧
      ∀ e, e ∈ (linkParent relation d parent).edges ↔ e ∈ d.edges ∨ Lost d relation parent e := by
  unfold linkParent
  split
  · next h =>
      refine ⟨rfl, ⟨rfl, rfl, rfl⟩, fun e => ?_⟩
      have hfound : e ∈ ((d.nodes.filter fun n => n.tableName = parent.name).flatMap fun source =>
          (d.nodes.filter fun n => n.tableName = relation.name).map fun target =>
            (⟨source.tableName, target.tableName⟩ : Edge)) ↔ Lost d relation parent e := by
        simp only [List.mem_flatMap, List.mem_map, List.mem_filter, decide_eq_true_eq, Lost, Destination.knows]
        constructor
        · rintro ⟨a, ⟨ha, hsource⟩, b, ⟨hb, htarget⟩, rfl⟩
          exact ⟨h.1, h.2.1, h.2.2, by rw [hsource, htarget], ⟨a, ha, hsource⟩, ⟨b, hb, htarget⟩⟩
        · rintro ⟨-, -, -, rfl, ⟨a, ha, hsource⟩, ⟨b, hb, htarget⟩⟩
          exact ⟨a, ⟨ha, hsource⟩, b, ⟨hb, htarget⟩, by rw [hsource, htarget]⟩
      dsimp only
      rw [List.mem_append, List.mem_filter, hfound]
      by_cases he : e ∈ d.edges <;> simp [he]
  · next h =>
      refine ⟨rfl, ⟨rfl, rfl, rfl⟩, fun e => ?_⟩
      simp only [iff_self_or]
      rintro ⟨h₁, h₂, h₃, -⟩
      exact (h ⟨h₁, h₂, h₃⟩).elim

theorem linkParents_spec (relation : Relation) (parents : List Relation) (d : Destination K V) :
    (parents.foldl (linkParent relation) d).objects = d.objects ∧ SameRecords d (parents.foldl (linkParent relation) d) ∧
      ∀ e, e ∈ (parents.foldl (linkParent relation) d).edges ↔ e ∈ d.edges ∨ ∃ p ∈ parents, Lost d relation p e := by
  induction parents generalizing d with
  | nil => exact ⟨rfl, ⟨rfl, rfl, rfl⟩, by simp⟩
  | cons p parents ih =>
      obtain ⟨hobjects, hrecords, hedges⟩ := linkParent_spec relation d p
      obtain ⟨hobjects', hrecords', hedges'⟩ := ih (linkParent relation d p)
      refine ⟨hobjects'.trans hobjects, hrecords.trans hrecords', fun e => ?_⟩
      rw [List.foldl_cons, hedges', hedges]
      simp only [List.mem_cons, or_and_right, exists_or, exists_eq_left, hrecords.lost, or_assoc]

def isMaterialized (item : Planned K V) : Bool := item.action = .materializeView

theorem materialize_spec (hview : isMaterialized item = true → item.sql = none ∧ ∃ definition rows, item.entry.kind = .view definition rows)
    (h : materialize engine d item = .ok d') :
    (isMaterialized item = true → d.has item.entry.relation = false ∧ ∃ rows, item.entry.rows = .ok rows) ∧
    d'.objects = d.objects ++ ([item].filter isMaterialized).map (placed engine) ∧ SameRecords d d' ∧
      ∀ e, e ∈ d'.edges ↔ e ∈ d.edges ∨
        isMaterialized item = true ∧ ∃ p ∈ item.parents, Lost d item.entry.relation p e := by
  cases hmaterialized : isMaterialized item with
  | false =>
      have hd : d' = d := by
        rw [materialize] at h
        split at h
        · next haction => simp [isMaterialized, haction] at hmaterialized
        · exact (Except.ok.inj h).symm
      subst hd
      exact ⟨fun h => (by cases h), by simp [hmaterialized], ⟨rfl, rfl, rfl⟩, by simp⟩
  | true =>
      obtain ⟨hsql, definition, given, hkind⟩ := hview hmaterialized
      have haction : item.action = .materializeView := by simpa [isMaterialized] using hmaterialized
      rw [materialize, haction] at h
      obtain ⟨e, he, h⟩ := bind_eq_ok.mp h
      obtain ⟨rows, hrows, htable⟩ := bind_eq_ok.mp (mapError_ok.mp he)
      obtain ⟨hfree, rfl⟩ := createTable_ok htable
      obtain rfl := Except.ok.inj h
      obtain ⟨hobjects, hrecords, hedges⟩ := linkParents_spec item.entry.relation item.parents
        { d with objects := d.objects ++ [(item.entry.relation, .table rows)] }
      have hgiven : given = .ok rows := by simpa [Entry.rows, hkind] using hrows
      refine ⟨fun _ => ⟨hfree, rows, hrows⟩, ?_, ⟨hrecords.nodes, hrecords.tokenizerModels, hrecords.arrowMetadata⟩, fun e => ?_⟩
      · rw [hobjects]
        simp [hmaterialized, placed, object, hsql, hkind, hgiven, Except.toOption]
      · rw [hedges, and_iff_right rfl]
        rfl

theorem materializeAll_spec (hview : ∀ i ∈ items, isMaterialized i = true → i.sql = none ∧
      ∃ definition rows, i.entry.kind = .view definition rows) (h : items.foldlM (materialize engine) d = .ok d') :
    (∀ i ∈ items, isMaterialized i = true → ∃ rows, i.entry.rows = .ok rows) ∧
    d'.objects = d.objects ++ (items.filter isMaterialized).map (placed engine) ∧ SameRecords d d' ∧
      ∀ e, e ∈ d'.edges ↔ e ∈ d.edges ∨
        ∃ i ∈ items, isMaterialized i = true ∧ ∃ p ∈ i.parents, Lost d i.entry.relation p e := by
  induction items generalizing d with
  | nil =>
      obtain rfl := Except.ok.inj h
      exact ⟨List.forall_mem_nil _, by simp, ⟨rfl, rfl, rfl⟩, by simp⟩
  | cons i items ih =>
      rw [List.foldlM_cons] at h
      obtain ⟨m, hm, h⟩ := bind_eq_ok.mp h
      obtain ⟨hi, hrest⟩ := List.forall_mem_cons.mp hview
      obtain ⟨hrows, hobjects, hrecords, hedges⟩ := materialize_spec hi hm
      obtain ⟨hrows', hobjects', hrecords', hedges'⟩ := ih hrest h
      refine ⟨List.forall_mem_cons.mpr ⟨fun hmat => (hrows hmat).2, hrows'⟩, ?_, hrecords.trans hrecords', fun e => ?_⟩
      · rw [hobjects', hobjects, List.append_assoc, ← List.map_append, ← List.filter_append, List.singleton_append]
      · rw [hedges', hedges]
        simp only [List.mem_cons, or_and_right, exists_or, exists_eq_left, hrecords.lost, or_assoc]

/-- The records that a relation brings along. -/
def copiedNodes (s : Source K V) (relation : Relation) : List Node :=
  if relation.schema = "data" then s.nodes.filter fun n => n.tableName = relation.name else []

def copiedModels (s : Source K V) (relation : Relation) : List TokenizerModel :=
  if relation.schema = "data" then s.tokenizerModels.filter fun m => m.tableName = relation.name else []

def copiedAnnotations (s : Source K V) (relation : Relation) : List ArrowMetadata :=
  s.arrowMetadata.filter fun a => a.schemaName = relation.schema && a.relationName = relation.name

/-- The records that the items of a plan bring along. -/
def allOf {α : Type} (copied : Relation → List α) (items : List (Planned K V)) : List α :=
  items.flatMap fun i => copied i.entry.relation

theorem copyMetadata_foldl (s : Source K V) (items : List (Planned K V)) (d : Destination K V) :
    items.foldl (copyMetadata s) d =
      { d with
        nodes := d.nodes ++ allOf (copiedNodes s) items
        tokenizerModels := d.tokenizerModels ++ allOf (copiedModels s) items
        arrowMetadata := d.arrowMetadata ++ allOf (copiedAnnotations s) items } := by
  induction items generalizing d with
  | nil => simp [allOf]
  | cons item items ih =>
      rw [List.foldl_cons, ih]
      by_cases hschema : item.entry.relation.schema = "data" <;>
        simp [copyMetadata, allOf, copiedNodes, copiedModels, copiedAnnotations, hschema]

end Metadata

section Writing

variable {objects : List ObjectTarget} {entries : List (Entry K V)} {items : List (Planned K V)}

/-- The items of the plan of a selection. -/
def planned (engine : Engine K V) (s : Source K V) (entries : List (Entry K V)) : List (Planned K V) :=
  entries.map (planEntry engine s (entries.map fun e => key e.relation))

theorem planned_keys : (planned engine s entries).map itemKey = entries.map fun e => key e.relation := by
  simp [planned, itemKey, Function.comp_def]

theorem planned_sorted : Sorted (planned engine s entries) := by
  have hentry {i : Planned K V} (hi : i ∈ planned engine s entries) : 
      ∃ e, i = planEntry engine s (entries.map fun e => key e.relation) e := by
    obtain ⟨e, -, rfl⟩ := List.mem_map.mp hi
    exact ⟨e, rfl⟩
  constructor
  · intro i hi t ht
    obtain ⟨e, rfl⟩ := hentry hi
    rw [planEntry_entry] at ht
    rw [planEntry, ht]
    exact ⟨rfl, rfl⟩
  · intro i hi definition rows hkind
    obtain ⟨e, rfl⟩ := hentry hi
    rw [planEntry_entry] at hkind
    rw [planEntry, hkind]
    dsimp only
    have hview := @planView_spec _ _ engine s (entries.map fun e => key e.relation) e definition
    rcases hview with ⟨query, -, -, -, heq⟩ | ⟨haction, hsql, -⟩
    · exact .inl ⟨by rw [heq], _, by rw [heq]⟩
    · exact .inr ⟨haction, hsql⟩

/-- Tables, materialized and preserved Views are all items. -/
theorem sorted_perm (h : Sorted items) :
    (items.filter (fun i => i.entry.kind.isTable) ++ items.filter isMaterialized ++ items.filter isPreserved).Perm items := by
  have hsplit := List.filter_append_perm (fun i : Planned K V => i.entry.kind.isTable) items
  have hrest := List.filter_append_perm isMaterialized (items.filter fun i => !i.entry.kind.isTable)
  have hmaterialized : (items.filter fun i => !i.entry.kind.isTable).filter isMaterialized = items.filter isMaterialized := by
    rw [List.filter_filter]
    apply List.filter_congr
    intro i hi
    cases hkind : i.entry.kind with
    | table t => simp [Kind.isTable, isMaterialized, (h.tables i hi t hkind).1]
    | view definition rows => simp [Kind.isTable]
  have hpreserved : (items.filter fun i => !i.entry.kind.isTable).filter (fun i => !isMaterialized i) = items.filter isPreserved := by
    rw [List.filter_filter]
    apply List.filter_congr
    intro i hi
    cases hkind : i.entry.kind with
    | table t => simp [Kind.isTable, isPreserved, (h.tables i hi t hkind).1]
    | view definition rows =>
        rcases h.views i hi definition rows hkind with ⟨haction, -⟩ | ⟨haction, -⟩ <;>
          simp [Kind.isTable, isMaterialized, isPreserved, haction]
  rw [hmaterialized, hpreserved] at hrest
  rw [List.append_assoc]
  exact (hrest.append_left _).trans hsplit

/-- What an export without errors has written. -/
structure Written (engine : Engine K V) (s : Source K V) (entries : List (Entry K V)) (tables views : List (Planned K V))
    (d : Destination K V) : Prop where
  copied : tables.Perm ((planned engine s entries).filter fun i => i.entry.kind.isTable)
  preserved : views.Perm ((planned engine s entries).filter isPreserved)
  order : ReadyOrder itemKey viewNeeds (((planned engine s entries).filter fun i => !isPreserved i).map itemKey) views
  objects : d.objects = (tables ++ (planned engine s entries).filter isMaterialized ++ views).map (placed engine)
  rows : ∀ i ∈ planned engine s entries, isMaterialized i = true → ∃ rows, i.entry.rows = .ok rows
  nodes : d.nodes = allOf (copiedNodes s) (planned engine s entries)
  tokenizerModels : d.tokenizerModels = allOf (copiedModels s) (planned engine s entries)
  arrowMetadata : d.arrowMetadata = allOf (copiedAnnotations s) (planned engine s entries)
  edges : ∀ e, e ∈ d.edges ↔ (e ∈ s.edges ∧ d.knows e.sourceName ∧ d.knows e.targetName) ∨
    ∃ i ∈ planned engine s entries, isMaterialized i = true ∧ ∃ p ∈ i.parents, Lost d i.entry.relation p e

theorem fresh_of_disjoint {old : List (Planned K V)} (hobjects : d.objects = old.map (placed engine))
    (hdisjoint : ∀ i ∈ items, ∀ j ∈ old, itemKey i ≠ itemKey j) : ∀ i ∈ items, d.has i.entry.relation = false := by
  intro i hi
  rw [not_has_iff, hobjects]
  intro hmem
  simp only [List.map_map, List.mem_map, Function.comp_apply, placed] at hmem
  obtain ⟨j, hj, hkey⟩ := hmem
  exact hdisjoint i hi j hj hkey.symm

theorem copySelectedMetadata_spec (s : Source K V) (items : List (Planned K V)) (d : Destination K V) :
    (copySelectedMetadata s items d).objects = d.objects ∧
    (copySelectedMetadata s items d).nodes = d.nodes ++ allOf (copiedNodes s) items ∧
    (copySelectedMetadata s items d).tokenizerModels = d.tokenizerModels ++ allOf (copiedModels s) items ∧
    (copySelectedMetadata s items d).arrowMetadata = d.arrowMetadata ++ allOf (copiedAnnotations s) items ∧
    ∀ e, e ∈ (copySelectedMetadata s items d).edges ↔ e ∈ d.edges ∨
      e ∈ s.edges ∧ (copySelectedMetadata s items d).knows e.sourceName ∧
        (copySelectedMetadata s items d).knows e.targetName := by
  rw [copySelectedMetadata, copyMetadata_foldl]
  refine ⟨rfl, rfl, rfl, rfl, fun e => ?_⟩
  dsimp only
  rw [List.mem_append, List.mem_filter]
  simp only [Destination.knows, Bool.and_eq_true, List.any_eq_true, decide_eq_true_eq]

/-- A materialized item is a View that has no query to keep. -/
theorem Sorted.materialized (h : Sorted items) {i : Planned K V} (hi : i ∈ items) (hmaterialized : isMaterialized i = true) :
    i.sql = none ∧ ∃ definition rows, i.entry.kind = .view definition rows := by
  have haction : i.action = .materializeView := by simpa [isMaterialized] using hmaterialized
  cases hkind : i.entry.kind with
  | table t =>
      have hcopy := (h.tables i hi t hkind).1
      rw [haction] at hcopy
      cases hcopy
  | view definition rows =>
      rcases h.views i hi definition rows hkind with ⟨hpreserve, -⟩ | ⟨-, hsql⟩
      · rw [haction] at hpreserve
        cases hpreserve
      · exact ⟨hsql, definition, rows, rfl⟩

theorem Sorted.preserved (h : Sorted items) {i : Planned K V} (hi : i ∈ items) (hpreserved : isPreserved i = true) :
    (∃ query, i.sql = some query) ∧ ∃ definition rows, i.entry.kind = .view definition rows := by
  have haction : i.action = .preserveView := by simpa [isPreserved] using hpreserved
  cases hkind : i.entry.kind with
  | table t =>
      have hcopy := (h.tables i hi t hkind).1
      rw [haction] at hcopy
      cases hcopy
  | view definition rows =>
      rcases h.views i hi definition rows hkind with ⟨-, hsql⟩ | ⟨hmaterialize, -⟩
      · exact ⟨hsql, definition, rows, rfl⟩
      · rw [haction] at hmaterialize
        cases hmaterialize

theorem writeSelected_spec (h : writeSelected engine s objects = .ok d) :
    ∃ entries tables views, Selection s objects entries ∧ Written engine s entries tables views d := by
  obtain ⟨p, hplan, h⟩ := bind_eq_ok.mp h
  split at h
  · cases h
  · next hhead =>
      obtain ⟨entries, hselection, hitems⟩ := plan_spec hplan (List.head?_eq_none_iff.mp hhead)
      change p.items = planned engine s entries at hitems
      rw [hitems] at h
      obtain ⟨copied, hcopied, h⟩ := bind_eq_ok.mp h
      obtain ⟨materialized, hmaterialized, hpreserved⟩ := bind_eq_ok.mp h
      have hsorted : Sorted (planned engine s entries) := planned_sorted
      have hperm := sorted_perm hsorted
      have hkeys : ((planned engine s entries).map itemKey).Nodup := planned_keys ▸ hselection.distinct
      have hall := ((hperm.map itemKey).nodup_iff).mpr hkeys
      rw [List.map_append, List.map_append, List.append_assoc] at hall
      obtain ⟨hnodupT, hnodupR, hdisjointT⟩ := List.nodup_append.mp hall
      obtain ⟨hnodupM, hnodupP, hdisjointM⟩ := List.nodup_append.mp hnodupR
      obtain ⟨tables, htables, -, hfoldT⟩ := drain_spec hcopied
      obtain ⟨views, hviews, horder, hfoldP⟩ := drain_spec hpreserved
      have hmemT {i : Planned K V} (hi : i ∈ tables) : i ∈ planned engine s entries ∧ ∃ t, i.entry.kind = .table t := by
        obtain ⟨hmem, htable⟩ := List.mem_filter.mp (htables.subset hi)
        refine ⟨hmem, ?_⟩
        cases hkind : i.entry.kind with
        | table t => exact ⟨t, rfl⟩
        | view definition rows => simp [hkind, Kind.isTable] at htable
      have hcopied' : copied = appended engine tables freshProject := by
        refine foldlM_appends (fun i hi d d' _ h => ?_) ((htables.map itemKey).nodup_iff.mpr hnodupT) (fun _ _ => rfl) hfoldT
        obtain ⟨hmem, t, ht⟩ := hmemT hi
        exact (copyTable_appends ht (hsorted.tables i hmem t ht).2 h).2
      obtain ⟨hobjects, hnodes, hmodels, hannotations, hedges⟩ :=
        copySelectedMetadata_spec s (planned engine s entries) copied
      obtain ⟨hrows, hobjects', hrecords, hedges'⟩ := materializeAll_spec (fun i hi => hsorted.materialized hi) hmaterialized
      rw [hobjects, hcopied'] at hobjects'
      have hold : materialized.objects = (tables ++ (planned engine s entries).filter isMaterialized).map (placed engine) := by
        rw [hobjects']
        simp [appended, freshProject]
      have hfresh : ∀ i ∈ views, materialized.has i.entry.relation = false := by
        refine fresh_of_disjoint hold fun i hi j hj hkey => ?_
        have hi' := List.mem_map_of_mem (f := itemKey) (hviews.subset hi)
        rcases List.mem_append.mp hj with hj | hj
        · exact hdisjointT _ (List.mem_map_of_mem (htables.subset hj)) _ (List.mem_append_right _ hi') hkey.symm
        · exact hdisjointM _ (List.mem_map_of_mem hj) _ hi' hkey.symm
      have hfinal : d = appended engine views materialized := by
        refine foldlM_appends (fun i hi d d' hfree h => ?_) ((hviews.map itemKey).nodup_iff.mpr hnodupP) hfresh hfoldP
        obtain ⟨hmem, hpreserve⟩ := List.mem_filter.mp (hviews.subset hi)
        obtain ⟨⟨query, hsql⟩, -⟩ := hsorted.preserved hmem hpreserve
        exact preserve_appends hsql hfree h
      refine ⟨entries, tables, views, hselection, htables, hviews, horder, ?_, hrows, ?_, ?_, ?_, fun e => ?_⟩
      · rw [hfinal, appended, hold, ← List.map_append]
      · rw [hfinal, appended, hrecords.nodes, hnodes, hcopied']
        rfl
      · rw [hfinal, appended, hrecords.tokenizerModels, hmodels, hcopied']
        rfl
      · rw [hfinal, appended, hrecords.arrowMetadata, hannotations, hcopied']
        rfl
      · have hnone : copied.edges = [] := by rw [hcopied']; rfl
        rw [hfinal]
        change e ∈ materialized.edges ↔ _
        rw [hedges', hedges, hnone]
        simp only [List.not_mem_nil, false_or, Destination.knows, Lost, appended, hrecords.nodes]

end Writing

end Wordflow.Exports
