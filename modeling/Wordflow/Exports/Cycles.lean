import Wordflow.Exports.Reproduction

namespace Wordflow.Exports

open Library Library.Fallible Library.Identifier Library.Worklist Objects Tables

variable {K V : Type} {engine : Engine K V} {s : Source K V} {d d' : Destination K V}

section Statements

variable {relation : Relation} {rows : Rows V} {parents : List Relation} {query : Query K}

def keys (d : Destination K V) : List (List Char × List Char) := d.objects.map fun o => key o.1

theorem keys_append (d : Destination K V) (object : Object K V) :
    keys { d with objects := d.objects ++ [(relation, object)] } = keys d ++ [key relation] := by
  simp [keys]

theorem createTable_total (hstatement : engine.statement relation = .ok ()) (hfree : key relation ∉ keys d)
    (hparents : ∀ p ∈ parents, key p ≠ key relation → key p ∈ keys d) :
    createTable engine d relation rows parents = .ok { d with objects := d.objects ++ [(relation, .table rows)] } := by
  have hhas : d.has relation = false := not_has_iff.mpr hfree
  have hnone : (parents.any fun p => !p.same relation && !d.has p) = false := by
    rw [List.any_eq_false]
    intro p hp hmissing
    rw [Bool.and_eq_true, Bool.not_eq_true', Bool.not_eq_true', ← Bool.not_eq_true, ← key_eq_iff, not_has_iff] at hmissing
    exact hmissing.2 (hparents p hp hmissing.1)
  rw [createTable, hstatement]
  change (if d.has relation = true then _ else _) = _
  rw [hhas, hnone, ← put_fresh _ hhas]
  rfl

theorem createView_total (hstatement : engine.statement relation = .ok ()) (hfree : key relation ∉ keys d)
    (hreads : ∀ p ∈ reads query, key p ∈ keys d) :
    createView engine d relation query = .ok { d with objects := d.objects ++ [(relation, .view query)] } := by
  have hhas : d.has relation = false := not_has_iff.mpr hfree
  have hlookup : d.lookup relation = none := Option.not_isSome_iff_eq_none.mp (by rw [← Destination.has, hhas]; decide)
  have hnone : (query.tables.any fun t => !t.cte && !d.has ⟨t.schema, t.name⟩) = false := by
    rw [List.any_eq_false]
    intro t ht hmissing
    rw [Bool.and_eq_true, Bool.not_eq_true' (d.has _), not_has_iff] at hmissing
    exact hmissing.2 (hreads _ (List.mem_map.mpr ⟨t, List.mem_filter.mpr ⟨ht, hmissing.1⟩, rfl⟩))
  rw [createView, hstatement, ← put_fresh _ hhas]
  change (if ((d.lookup relation).any fun o => !o.2.isView) = true then _ else _) = _
  rw [hlookup, hnone]
  rfl

end Statements

section Loops

variable {items : List (Planned K V)} {item : Planned K V}

/-- What is ready is what the destination has. -/
def Holds (ready : List (List Char × List Char)) (d : Destination K V) : Prop := ∀ k, k ∈ ready ↔ k ∈ keys d

theorem Holds.cons {ready : List (List Char × List Char)} {relation : Relation} {object : Object K V} (h : Holds ready d) :
    Holds (key relation :: ready) { d with objects := d.objects ++ [(relation, object)] } := by
  intro k
  rw [keys_append, List.mem_append, List.mem_singleton, List.mem_cons, h k, or_comm]

theorem holds_fresh : Holds [] (freshProject : Destination K V) := fun _ => Iff.rfl

theorem copyTable_acts (hstatement : ∀ r, engine.statement r = .ok ()) (htables : ∀ i ∈ items, ∃ t, i.entry.kind = .table t) :
    Acts itemKey tableNeeds (copyTable engine) items Holds := by
  intro i hi ready d hholds hneeds hfree
  obtain ⟨t, ht⟩ := htables i hi
  have hcreated : createTable engine d i.entry.relation (copiedRows engine t) i.parents =
      .ok { d with objects := d.objects ++ [(i.entry.relation, .table (copiedRows engine t))] } := by
    apply createTable_total (hstatement _)
    · exact fun hmem => hfree ((hholds _).mpr hmem)
    · intro p hp hother
      refine (hholds _).mp (hneeds (List.mem_filter.mpr ⟨List.mem_map_of_mem hp, ?_⟩))
      exact decide_eq_true hother
  refine ⟨{ d with objects := d.objects ++ [(i.entry.relation, .table (copiedRows engine t))] }, ?_, hholds.cons⟩
  rw [copyTable, ht]
  exact mapError_ok.mpr hcreated

theorem preserve_acts (hstatement : ∀ r, engine.statement r = .ok ())
    (hviews : ∀ i ∈ items, ∃ query, i.sql = some query ∧ reads query = i.parents) :
    Acts itemKey viewNeeds (preserve engine) items Holds := by
  intro i hi ready d hholds hneeds hfree
  obtain ⟨query, hsql, hreads⟩ := hviews i hi
  have hcreated := @createView_total _ _ engine d i.entry.relation query (hstatement _)
    (fun hmem => hfree ((hholds _).mpr hmem))
    (fun p hp => (hholds _).mp (hneeds (List.mem_map_of_mem (hreads ▸ hp))))
  refine ⟨{ d with objects := d.objects ++ [(i.entry.relation, .view query)] }, ?_, hholds.cons⟩
  rw [preserve, hsql]
  exact mapError_ok.mpr hcreated

theorem materializeAll_total (hstatement : ∀ r, engine.statement r = .ok ()) (hsorted : Sorted items)
    (hrows : ∀ i ∈ items, isMaterialized i = true → ∃ rows, i.entry.rows = .ok rows)
    (hnodup : (items.map itemKey).Nodup) (hfree : ∀ i ∈ items, isMaterialized i = true → itemKey i ∉ keys d) :
    ∃ d', items.foldlM (materialize engine) d = .ok d' := by
  induction items generalizing d with
  | nil => exact ⟨d, rfl⟩
  | cons i items ih =>
      obtain ⟨hi, hrest⟩ := List.forall_mem_cons.mp hfree
      obtain ⟨hshown, hrows⟩ := List.forall_mem_cons.mp hrows
      obtain ⟨hnot, hnodup⟩ := List.nodup_cons.mp hnodup
      have htail : Sorted items :=
        ⟨fun j hj => hsorted.tables j (List.mem_cons_of_mem _ hj), fun j hj => hsorted.views j (List.mem_cons_of_mem _ hj)⟩
      have hfirst : ∃ e, materialize engine d i = .ok e := by
        cases hmaterialized : isMaterialized i with
        | false =>
            refine ⟨d, ?_⟩
            rw [materialize]
            split
            · next haction => simp [isMaterialized, haction] at hmaterialized
            · rfl
        | true =>
            obtain ⟨rows, hshown⟩ := hshown hmaterialized
            have haction : i.action = .materializeView := by simpa [isMaterialized] using hmaterialized
            have hcreated := @createTable_total _ _ engine d i.entry.relation rows [] (hstatement _) (hi hmaterialized)
              (fun p hp => absurd hp List.not_mem_nil)
            rw [materialize, haction, hshown]
            exact ⟨_, bind_eq_ok.mpr ⟨_, mapError_ok.mpr hcreated, rfl⟩⟩
      obtain ⟨e, he⟩ := hfirst
      obtain ⟨-, hobjects, -, -⟩ := materialize_spec (fun h => hsorted.materialized List.mem_cons_self h) he
      have hfresh : ∀ j ∈ items, isMaterialized j = true → itemKey j ∉ keys e := by
        intro j hj hmaterialized hmem
        rw [keys, hobjects, List.map_append, List.mem_append] at hmem
        rcases hmem with hold | hnew
        · exact hrest j hj hmaterialized hold
        · simp only [List.map_map, List.mem_map, List.mem_filter, List.mem_singleton, Function.comp_apply] at hnew
          obtain ⟨_, ⟨rfl, -⟩, hkey⟩ := hnew
          exact hnot (List.mem_map.mpr ⟨j, hj, hkey.symm⟩)
      obtain ⟨d', hd'⟩ := ih htail hrows hnodup hfresh
      refine ⟨d', ?_⟩
      rw [List.foldlM_cons]
      exact bind_eq_ok.mpr ⟨e, he, hd'⟩

end Loops

section Result

variable {objects : List ObjectTarget} {entries : List (Entry K V)} {p : Plan K V}

def isTable (item : Planned K V) : Bool := item.entry.kind.isTable

theorem Sorted.kept {items : List (Planned K V)} {i : Planned K V} (h : Sorted items) (hi : i ∈ items) :
    isPreserved i = false ↔ isTable i = true ∨ isMaterialized i = true := by
  cases hkind : i.entry.kind with
  | table t => simp [isPreserved, isTable, hkind, Kind.isTable, (h.tables i hi t hkind).1]
  | view definition rows =>
      rcases h.views i hi definition rows hkind with ⟨haction, -⟩ | ⟨haction, -⟩ <;>
        simp [isPreserved, isTable, isMaterialized, hkind, Kind.isTable, haction]

theorem isTable_iff {i : Planned K V} : isTable i = true ↔ ∃ t, i.entry.kind = .table t := by
  rw [isTable]
  cases i.entry.kind <;> simp [Kind.isTable]

/-- Foreign keys of selected Tables name selected Tables. -/
theorem tableNeeds_closed (hselection : Selection s objects entries) :
    ∀ i ∈ (planned engine s entries).filter isTable, ∀ k ∈ tableNeeds i,
      k ∈ ((planned engine s entries).filter isTable).map itemKey := by
  intro i hi k hk
  obtain ⟨hi, htable⟩ := List.mem_filter.mp hi
  obtain ⟨t, ht⟩ := isTable_iff.mp htable
  obtain ⟨e, he, rfl⟩ := List.mem_map.mp hi
  rw [planEntry_entry] at ht
  obtain ⟨hk, -⟩ := List.mem_filter.mp hk
  obtain ⟨p, hp, rfl⟩ := List.mem_map.mp hk
  rw [planEntry, ht] at hp
  obtain ⟨name, hname, rfl⟩ := List.mem_map.mp hp
  obtain ⟨f, hf, hkey⟩ := List.mem_map.mp (hselection.parents e he t ht name hname)
  obtain ⟨parent, hparent, hsame, hkind⟩ := s.foreign e (hselection.mem e he) t ht name hname
  obtain rfl := s.eq_of_key hparent (hselection.mem f hf) (hsame.trans hkey.symm)
  refine List.mem_map.mpr ⟨_, List.mem_filter.mpr ⟨List.mem_map_of_mem hf, ?_⟩, ?_⟩
  · rwa [isTable, planEntry_entry]
  · rw [itemKey, planEntry_entry, hkey]

theorem viewNeeds_closed :
    ∀ i ∈ (planned engine s entries).filter isPreserved, ∀ k ∈ viewNeeds i,
      k ∈ ((planned engine s entries).filter fun i => !isPreserved i).map itemKey ∨
        k ∈ ((planned engine s entries).filter isPreserved).map itemKey := by
  intro i hi k hk
  obtain ⟨hi, hpreserved⟩ := List.mem_filter.mp hi
  obtain ⟨-, -, -, -, -, -, -, -, -, hselected⟩ := planned_preserved hi hpreserved
  obtain ⟨p, hp, rfl⟩ := List.mem_map.mp hk
  have hkey : key p ∈ (planned engine s entries).map itemKey := by
    rw [planned_keys]
    exact hselected p hp
  obtain ⟨j, hj, hjkey⟩ := List.mem_map.mp hkey
  cases hkept : isPreserved j with
  | false => exact .inl (List.mem_map.mpr ⟨j, List.mem_filter.mpr ⟨hj, by rw [hkept]; rfl⟩, hjkey⟩)
  | true => exact .inr (List.mem_map.mpr ⟨j, List.mem_filter.mpr ⟨hj, hkept⟩, hjkey⟩)

/-- What must not go wrong for the order of the statements alone to decide. -/
structure Sound (engine : Engine K V) (items : List (Planned K V)) : Prop where
  statement : ∀ r, engine.statement r = .ok ()
  commit : engine.commit = .ok ()
  rows : ∀ i ∈ items, i.action = .materializeView → ∃ rows, i.entry.rows = .ok rows

section Phases

theorem nodup_filter {q : Planned K V → Bool} (hselection : Selection s objects entries) :
    (((planned engine s entries).filter q).map itemKey).Nodup :=
  (planned_keys ▸ hselection.distinct : ((planned engine s entries).map itemKey).Nodup).sublist (List.filter_sublist.map _)

theorem eq_of_itemKey (hselection : Selection s objects entries) {i j : Planned K V} (hi : i ∈ planned engine s entries)
    (hj : j ∈ planned engine s entries) (hkey : itemKey i = itemKey j) : i = j :=
  List.inj_on_of_nodup_map (planned_keys ▸ hselection.distinct : ((planned engine s entries).map itemKey).Nodup) hi hj hkey

theorem keys_of_placed {placements : List (Planned K V)} (h : d.objects = placements.map (placed engine)) :
    keys d = placements.map itemKey := by
  rw [keys, h, List.map_map]
  rfl

theorem copySelectedTables_objects (hselection : Selection s objects entries)
    (h : copySelectedTables engine (planned engine s entries) freshProject = .ok d) :
    ∃ tables, tables.Perm ((planned engine s entries).filter isTable) ∧ ReadyOrder itemKey tableNeeds [] tables ∧
      d.objects = tables.map (placed engine) := by
  obtain ⟨tables, hperm, horder, hfold⟩ := drain_spec h
  have hcopied : d = appended engine tables freshProject := by
    refine foldlM_appends (fun i hi d d' _ h => ?_) ((hperm.map itemKey).nodup_iff.mpr (nodup_filter hselection))
      (fun _ _ => rfl) hfold
    obtain ⟨hmem, htable⟩ := List.mem_filter.mp (hperm.subset hi)
    obtain ⟨t, ht⟩ := isTable_iff.mp htable
    exact (copyTable_appends ht (planned_sorted.tables i hmem t ht).2 h).2
  refine ⟨tables, hperm, horder, ?_⟩
  rw [hcopied, appended]
  rfl

theorem copySelectedTables_ok_iff (hstatement : ∀ r, engine.statement r = .ok ()) (hselection : Selection s objects entries) :
    (∃ d, copySelectedTables engine (planned engine s entries) freshProject = .ok d) ↔
      Acyclic itemKey tableNeeds ((planned engine s entries).filter isTable) := by
  constructor
  · rintro ⟨d, h⟩
    obtain ⟨tables, hperm, horder, -⟩ := copySelectedTables_objects hselection h
    exact horder.acyclic (fun _ => hperm.mem_iff)
      (fun i hi j hj => eq_of_itemKey hselection (List.mem_filter.mp hi).1 (List.mem_filter.mp hj).1) fun _ _ => List.not_mem_nil
  · intro hacyclic
    refine drain_total (copyTable_acts hstatement fun i hi => isTable_iff.mp (List.mem_filter.mp hi).2) (List.Subset.refl _)
      (nodup_filter hselection) (fun _ _ => List.not_mem_nil) ?_ hacyclic holds_fresh (Nat.le_refl _)
    exact fun i hi k hk => .inr (tableNeeds_closed hselection i hi k hk)

theorem copySelectedTables_error {e : Error} (hstatement : ∀ r, engine.statement r = .ok ())
    (hselection : Selection s objects entries) (h : copySelectedTables engine (planned engine s entries) freshProject = .error e) :
    e = tableCycle := by
  have hend : (∃ d, copySelectedTables engine (planned engine s entries) freshProject = .ok d) ∨
      copySelectedTables engine (planned engine s entries) freshProject = .error tableCycle :=
    drain_ok_or_stuck (copyTable_acts hstatement fun i hi => isTable_iff.mp (List.mem_filter.mp hi).2) (List.Subset.refl _)
      (nodup_filter hselection) (fun _ _ => List.not_mem_nil) holds_fresh
  rcases hend with ⟨d, hd⟩ | hstuck
  · cases hd.symm.trans h
  · exact (Except.error.inj (hstuck.symm.trans h)).symm

/-- The Views that become Tables are all created. -/
theorem materialized_ok (hsound : Sound engine (planned engine s entries)) (hselection : Selection s objects entries)
    (h : copySelectedTables engine (planned engine s entries) freshProject = .ok d) :
    ∃ d', (planned engine s entries).foldlM (materialize engine) (copySelectedMetadata s (planned engine s entries) d) = .ok d' ∧
      Holds (((planned engine s entries).filter fun i => !isPreserved i).map itemKey) d' := by
  obtain ⟨tables, hperm, -, hobjects⟩ := copySelectedTables_objects hselection h
  obtain ⟨hcopied, -⟩ := copySelectedMetadata_spec s (planned engine s entries) d
  have hsorted : Sorted (planned engine s entries) := planned_sorted
  have hfree : ∀ i ∈ planned engine s entries, isMaterialized i = true →
      itemKey i ∉ keys (copySelectedMetadata s (planned engine s entries) d) := by
    intro i hi hmaterialized hmem
    rw [keys_of_placed (hcopied.trans hobjects)] at hmem
    obtain ⟨j, hj, hkey⟩ := List.mem_map.mp hmem
    obtain ⟨hj, htable⟩ := List.mem_filter.mp (hperm.subset hj)
    obtain rfl := eq_of_itemKey hselection hj hi hkey
    obtain ⟨t, ht⟩ := isTable_iff.mp htable
    rw [isMaterialized, (hsorted.tables j hj t ht).1] at hmaterialized
    cases hmaterialized
  have hkeys : ((planned engine s entries).map itemKey).Nodup := planned_keys ▸ hselection.distinct
  obtain ⟨d', hd'⟩ := materializeAll_total hsound.statement hsorted
    (fun i hi hmaterialized => hsound.rows i hi (by simpa [isMaterialized] using hmaterialized)) hkeys hfree
  obtain ⟨-, hobjects', -, -⟩ := materializeAll_spec (fun i hi => hsorted.materialized hi) hd'
  refine ⟨d', hd', fun k => ?_⟩
  rw [hcopied, hobjects, ← List.map_append] at hobjects'
  rw [keys_of_placed hobjects']
  simp only [List.mem_map, List.mem_append, List.mem_filter, hperm.mem_iff, Bool.not_eq_true', ← and_or_left]
  refine exists_congr fun i => and_congr_left fun _ => and_congr_right fun hi => ?_
  exact hsorted.kept hi

/-- An item that waits is not ready. -/
theorem not_ready (hselection : Selection s objects entries) :
    ∀ i ∈ (planned engine s entries).filter isPreserved,
      itemKey i ∉ ((planned engine s entries).filter fun i => !isPreserved i).map itemKey := by
  intro i hi hmem
  obtain ⟨j, hj, hkey⟩ := List.mem_map.mp hmem
  obtain ⟨hj, hnot⟩ := List.mem_filter.mp hj
  obtain ⟨hi, hpreserved⟩ := List.mem_filter.mp hi
  obtain rfl := eq_of_itemKey hselection hj hi hkey
  rw [hpreserved] at hnot
  cases hnot

theorem preserve_acts_planned (hstatement : ∀ r, engine.statement r = .ok ()) :
    Acts itemKey viewNeeds (preserve engine) ((planned engine s entries).filter isPreserved) Holds := by
  refine preserve_acts hstatement fun i hi => ?_
  obtain ⟨hi, hpreserved⟩ := List.mem_filter.mp hi
  obtain ⟨-, portable, -, -, hsql, -, -, hreads, -, -⟩ := planned_preserved hi hpreserved
  exact ⟨portable, hsql, hreads⟩

theorem preserveViews_ok_iff (hstatement : ∀ r, engine.statement r = .ok ()) (hselection : Selection s objects entries)
    (hholds : Holds (((planned engine s entries).filter fun i => !isPreserved i).map itemKey) d) :
    (∃ d', preserveViews engine (planned engine s entries) d = .ok d') ↔
      Acyclic itemKey viewNeeds ((planned engine s entries).filter isPreserved) := by
  constructor
  · rintro ⟨d', h⟩
    obtain ⟨views, hperm, horder, -⟩ := drain_spec h
    exact horder.acyclic (fun _ => hperm.mem_iff)
      (fun i hi j hj => eq_of_itemKey hselection (List.mem_filter.mp hi).1 (List.mem_filter.mp hj).1) (not_ready hselection)
  · intro hacyclic
    exact drain_total (preserve_acts_planned hstatement) (List.Subset.refl _) (nodup_filter hselection) (not_ready hselection)
      viewNeeds_closed hacyclic hholds (Nat.le_refl _)

theorem preserveViews_error {e : Error} (hstatement : ∀ r, engine.statement r = .ok ()) (hselection : Selection s objects entries)
    (hholds : Holds (((planned engine s entries).filter fun i => !isPreserved i).map itemKey) d)
    (h : preserveViews engine (planned engine s entries) d = .error e) : e = viewCycle := by
  have hend : (∃ d', preserveViews engine (planned engine s entries) d = .ok d') ∨
      preserveViews engine (planned engine s entries) d = .error viewCycle :=
    drain_ok_or_stuck (preserve_acts_planned hstatement) (List.Subset.refl _) (nodup_filter hselection) (not_ready hselection) hholds
  rcases hend with ⟨d', hd'⟩ | hstuck
  · cases hd'.symm.trans h
  · exact (Except.error.inj (hstuck.symm.trans h)).symm

end Phases

/-- The statements between BEGIN and COMMIT of a selection without blockers. -/
theorem writeSelected_eq (hplan : plan engine s objects = .ok p) (hblockers : p.blockers = []) :
    writeSelected engine s objects = (do
      let d ← copySelectedTables engine p.items freshProject
      let d ← p.items.foldlM (materialize engine) (copySelectedMetadata s p.items d)
      preserveViews engine p.items d) := by
  rw [writeSelected, hplan]
  dsimp only [bind, Except.bind]
  rw [hblockers]
  rfl

theorem writeSelected_ok_iff (hplan : plan engine s objects = .ok p) (hblockers : p.blockers = [])
    (hsound : Sound engine p.items) :
    ((∃ d, writeSelected engine s objects = .ok d) ↔
      Acyclic itemKey tableNeeds (p.items.filter isTable) ∧ Acyclic itemKey viewNeeds (p.items.filter isPreserved)) ∧
    ∀ e, writeSelected engine s objects = .error e → e = tableCycle ∨ e = viewCycle := by
  obtain ⟨entries, hselection, hitems⟩ := plan_spec hplan hblockers
  change p.items = planned engine s entries at hitems
  rw [writeSelected_eq hplan hblockers, hitems]
  rw [hitems] at hsound
  have htables := copySelectedTables_ok_iff hsound.statement hselection
  cases hcopied : copySelectedTables engine (planned engine s entries) freshProject with
  | error e =>
      rw [hcopied] at htables
      refine ⟨⟨?_, ?_⟩, fun e' he => ?_⟩
      · rintro ⟨d, hd⟩
        cases hd
      · intro h
        obtain ⟨d, hd⟩ := htables.mpr h.1
        cases hd
      · obtain rfl : e = e' := Except.error.inj he
        exact .inl (copySelectedTables_error hsound.statement hselection hcopied)
  | ok d =>
      have hacyclic := htables.mp ⟨d, hcopied⟩
      obtain ⟨d', hmaterialized, hholds⟩ := materialized_ok hsound hselection hcopied
      have hrest : (do
          let d ← (Except.ok d : Except Error (Destination K V))
          let d ← (planned engine s entries).foldlM (materialize engine) (copySelectedMetadata s (planned engine s entries) d)
          preserveViews engine (planned engine s entries) d) = preserveViews engine (planned engine s entries) d' := by
        change ((planned engine s entries).foldlM (materialize engine) (copySelectedMetadata s (planned engine s entries) d) >>=
          preserveViews engine (planned engine s entries)) = _
        rw [hmaterialized]
        rfl
      rw [hrest, preserveViews_ok_iff hsound.statement hselection hholds, and_iff_right hacyclic]
      exact ⟨Iff.rfl, fun e he => .inr (preserveViews_error hsound.statement hselection hholds he)⟩

/-- Where nothing else goes wrong, a selection is exported unless its Tables or
its preserved Views need each other in a circle, and then nothing is committed. -/
theorem export_succeeds_iff (hplan : plan engine s objects = .ok p) (hblockers : p.blockers = [])
    (hsound : Sound engine p.items) :
    ((writeProjectExport engine s objects).2.isSome ↔
      Acyclic itemKey tableNeeds (p.items.filter isTable) ∧ Acyclic itemKey viewNeeds (p.items.filter isPreserved)) ∧
    ((writeProjectExport engine s objects).2 = none →
      (writeProjectExport engine s objects).1 = .error tableCycle ∨ (writeProjectExport engine s objects).1 = .error viewCycle) := by
  obtain ⟨hok, herror⟩ := writeSelected_ok_iff hplan hblockers hsound
  rw [← hok, writeProjectExport, hsound.commit]
  cases hwritten : writeSelected engine s objects with
  | ok d =>
      refine ⟨⟨fun _ => ⟨d, rfl⟩, fun _ => rfl⟩, ?_⟩
      intro hnone
      cases hnone
  | error e =>
      refine ⟨⟨?_, ?_⟩, fun _ => ?_⟩
      · intro hsome
        cases hsome
      · rintro ⟨d, hd⟩
        cases hd
      rcases herror e hwritten with rfl | rfl
      · exact .inl rfl
      · exact .inr rfl

/-- Two Views that read each other. -/
def circle : Source Unit Nat :=
  { database := "project"
    catalogue :=
      [⟨⟨"data", "first"⟩, .view (.ok ⟨(), [], [⟨"", "", "second", false⟩]⟩) (.error ⟨"sql_error", "infinite recursion"⟩)⟩,
        ⟨⟨"data", "second"⟩, .view (.ok ⟨(), [], [⟨"", "", "first", false⟩]⟩) (.error ⟨"sql_error", "infinite recursion"⟩)⟩]
    nodes := [⟨"first", true, none, none⟩, ⟨"second", true, none, none⟩]
    edges := []
    tokenizerModels := []
    arrowMetadata := []
    searchPath := []
    macros := []
    distinct := by decide
    foreign := by
      simp only [List.forall_mem_cons, reduceCtorEq, List.not_mem_nil, false_implies, implies_true, and_self]
    registered := by decide
    linked := by decide }

theorem circle_refused :
    (writeProjectExport showing circle [⟨none, "first"⟩, ⟨none, "second"⟩]).1 = .error tableCycle ∨
      (writeProjectExport showing circle [⟨none, "first"⟩, ⟨none, "second"⟩]).1 = .error viewCycle := by
  obtain ⟨p, hplan, hblockers, hkept⟩ : ∃ p, plan showing circle [⟨none, "first"⟩, ⟨none, "second"⟩] = .ok p ∧
      p.blockers = [] ∧ ∀ i ∈ p.items, i.action ≠ .materializeView := ⟨_, rfl, rfl, by decide⟩
  exact (export_succeeds_iff hplan hblockers ⟨fun _ => rfl, rfl, fun i hi haction => absurd haction (hkept i hi)⟩).2 rfl

end Result

end Wordflow.Exports
