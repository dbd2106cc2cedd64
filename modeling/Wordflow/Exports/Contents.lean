import Wordflow.Exports.Write

namespace Wordflow.Exports

open Library Library.Fallible Library.Identifier Library.Worklist Objects

variable {K V : Type} {engine : Engine K V} {s : Source K V}

section Selection

/-- The entries that a selection without blockers stands for. -/
structure Selection (s : Source K V) (objects : List ObjectTarget) (entries : List (Entry K V)) : Prop where
  resolved : List.Forall₂ (fun o e => resolve s o = .ok e.relation ∧ e ∈ s.catalogue) objects entries
  distinct : (entries.map fun e => key e.relation).Nodup
  parents : ∀ e ∈ entries, ∀ t, e.kind = .table t → ∀ name ∈ t.parents,
    key ⟨e.relation.schema, name⟩ ∈ entries.map fun e => key e.relation

theorem select_spec {objects : List ObjectTarget} {seen : List (List Char × List Char)} {found : List (Entry K V)}
    (h : select s seen objects = .ok (found, [])) :
    List.Forall₂ (fun o e => resolve s o = .ok e.relation ∧ e ∈ s.catalogue) objects found ∧
      (found.map fun e => key e.relation).Nodup ∧ ∀ e ∈ found, key e.relation ∉ seen := by
  induction objects generalizing seen found with
  | nil =>
      obtain ⟨rfl, -⟩ := Prod.mk.inj (Except.ok.inj h)
      exact ⟨.nil, List.nodup_nil, fun e he => nomatch he⟩
  | cons object objects ih =>
      rw [select] at h
      split at h
      · obtain ⟨r, -, hr⟩ := map_eq_ok.mp h
        cases (Prod.mk.inj hr).2
      · rename_i relation hresolved
        obtain ⟨hseen, h⟩ := guard_eq_ok.mp h
        obtain ⟨r, hrest, hr⟩ := map_eq_ok.mp h
        split at hr
        · rename_i entry hentry
          obtain ⟨rfl, hnil⟩ := Prod.mk.inj hr
          obtain rfl : entry.relation = relation := by simpa using List.find?_some hentry
          have hrest' : select s (key entry.relation :: seen) objects = .ok (r.1, []) := by rw [hrest, ← hnil]
          obtain ⟨hall, hnodup, hfresh⟩ := ih hrest'
          refine ⟨.cons ⟨hresolved, List.mem_of_find?_eq_some hentry⟩ hall, ?_, ?_⟩
          · refine List.nodup_cons.mpr ⟨fun hmem => ?_, hnodup⟩
            obtain ⟨other, hother, hkey⟩ := List.mem_map.mp hmem
            exact hfresh other hother (List.mem_cons.mpr (.inl hkey))
          · exact List.forall_mem_cons.mpr ⟨hseen, fun e he hmem => hfresh e he (List.mem_cons_of_mem _ hmem)⟩
        · cases (Prod.mk.inj hr).2

/-- Without blockers each object is selected, and so are the tables that foreign keys name. -/
theorem plan_spec {objects : List ObjectTarget} {p : Plan K V} (h : plan engine s objects = .ok p)
    (hblockers : p.blockers = []) : ∃ entries, Selection s objects entries ∧
      p.items = entries.map (planEntry engine s (entries.map fun e => key e.relation)) := by
  rw [plan] at h
  split at h
  · cases h
  · obtain ⟨⟨found, errors⟩, hselect, h⟩ := bind_eq_ok.mp h
    obtain rfl := Except.ok.inj h
    obtain ⟨herrors, hentries⟩ := List.append_eq_nil_iff.mp hblockers
    simp only at herrors
    obtain rfl := herrors
    obtain ⟨hresolved, hnodup, -⟩ := select_spec hselect
    refine ⟨found, ⟨hresolved, hnodup, ?_⟩, rfl⟩
    intro e he t ht name hname
    have hnone := List.flatMap_eq_nil_iff.mp hentries e he
    rw [entryBlockers, ht] at hnone
    have hmissing := List.map_eq_nil_iff.mp (List.append_eq_nil_iff.mp hnone).2
    rw [missingParents, List.filter_eq_nil_iff] at hmissing
    have hin := hmissing ⟨e.relation.schema, name⟩ (List.mem_map_of_mem hname)
    simpa using hin

theorem Selection.mem {objects : List ObjectTarget} {entries : List (Entry K V)} (h : Selection s objects entries) :
    ∀ e ∈ entries, e ∈ s.catalogue := by
  intro e he
  obtain ⟨o, -, -, hmem⟩ := forall₂_mem_right h.resolved he
  exact hmem

theorem Source.eq_of_key {a b : Entry K V} (ha : a ∈ s.catalogue) (hb : b ∈ s.catalogue)
    (h : key a.relation = key b.relation) : a = b := List.inj_on_of_nodup_map s.distinct ha hb h

end Selection

section Items

variable {selected : List (List Char × List Char)} {entry : Entry K V}

theorem planView_entry (definition : Except Error (Query K)) : (planView engine s selected entry definition).entry = entry := by
  simp only [planView]
  split
  · split <;> rfl
  · rfl

@[simp]
theorem planEntry_entry : (planEntry engine s selected entry).entry = entry := by
  rw [planEntry]
  split
  · rfl
  · exact planView_entry _

/-- A View is preserved with a query whose tables are all selected, or becomes a Table. -/
theorem planView_spec (definition : Except Error (Query K)) :
    (∃ query, definition = .ok query ∧ uncertain s query = false ∧
        (∀ p ∈ referencesIn (referenceContext s entry) query, key p ∈ selected) ∧
          planView engine s selected entry definition = ⟨entry, .preserveView, none,
            some { query with
              nodes := query.nodes.map (portableNode (referenceContext s entry))
              tables := query.tables.map (portableTable (referenceContext s entry)) },
            referencesIn (referenceContext s entry) query⟩) ∨
      ((planView engine s selected entry definition).action = .materializeView ∧
        (planView engine s selected entry definition).sql = none ∧
          ∀ p ∈ (planView engine s selected entry definition).parents, ∃ query, definition = .ok query ∧
            p ∈ referencesIn (referenceContext s entry) query) := by
  simp only [planView]
  split
  · rename_i query sql hparsed
    obtain ⟨found, hdefinition, hrendered⟩ := bind_eq_ok.mp hparsed
    obtain ⟨portable, hportable, hpair⟩ := bind_eq_ok.mp hrendered
    obtain ⟨rfl, rfl⟩ := Prod.mk.inj (Except.ok.inj hpair)
    split
    · rename_i hcertain
      simp only [Bool.and_eq_true, Bool.not_eq_true', List.isEmpty_iff, missingParents, List.filter_eq_nil_iff,
        decide_eq_true_eq, not_not] at hcertain
      obtain ⟨_, -, hportable⟩ := bind_eq_ok.mp hportable
      obtain rfl := Except.ok.inj hportable
      exact .inl ⟨found, hdefinition, hcertain.1, hcertain.2, rfl⟩
    · exact .inr ⟨rfl, rfl, fun p hp => ⟨found, hdefinition, hp⟩⟩
  · exact .inr ⟨rfl, rfl, fun p hp => nomatch hp⟩

end Items

end Wordflow.Exports
