import Wordflow.Exports.Written

namespace Wordflow.Exports

open Library Library.Fallible Library.Identifier Library.Worklist Objects Tables
open Registry (Node Edge TokenizerModel)

variable {K V : Type} {engine : Engine K V} {s : Source K V} {d : Destination K V}

section Contents

/-- The relations that the query of a View reads. -/
def reads (query : Query K) : List Relation := (query.tables.filter fun t => !t.cte).map fun t => ⟨t.schema, t.name⟩

/-- What a relation of the destination contains: the rows of a Table, and what
the query of a View makes of the relations that it reads. -/
inductive Shows (engine : Engine K V) (d : Destination K V) : Relation → Except Error (Rows V) → Prop
  | table {relation stored : Relation} {rows : Rows V} (h : d.lookup relation = some (stored, .table rows)) :
      Shows engine d relation (.ok rows)
  | view {relation stored : Relation} {query : Query K} (inputs : List (Relation × Except Error (Rows V)))
      (h : d.lookup relation = some (stored, .view query)) (hreads : inputs.map Prod.fst = reads query)
      (hinputs : ∀ input ∈ inputs, Shows engine d input.1 input.2) :
      Shows engine d relation (engine.denote query.body (inputs.map Prod.snd))

theorem inputs_unique {α β : Type} {R : α → β → Prop} {first second : List (α × β)}
    (hfirst : ∀ p ∈ first, ∀ b, R p.1 b → p.2 = b) (hsecond : ∀ p ∈ second, R p.1 p.2)
    (h : first.map Prod.fst = second.map Prod.fst) : first.map Prod.snd = second.map Prod.snd := by
  induction first generalizing second with
  | nil =>
      cases second with
      | nil => rfl
      | cons q second => cases h
  | cons p first ih =>
      cases second with
      | nil => cases h
      | cons q second =>
          obtain ⟨hhead, hrest⟩ := List.cons.inj h
          have hsnd : p.2 = q.2 := hfirst p List.mem_cons_self q.2 (hhead ▸ hsecond q List.mem_cons_self)
          rw [List.map_cons, List.map_cons, hsnd, ih (fun r hr => hfirst r (List.mem_cons_of_mem _ hr))
            (fun r hr => hsecond r (List.mem_cons_of_mem _ hr)) hrest]

/-- A relation contains one thing. -/
theorem Shows.unique {relation : Relation} {a b : Except Error (Rows V)} (ha : Shows engine d relation a)
    (hb : Shows engine d relation b) : a = b := by
  induction ha generalizing b with
  | table h =>
      cases hb with
      | table h' =>
          rw [h] at h'
          cases h'
          rfl
      | view inputs h' =>
          rw [h] at h'
          cases h'
  | view inputs h hreads _ ih =>
      cases hb with
      | table h' =>
          rw [h] at h'
          cases h'
      | view inputs' h' hreads' hinputs' =>
          rw [h] at h'
          cases h'
          rw [inputs_unique (fun p hp b hb => ih p hp hb) hinputs' (hreads.trans hreads'.symm)]

theorem Shows.congr {p q : Relation} {r : Except Error (Rows V)} (hsame : p.same q = true) (h : Shows engine d p r) :
    Shows engine d q r := by
  have hlookup : d.lookup q = d.lookup p := by
    rw [Destination.lookup, Destination.lookup]
    congr 1
    funext o
    exact (same_congr hsame o.1).symm
  cases h with
  | table h => exact .table (hlookup.trans h)
  | view inputs h hreads hinputs => exact .view inputs (hlookup.trans h) hreads hinputs

/-- What a relation of the project contains. -/
def Source.rows (s : Source K V) (relation : Relation) : Except Error (Rows V) :=
  match s.catalogue.find? fun e => e.relation.same relation with
  | some e => e.rows
  | none => .error (sqlError "Catalog Error: the relation does not exist")

/-- The database computes what it shows: generated columns from the others, and
a View from the relations that its query reads. -/
structure Genuine (engine : Engine K V) (s : Source K V) : Prop where
  generated : ∀ e ∈ s.catalogue, ∀ t, e.kind = .table t → copiedRows engine t = t.contents
  views : ∀ e ∈ s.catalogue, ∀ query rows, e.kind = .view (.ok query) rows → uncertain s query = false →
    rows = engine.denote query.body ((referencesIn (referenceContext s e) query).map s.rows)

end Contents

section Meaning

variable {objects : List ObjectTarget} {entries : List (Entry K V)} {tables views : List (Planned K V)}

/-- A statement finds what an item became. -/
theorem lookup_placed {all : List (Planned K V)} (hobjects : d.objects = all.map (placed engine))
    (hnodup : (all.map itemKey).Nodup) {i : Planned K V} (hi : i ∈ all) :
    d.lookup i.entry.relation = some (placed engine i) := by
  rw [Destination.lookup, hobjects]
  have hmem : placed engine i ∈ all.map (placed engine) := List.mem_map_of_mem hi
  cases hfind : (all.map (placed engine)).find? fun o => o.1.same i.entry.relation with
  | none => exact absurd (List.find?_eq_none.mp hfind _ hmem) (by simp [placed])
  | some o =>
      obtain ⟨j, hj, rfl⟩ := List.mem_map.mp (List.mem_of_find?_eq_some hfind)
      have hsame := List.find?_some hfind
      have hkey : itemKey j = itemKey i := key_eq_iff.mpr hsame
      rw [List.inj_on_of_nodup_map hnodup hj hi hkey]

theorem source_rows {e : Entry K V} (he : e ∈ s.catalogue) {p : Relation} (hp : key p = key e.relation) :
    s.rows p = e.rows := by
  rw [Source.rows]
  cases hfind : s.catalogue.find? fun f => f.relation.same p with
  | none => exact absurd (List.find?_eq_none.mp hfind e he) (by simp [key_eq_iff.mp hp.symm])
  | some f =>
      have hsame : f.relation.same p = true := by simpa using List.find?_some hfind
      obtain rfl := s.eq_of_key (List.mem_of_find?_eq_some hfind) he ((key_eq_iff.mpr hsame).trans hp)
      rfl

/-- Where no table is of another database, the portable query reads what the
query refers to. -/
theorem reads_portable {entry : Entry K V} {query : Query K} (h : uncertain s query = false) :
    reads { query with
      nodes := query.nodes.map (portableNode (referenceContext s entry))
      tables := query.tables.map (portableTable (referenceContext s entry)) } =
    referencesIn (referenceContext s entry) query := by
  have hlocal : ∀ t ∈ query.tables, (referenceContext s entry).isLocal t = true := by
    intro t ht
    simp only [uncertain, Bool.or_eq_false_iff, List.any_eq_false] at h
    have hnode := h.2 t ht
    by_cases hcatalog : t.catalog = ""
    · simp [ReferenceContext.isLocal, hcatalog]
    · simp only [uncertainNode, Option.any_some, Option.any_none, Bool.or_false, Bool.or_eq_true, not_or, Bool.and_eq_true,
        decide_eq_true_eq, Bool.not_eq_true', not_and, ne_eq, hcatalog, not_false_eq_true, true_implies] at hnode
      simpa [ReferenceContext.isLocal, hcatalog, referenceContext] using hnode
  simp only [reads, referencesIn]
  generalize query.tables = tables at hlocal ⊢
  induction tables with
  | nil => rfl
  | cons t rest ih =>
      obtain ⟨ht, hrest⟩ := List.forall_mem_cons.mp hlocal
      rw [List.map_cons, List.filter_cons, List.filter_cons, portableTable, ReferenceContext.refers, ht, Bool.and_true]
      cases hcte : t.cte
      · simpa [hcte] using ih hrest
      · simpa [hcte] using ih hrest

/-- A preserved item is a View that reads selected relations alone. -/
theorem planned_preserved {i : Planned K V} (hi : i ∈ planned engine s entries) (hpreserved : isPreserved i = true) :
    ∃ query portable rows, i.entry.kind = .view (.ok query) rows ∧ i.sql = some portable ∧ uncertain s query = false ∧
      portable.body = query.body ∧ reads portable = i.parents ∧
      i.parents = referencesIn (referenceContext s i.entry) query ∧
      ∀ p ∈ i.parents, key p ∈ entries.map fun e => key e.relation := by
  obtain ⟨-, definition, rows, hkind⟩ := planned_sorted.preserved hi hpreserved
  obtain ⟨e, he, rfl⟩ := List.mem_map.mp hi
  rw [planEntry_entry] at hkind ⊢
  have hview := @planView_spec _ _ engine s (entries.map fun e => key e.relation) e definition
  have hplan : planEntry engine s (entries.map fun e => key e.relation) e =
      planView engine s (entries.map fun e => key e.relation) e definition := by rw [planEntry, hkind]
  rcases hview with ⟨query, rfl, hcertain, hselected, heq⟩ | ⟨haction, -⟩
  · rw [hplan, heq]
    exact ⟨query, _, rows, hkind, rfl, hcertain, rfl, reads_portable hcertain, rfl, hselected⟩
  · rw [isPreserved, hplan, haction] at hpreserved
    cases hpreserved

theorem Written.all_perm (h : Written engine s entries tables views d) :
    (tables ++ (planned engine s entries).filter isMaterialized ++ views).Perm (planned engine s entries) :=
  (((h.copied.append_right _).append h.preserved)).trans (sorted_perm planned_sorted)

/-- Every selected object contains in the destination what it contains in the project. -/
theorem Written.shows (hw : Written engine s entries tables views d) (hselection : Selection s objects entries)
    (hs : Genuine engine s) : ∀ i ∈ planned engine s entries, Shows engine d i.entry.relation i.entry.rows := by
  have hkeys : ((planned engine s entries).map itemKey).Nodup := planned_keys ▸ hselection.distinct
  have hlookup {i : Planned K V} (hi : i ∈ planned engine s entries) : d.lookup i.entry.relation = some (placed engine i) :=
    lookup_placed hw.objects ((hw.all_perm.map itemKey).nodup_iff.mpr hkeys) (hw.all_perm.symm.subset hi)
  have hcatalogue {i : Planned K V} (hi : i ∈ planned engine s entries) : i.entry ∈ s.catalogue := by
    obtain ⟨e, he, rfl⟩ := List.mem_map.mp hi
    rw [planEntry_entry]
    exact hselection.mem e he
  have hsorted : Sorted (planned engine s entries) := planned_sorted
  have hstored {i : Planned K V} (hi : i ∈ planned engine s entries) (hnot : isPreserved i = false) :
      Shows engine d i.entry.relation i.entry.rows := by
    have hfound := hlookup hi
    cases hkind : i.entry.kind with
    | table t =>
        obtain ⟨-, hsql⟩ := hsorted.tables i hi t hkind
        rw [placed, object, hsql, hkind] at hfound
        dsimp only at hfound
        rw [hs.generated _ (hcatalogue hi) t hkind] at hfound
        rw [Entry.rows, hkind]
        exact .table hfound
    | view definition rows =>
        rcases hsorted.views i hi definition rows hkind with ⟨haction, -⟩ | ⟨haction, hsql⟩
        · simp [isPreserved, haction] at hnot
        · obtain ⟨shown, hshown⟩ := hw.rows i hi (by simp [isMaterialized, haction])
          rw [Entry.rows, hkind] at hshown
          change rows = .ok shown at hshown
          rw [placed, object, hsql, hkind, hshown] at hfound
          rw [Entry.rows, hkind, hshown]
          exact .table hfound
  have hstep : ∀ i ∈ planned engine s entries,
      (∀ j ∈ planned engine s entries, itemKey j ∈ viewNeeds i → Shows engine d j.entry.relation j.entry.rows) →
        Shows engine d i.entry.relation i.entry.rows := by
    intro i hi hneeds
    cases hpreserved : isPreserved i with
    | false => exact hstored hi hpreserved
    | true =>
        obtain ⟨query, portable, rows, hkind, hsql, hcertain, hbody, hreads, hparents, hselected⟩ :=
          planned_preserved hi hpreserved
        have hfound := hlookup hi
        rw [placed, object, hsql] at hfound
        dsimp only at hfound
        have hrows : i.entry.rows =
            engine.denote portable.body ((i.parents.map fun p => (p, s.rows p)).map Prod.snd) := by
          rw [Entry.rows, hkind, hbody, hparents, List.map_map]
          exact hs.views _ (hcatalogue hi) query rows hkind hcertain
        rw [hrows]
        refine .view _ hfound ?_ ?_
        · rw [hreads, List.map_map]
          exact List.map_id _
        · intro input hinput
          obtain ⟨p, hp, rfl⟩ := List.mem_map.mp hinput
          have hkey : key p ∈ (planned engine s entries).map itemKey := by
            rw [planned_keys]
            exact hselected p hp
          obtain ⟨j, hj, hjkey⟩ := List.mem_map.mp hkey
          have hshows := hneeds j hj (by rw [viewNeeds, hjkey]; exact List.mem_map_of_mem hp)
          rw [source_rows (hcatalogue hj) hjkey.symm]
          exact hshows.congr (key_eq_iff.mp hjkey)
  have hviews : ∀ i ∈ views, Shows engine d i.entry.relation i.entry.rows := by
    refine hw.order.induction ?_ (fun i hi j hj hkey => List.inj_on_of_nodup_map hkeys hi hj hkey)
      (fun i hi => (List.mem_filter.mp (hw.preserved.subset hi)).1) hstep
    intro j hj hready
    obtain ⟨k, hk, hkey⟩ := List.mem_map.mp hready
    obtain ⟨hkmem, hknot⟩ := List.mem_filter.mp hk
    obtain rfl := List.inj_on_of_nodup_map hkeys hkmem hj hkey
    exact hstored hkmem (by simpa using hknot)
  intro i hi
  cases hpreserved : isPreserved i with
  | false => exact hstored hi hpreserved
  | true => exact hviews i (hw.preserved.symm.subset (List.mem_filter.mpr ⟨hi, hpreserved⟩))

end Meaning

section Result

variable {objects : List ObjectTarget} {entries : List (Entry K V)} {tables views : List (Planned K V)}

/-- A database that has the selected entries of the project, with what they
contain there, and the records about them. -/
structure Reproduces (engine : Engine K V) (s : Source K V) (entries : List (Entry K V)) (d : Destination K V) : Prop where
  objects : (d.objects.map Prod.fst).Perm (entries.map Entry.relation)
  rows : ∀ e ∈ entries, ∀ r, Shows engine d e.relation r ↔ r = e.rows
  nodes : ∀ n, n ∈ d.nodes ↔ n ∈ s.nodes ∧ ∃ e ∈ entries, e.relation = ⟨"data", n.tableName⟩
  tokenizerModels : ∀ m, m ∈ d.tokenizerModels ↔ m ∈ s.tokenizerModels ∧ ∃ e ∈ entries, e.relation = ⟨"data", m.tableName⟩
  arrowMetadata : ∀ a, a ∈ d.arrowMetadata ↔
    a ∈ s.arrowMetadata ∧ ∃ e ∈ entries, e.relation = ⟨a.schemaName, a.relationName⟩
  edges : ∀ e, e ∈ d.edges ↔ (e ∈ s.edges ∧ d.knows e.sourceName ∧ d.knows e.targetName) ∨
    ∃ i ∈ planned engine s entries, i.action = .materializeView ∧ ∃ p ∈ i.parents, Lost d i.entry.relation p e

theorem mem_allOf {α : Type} {copied : Relation → List α} {a : α} :
    a ∈ allOf copied (planned engine s entries) ↔ ∃ e ∈ entries, a ∈ copied e.relation := by
  simp only [allOf, planned, List.mem_flatMap, List.mem_map]
  constructor
  · rintro ⟨_, ⟨e, he, rfl⟩, ha⟩
    rw [planEntry_entry] at ha
    exact ⟨e, he, ha⟩
  · rintro ⟨e, he, ha⟩
    exact ⟨_, ⟨e, he, rfl⟩, by rwa [planEntry_entry]⟩

theorem relation_eq_iff {relation : Relation} {schema name : String} :
    relation = ⟨schema, name⟩ ↔ relation.schema = schema ∧ relation.name = name := by
  cases relation
  simp

theorem Written.reproduces (hw : Written engine s entries tables views d) (hselection : Selection s objects entries)
    (hs : Genuine engine s) : Reproduces engine s entries d := by
  have hrelation : (planned engine s entries).map (fun i => i.entry.relation) = entries.map Entry.relation := by
    simp [planned, Function.comp_def]
  constructor
  · rw [hw.objects, List.map_map, ← hrelation]
    exact hw.all_perm.map _
  · intro e he r
    have hshows := hw.shows hselection hs _ (List.mem_map_of_mem he)
    rw [planEntry_entry] at hshows
    constructor
    · exact fun h => h.unique hshows
    · exact fun h => h ▸ hshows
  · intro n
    rw [hw.nodes, mem_allOf]
    simp only [copiedNodes, List.mem_ite_nil_right, List.mem_filter, decide_eq_true_eq, relation_eq_iff]
    constructor
    · rintro ⟨e, he, hschema, hn, hname⟩
      exact ⟨hn, e, he, hschema, hname.symm⟩
    · rintro ⟨hn, e, he, hschema, hname⟩
      exact ⟨e, he, hschema, hn, hname.symm⟩
  · intro m
    rw [hw.tokenizerModels, mem_allOf]
    simp only [copiedModels, List.mem_ite_nil_right, List.mem_filter, decide_eq_true_eq, relation_eq_iff]
    constructor
    · rintro ⟨e, he, hschema, hm, hname⟩
      exact ⟨hm, e, he, hschema, hname.symm⟩
    · rintro ⟨hm, e, he, hschema, hname⟩
      exact ⟨e, he, hschema, hm, hname.symm⟩
  · intro a
    rw [hw.arrowMetadata, mem_allOf]
    simp only [copiedAnnotations, List.mem_filter, Bool.and_eq_true, decide_eq_true_eq, relation_eq_iff]
    constructor
    · rintro ⟨e, he, ha, hschema, hname⟩
      exact ⟨ha, e, he, hschema.symm, hname.symm⟩
    · rintro ⟨ha, e, he, hschema, hname⟩
      exact ⟨e, he, ha, hschema.symm, hname.symm⟩
  · intro e
    rw [hw.edges e]
    simp only [isMaterialized, decide_eq_true_eq]

/-- A Table and a View that shows all of it, whose edge is drawn between them. -/
def letters : Source Unit Nat :=
  { database := "project"
    catalogue :=
      [⟨⟨"data", "letters"⟩, .table ⟨[⟨"id", "BIGINT", false⟩], [[("id", 1)], [("id", 2)]], [], []⟩⟩,
        ⟨⟨"data", "copy"⟩, .view (.ok ⟨(), [], [⟨"", "", "letters", false⟩]⟩)
          (.ok ⟨[("id", "BIGINT")], [[("id", 1)], [("id", 2)]]⟩)⟩]
    nodes := [⟨"letters", true, none, none⟩, ⟨"copy", true, none, none⟩]
    edges := [⟨"letters", "copy"⟩]
    tokenizerModels := []
    arrowMetadata := []
    searchPath := []
    macros := []
    distinct := by decide
    foreign := by
      simp only [List.forall_mem_cons, Kind.table.injEq, forall_eq', List.not_mem_nil, false_implies, implies_true,
        reduceCtorEq, and_self]
    registered := by decide
    linked := by decide }

/-- A database whose Views show the first relation that they read. -/
def showing : Engine Unit Nat :=
  ⟨fun _ row => row, fun _ => .ok (), fun _ inputs => inputs.headD (.ok ⟨[], []⟩), fun _ => .ok (), .ok ()⟩

theorem genuine_letters : Genuine showing letters := by
  constructor
  · simp only [letters, List.forall_mem_cons, Kind.table.injEq, forall_eq', reduceCtorEq, false_implies, implies_true,
      List.not_mem_nil, and_true]
    rfl
  · simp only [letters, List.forall_mem_cons, Kind.view.injEq, Except.ok.injEq, reduceCtorEq, false_implies, implies_true,
      List.not_mem_nil, true_and, and_true]
    rintro query rows ⟨rfl, rfl⟩ -
    rfl

end Result

end Wordflow.Exports
