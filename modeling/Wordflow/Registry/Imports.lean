import Mathlib.Data.Set.Basic
import Wordflow.Library.Fallible
import Wordflow.Registry.Database

namespace Wordflow.Registry

open Library Library.Identifier Library.Fallible Objects Database

/-- The requested name, with the smallest suffix from 2 on under which it is free. -/
def Fits (taken : Set (List Char)) (base chosen : String) : Prop :=
  asciiLower chosen ∉ taken ∧
    (chosen = base ∨ asciiLower base ∈ taken ∧ ∃ n, 2 ≤ n ∧ chosen = numbered base n ∧
      ∀ k, 2 ≤ k → k < n → asciiLower (numbered base k) ∈ taken)

/-- The names of a View and of its raw Table for each source in turn, when names are taken already. -/
def Allocated : Set (List Char) → List PreparedSource → List (String × String) → Prop
  | _, [], [] => True
  | taken, source :: sources, (name, raw) :: chosen =>
      Fits taken source.name name ∧ Fits (insert (asciiLower name) taken) (name ++ "_raw") raw ∧
        Allocated (insert (asciiLower raw) (insert (asciiLower name) taken)) sources chosen
  | _, _, _ => False

/-- The names that are in use: those of the objects beside the Data Blocks, and those of the registrations. -/
def State.taken (s : State) : Set (List Char) := {x | x ∈ occupiedObjectNames s "data" true}

/-- What an import creates for a source. -/
def imported (s : State) (source : PreparedSource) (name raw : String) : State :=
  { s with
    catalogue := s.catalogue ++ [⟨⟨"data", raw⟩, .table, source.columns⟩, ⟨⟨"data", name⟩, .view [⟨"data", raw⟩] false, source.columns⟩]
    nodes := s.nodes ++ [⟨raw, false, none, none⟩, ⟨name, true, none, none⟩] }

variable {s : State} {taken : Set (List Char)} {sources : List PreparedSource} {chosen : List (String × String)}

section Names

theorem mem_taken {x : List Char} : x ∈ s.taken ↔
    (∃ e ∈ s.catalogue, eqIgnoreAsciiCase e.relation.schema "data" = true ∧ asciiLower e.relation.name = x) ∨
      ∃ n ∈ s.nodes, asciiLower n.tableName = x := by
  simp only [State.taken, occupiedObjectNames, if_true, Set.mem_ofPred_eq, List.mem_map, List.mem_append, List.mem_filter]
  constructor
  · rintro ⟨name, ⟨e, ⟨he, hschema⟩, rfl⟩ | ⟨n, hn, rfl⟩, rfl⟩
    · exact .inl ⟨e, he, hschema, rfl⟩
    · exact .inr ⟨n, hn, rfl⟩
  · rintro (⟨e, he, hschema, rfl⟩ | ⟨n, hn, rfl⟩)
    · exact ⟨_, .inl ⟨e, ⟨he, hschema⟩, rfl⟩, rfl⟩
    · exact ⟨_, .inr ⟨n, hn, rfl⟩, rfl⟩

theorem taken_imported (source : PreparedSource) (name raw : String) :
    (imported s source name raw).taken = insert (asciiLower raw) (insert (asciiLower name) s.taken) := by
  ext x
  simp only [Set.mem_insert_iff, mem_taken, imported, List.mem_append, List.mem_cons, List.not_mem_nil, or_false]
  constructor
  · rintro (⟨e, he | rfl | rfl, hschema, rfl⟩ | ⟨n, hn | rfl | rfl, rfl⟩)
    · exact .inr (.inr (.inl ⟨e, he, hschema, rfl⟩))
    · exact .inl rfl
    · exact .inr (.inl rfl)
    · exact .inr (.inr (.inr ⟨n, hn, rfl⟩))
    · exact .inl rfl
    · exact .inr (.inl rfl)
  · rintro (rfl | rfl | ⟨e, he, hschema, rfl⟩ | ⟨n, hn, rfl⟩)
    · exact .inr ⟨_, .inr (.inl rfl), rfl⟩
    · exact .inr ⟨_, .inr (.inr rfl), rfl⟩
    · exact .inl ⟨e, .inl he, hschema, rfl⟩
    · exact .inr ⟨n, .inl hn, rfl⟩

/-- The name with the smallest free suffix, whatever is reserved beside the names in use. -/
theorem uniqueObjectName_fits (s : State) (base : String) {reserved : List String}
    (h : ∀ x, x ∈ taken ↔ x ∈ s.taken ∨ x ∈ reserved.map asciiLower) :
    Fits taken base (uniqueObjectName s "data" base true reserved) := by
  have hmem : ∀ x, x ∈ occupiedObjectNames s "data" true ++ reserved.map asciiLower ↔ x ∈ taken := by
    intro x
    rw [List.mem_append, h]
    rfl
  refine ⟨fun htaken => uniqueObjectName_free s "data" base true reserved ((hmem _).mpr htaken), ?_⟩
  simp only [uniqueObjectName]
  split
  · rename_i hbase
    refine .inr ⟨(hmem _).mp hbase, _, Fresh.le_firstFree _ _ _ 2, rfl, fun k hle hlt => ?_⟩
    exact (hmem _).mp (Fresh.firstFree_least hle hlt)
  · exact .inl rfl

end Names

section Batch

theorem create_free {e : Entry} (h : ∀ found ∈ s.catalogue, eqIgnoreAsciiCase found.relation.schema e.relation.schema = true →
    asciiLower found.relation.name ≠ asciiLower e.relation.name) : create s e = .ok { s with catalogue := s.catalogue ++ [e] } := by
  rw [create, if_neg]
  rw [Option.isSome_iff_exists]
  rintro ⟨found, hfound⟩
  have hpass := List.find?_some hfound
  obtain ⟨hschema, hname⟩ := Relation.same_iff.mp hpass
  exact h found (List.mem_of_find?_eq_some hfound) (eqIgnoreAsciiCase_iff.mpr hschema) hname

theorem not_taken {name : String} (h : asciiLower name ∉ s.taken) :
    (∀ e ∈ s.catalogue, eqIgnoreAsciiCase e.relation.schema "data" = true → asciiLower e.relation.name ≠ asciiLower name) ∧
      ∀ n ∈ s.nodes, asciiLower n.tableName ≠ asciiLower name :=
  ⟨fun e he hschema heq => h (mem_taken.mpr (.inl ⟨e, he, hschema, heq⟩)),
    fun n hn heq => h (mem_taken.mpr (.inr ⟨n, hn, heq⟩))⟩

theorem imported_checked {source : PreparedSource} {name raw : String} (hs : s.Checked) (hname : asciiLower name ∉ s.taken)
    (hraw : asciiLower raw ∉ s.taken) (hne : asciiLower raw ≠ asciiLower name) : (imported s source name raw).Checked := by
  obtain ⟨hnodes, hrest⟩ := hs
  refine ⟨?_, hrest⟩
  simp only [imported, List.map_append, List.map_cons, List.map_nil]
  refine List.nodup_append.mpr ⟨hnodes, by simp [hne], ?_⟩
  intro x hx y hy
  obtain ⟨n, hn, rfl⟩ := List.mem_map.mp hx
  simp only [List.mem_cons, List.not_mem_nil, or_false] at hy
  rcases hy with rfl | rfl
  · exact (not_taken hraw).2 n hn
  · exact (not_taken hname).2 n hn

/-- Free names that differ can be given to a Table and a View. -/
theorem createObjects_ok {input : PreparedSource} {name raw : String} (views : List String) (hs : s.Checked)
    (hname : asciiLower name ∉ s.taken) (hraw : asciiLower raw ∉ s.taken) (hne : asciiLower raw ≠ asciiLower name) :
    (do
      let s ← create s ⟨⟨"data", raw⟩, .table, input.columns⟩
      let s ← create s ⟨⟨"data", name⟩, .view [⟨"data", raw⟩] false, input.columns⟩
      let s ← checked { s with nodes := s.nodes ++ [⟨raw, false, none, none⟩, ⟨name, true, none, none⟩] }
      return (s, views ++ [name])) = Except.ok (imported s input name raw, views ++ [name]) := by
  have hcreate := create_free (e := ⟨⟨"data", raw⟩, .table, input.columns⟩) (not_taken hraw).1
  refine bind_eq_ok.mpr ⟨_, hcreate, bind_eq_ok.mpr ⟨_, create_free ?_, ?_⟩⟩
  · intro found hfound hschema
    rcases List.mem_append.mp hfound with hold | hnew
    · exact (not_taken hname).1 found hold hschema
    · obtain rfl := List.mem_singleton.mp hnew
      exact hne
  · refine bind_eq_ok.mpr ⟨imported s input name raw, ?_, rfl⟩
    rw [checked, if_pos]
    · simp [imported]
    · have hchecked : (imported s input name raw).Checked := imported_checked hs hname hraw hne
      simpa [imported] using hchecked

/-- The names of one source are free, so that its objects can be created. -/
theorem importSource_ok {input : PreparedSource} {views : List String} (hs : s.Checked)
    (hviews : ∀ v ∈ views, asciiLower v ∈ s.taken) (hblank : (Text.trim input.name).isEmpty = false) :
    ∃ name raw, importSource (s, views) input = .ok (imported s input name raw, views ++ [name]) ∧
      Fits s.taken input.name name ∧ Fits (insert (asciiLower name) s.taken) (name ++ "_raw") raw ∧
        (imported s input name raw).Checked := by
  have hname : Fits s.taken input.name (uniqueObjectName s "data" input.name true views) := by
    refine uniqueObjectName_fits s input.name fun x => ⟨.inl, ?_⟩
    rintro (hx | hx)
    · exact hx
    · obtain ⟨v, hv, rfl⟩ := List.mem_map.mp hx
      exact hviews v hv
  have hraw : ∀ name, Fits (insert (asciiLower name) s.taken) (name ++ "_raw") (uniqueObjectName s "data" (name ++ "_raw") true [name]) := by
    intro name
    refine uniqueObjectName_fits s _ fun x => ?_
    rw [Set.mem_insert_iff, List.map_singleton, List.mem_singleton, or_comm]
  have hfree := (hraw (uniqueObjectName s "data" input.name true views)).1
  rw [Set.mem_insert_iff, not_or] at hfree
  refine ⟨_, _, ?_, hname, hraw _, imported_checked hs hname.1 hfree.2 hfree.1⟩
  rw [importSource, if_neg (by simp [hblank])]
  exact createObjects_ok views hs hname.1 hfree.2 hfree.1

theorem Allocated.cons {source : PreparedSource} {name raw : String} (hname : Fits taken source.name name)
    (hraw : Fits (insert (asciiLower name) taken) (name ++ "_raw") raw)
    (h : Allocated (insert (asciiLower raw) (insert (asciiLower name) taken)) sources chosen) :
    Allocated taken (source :: sources) ((name, raw) :: chosen) :=
  ⟨hname, hraw, h⟩

/-- What is created for the sources in turn. -/
def importedAll (s : State) (sources : List PreparedSource) (chosen : List (String × String)) : State :=
  (sources.zip chosen).foldl (fun s p => imported s p.1 p.2.1 p.2.2) s

theorem views_imported {source : PreparedSource} {name raw : String} {views : List String}
    (hviews : ∀ v ∈ views, asciiLower v ∈ s.taken) :
    ∀ v ∈ views ++ [name], asciiLower v ∈ (imported s source name raw).taken := by
  intro v hv
  rw [taken_imported]
  rcases List.mem_append.mp hv with hold | hnew
  · exact .inr (.inr (hviews v hold))
  · rw [List.mem_singleton.mp hnew]
    exact .inr (.inl rfl)

theorem importSources_fold {views : List String} (hs : s.Checked) (hviews : ∀ v ∈ views, asciiLower v ∈ s.taken)
    (hblank : ∀ source ∈ sources, (Text.trim source.name).isEmpty = false) :
    ∃ chosen, Allocated s.taken sources chosen ∧
      sources.foldlM importSource (s, views) = .ok (importedAll s sources chosen, views ++ chosen.map Prod.fst) := by
  induction sources generalizing s views with
  | nil => exact ⟨[], trivial, by rw [List.map_nil, List.append_nil]; rfl⟩
  | cons source sources ih =>
      obtain ⟨hsource, hrest⟩ := List.forall_mem_cons.mp hblank
      obtain ⟨name, raw, hok, hname, hraw, hchecked⟩ := importSource_ok hs hviews hsource
      obtain ⟨chosen, hallocated, hfold⟩ := ih hchecked (views_imported hviews) hrest
      rw [taken_imported] at hallocated
      refine ⟨(name, raw) :: chosen, .cons hname hraw hallocated, ?_⟩
      rw [List.foldlM_cons]
      refine bind_eq_ok.mpr ⟨_, hok, hfold.trans ?_⟩
      rw [List.append_assoc]
      rfl

theorem importSources_blank {views : List String} (hs : s.Checked) (hviews : ∀ v ∈ views, asciiLower v ∈ s.taken)
    (hblank : ∃ source ∈ sources, (Text.trim source.name).isEmpty = true) :
    sources.foldlM importSource (s, views) = .error (.invalid "Table name cannot be empty") := by
  induction sources generalizing s views with
  | nil =>
      obtain ⟨source, hsource, -⟩ := hblank
      cases hsource
  | cons source sources ih =>
      rw [List.foldlM_cons]
      cases hsource : (Text.trim source.name).isEmpty with
      | true =>
          rw [importSource, if_pos hsource]
          rfl
      | false =>
          obtain ⟨name, raw, hok, hname, hraw, hchecked⟩ := importSource_ok hs hviews hsource
          rw [hok]
          refine ih hchecked (views_imported hviews) ?_
          obtain ⟨other, hother, htrue⟩ := hblank
          rcases List.mem_cons.mp hother with rfl | hrest
          · rw [hsource] at htrue
            cases htrue
          · exact ⟨other, hrest, htrue⟩

end Batch

section Distinct

/-- The names of a batch, the View before its raw Table. -/
def names (chosen : List (String × String)) : List String := chosen.flatMap fun c => [c.1, c.2]

theorem Allocated.fresh (h : Allocated taken sources chosen) :
    chosen.length = sources.length ∧ (∀ name ∈ names chosen, asciiLower name ∉ taken) ∧ ((names chosen).map asciiLower).Nodup := by
  induction sources generalizing taken chosen with
  | nil =>
      cases chosen with
      | nil => exact ⟨rfl, fun name hname => (nomatch hname), .nil⟩
      | cons c chosen => exact h.elim
  | cons source sources ih =>
      cases chosen with
      | nil => exact h.elim
      | cons c chosen =>
          obtain ⟨name, raw⟩ := c
          obtain ⟨hname, hraw, hrest⟩ := h
          obtain ⟨hlength, hfresh, hnodup⟩ := ih hrest
          have hfree := hraw.1
          rw [Set.mem_insert_iff, not_or] at hfree
          have hlater : ∀ other ∈ names chosen, asciiLower other ≠ asciiLower raw ∧ asciiLower other ≠ asciiLower name ∧
              asciiLower other ∉ taken := by
            intro other hother
            have hnot := hfresh other hother
            rw [Set.mem_insert_iff, Set.mem_insert_iff, not_or, not_or] at hnot
            exact hnot
          refine ⟨by rw [List.length_cons, List.length_cons, hlength], ?_, ?_⟩
          · intro other hother
            rcases List.mem_cons.mp hother with rfl | hother
            · exact hname.1
            · rcases List.mem_cons.mp hother with rfl | hother
              · exact hfree.2
              · exact (hlater other hother).2.2
          · change (asciiLower name :: asciiLower raw :: (names chosen).map asciiLower).Nodup
            rw [List.nodup_cons, List.nodup_cons]
            refine ⟨?_, ?_, hnodup⟩
            · rw [List.mem_cons]
              rintro (heq | hmem)
              · exact hfree.1 heq.symm
              · obtain ⟨other, hother, heq⟩ := List.mem_map.mp hmem
                exact (hlater other hother).2.1 heq
            · intro hmem
              obtain ⟨other, hother, heq⟩ := List.mem_map.mp hmem
              exact (hlater other hother).1 heq

/-- An import that gives every source a name gives it two, none of them in use and no two alike. -/
theorem import_names_distinct (hs : s.Checked) (sources : List PreparedSource) :
    ((∃ source ∈ sources, (Text.trim source.name).isEmpty = true) →
      importSources s sources = .error (.invalid "Table name cannot be empty")) ∧
    ((∀ source ∈ sources, (Text.trim source.name).isEmpty = false) →
      ∃ chosen, importSources s sources = .ok (importedAll s sources chosen) ∧ chosen.length = sources.length ∧
        Allocated s.taken sources chosen ∧ ((names chosen).map asciiLower).Nodup ∧
          ∀ name ∈ names chosen, (∀ e ∈ s.catalogue, e.relation.same ⟨"data", name⟩ = false) ∧
            ∀ n ∈ s.nodes, eqIgnoreAsciiCase n.tableName name = false) := by
  constructor
  · intro hblank
    rw [importSources, importSources_blank hs (List.forall_mem_nil _) hblank]
    rfl
  · intro hblank
    obtain ⟨chosen, hallocated, hfold⟩ := importSources_fold hs (List.forall_mem_nil _) hblank
    obtain ⟨hlength, hfresh, hnodup⟩ := hallocated.fresh
    refine ⟨chosen, ?_, hlength, hallocated, hnodup, fun name hname => ?_⟩
    · rw [importSources, hfold]
      rfl
    · obtain ⟨hcatalogue, hnodes⟩ := not_taken (hfresh name hname)
      constructor
      · intro e he
        rw [Bool.eq_false_iff]
        intro hsame
        obtain ⟨hschema, heq⟩ := Relation.same_iff.mp hsame
        exact hcatalogue e he (eqIgnoreAsciiCase_iff.mpr hschema) heq
      · intro n hn
        rw [Bool.eq_false_iff]
        intro hsame
        exact hnodes n hn (eqIgnoreAsciiCase_iff.mp hsame)

/-- A raw Table of an earlier import, and the registration of a missing Data Block. -/
def importing : State where
  catalogue := [⟨⟨"data", "Docs_RAW"⟩, .table, []⟩]
  nodes := [⟨"docs", true, none, none⟩]
  edges := []
  tokenizerModels := []

/-- Sources whose names are spelled like raw Tables and suffixed names. -/
def batch : List PreparedSource := [⟨"Docs", []⟩, ⟨"docs_2_raw", []⟩, ⟨"DOCS", []⟩]

theorem batch_is_distinct : importing.Checked ∧ ∃ chosen, importSources importing batch = .ok (importedAll importing batch chosen) ∧
    ((names chosen).map asciiLower).Nodup := by
  have hchecked : importing.Checked := by decide
  obtain ⟨chosen, himported, -, -, hnodup, -⟩ := (import_names_distinct hchecked batch).2 (by decide)
  exact ⟨hchecked, chosen, himported, hnodup⟩

example : (importSources importing batch).toOption.map (fun t => t.nodes.map Node.tableName) =
    some ["docs", "Docs_2_raw", "Docs_2", "docs_2_raw_2_raw", "docs_2_raw_2", "DOCS_3_raw", "DOCS_3"] := by
  decide +kernel

end Distinct

end Wordflow.Registry
