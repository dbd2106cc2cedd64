import Wordflow.Drafts.Reconcile

namespace Wordflow.Drafts

open Library Library.Json Library.Identifier Objects Renames

/-- The relation that a source names is the renamed one, by ASCII case. -/
def isSource (source : Json) (rename : Rename) : Bool := (objectRef source).same rename.source

structure Source (source : Json) : Prop where
  name : ∃ name, source.get? "name" = some (.str name)
  schema : ∀ schema, source.get? "schema" = some schema → schema = .null ∨ ∃ s, schema = .str s

def Reference (value : Json) : Prop :=
  value = .null ∨ (∃ name, value = .str name) ∨ ∃ names : List String, value = .arr (names.map .str)

def strings : Json → List String
  | .str name => [name]
  | .arr values => values.filterMap Json.asStr?
  | _ => []

/-- An object that refers to a relation and, under `fields`, to its columns. -/
structure Input (fields : List String) (v : Json) : Prop where
  source : ∃ source, v.get? "source" = some source ∧ Source source
  references : ∀ field ∈ fields, ∀ value, v.get? field = some value → Reference value

/-- The two foldings tell the same references of an input from the renamed one. -/
structure InputAgrees (toLowerCase : String → String) (rename : Rename) (fields : List String) (v : Json) : Prop where
  source : isRenameSource toLowerCase (v.get "source") rename = true → isSource (v.get "source") rename = true
  columns : isSource (v.get "source") rename = true → ∀ source before after, rename = .column source before after →
    ∀ field ∈ fields, ∀ name ∈ strings (v.get field),
      toLowerCase name = toLowerCase before → asciiLower name = asciiLower before

def blankInput (fields : List String) (v : Json) : Json :=
  modifyAll fields (fun _ => .null) (v.modify "source" fun source => source.modify "name" fun _ => .null)

/-- What an input refers to. -/
def reading (fields : List String) (v : Json) : List Json := v.get "source" :: fields.map v.get

section

variable {toLowerCase : String → String} {rename : Rename} {fields : List String} {v : Json}

theorem Input.exists_obj (h : Input fields v) : ∃ members, v = .obj members := by
  obtain ⟨source, hsource, -⟩ := h.source
  cases v with
  | obj members => exact ⟨members, rfl⟩
  | _ => cases hsource

theorem Input.get_source (h : Input fields v) : v.get? "source" = some (v.get "source") ∧ Source (v.get "source") := by
  obtain ⟨source, hsource, hs⟩ := h.source
  have hget : v.get "source" = source := by rw [Json.get, hsource, Option.getD_some]
  rw [hget]
  exact ⟨hsource, hs⟩

theorem isSource_iff {source : Json} :
    isSource source rename = true ↔
      asciiLower (objectRef source).schema = asciiLower rename.source.schema ∧
        asciiLower (objectRef source).name = asciiLower rename.source.name := Relation.same_iff

theorem isRenameSource_iff {source : Json} :
    isRenameSource toLowerCase source rename = true ↔
      toLowerCase (objectRef source).schema = toLowerCase rename.source.schema ∧
        toLowerCase (objectRef source).name = toLowerCase rename.source.name := by
  simp [isRenameSource]

theorem isRenameSource_of_isSource
    (hlower : ∀ a b : String, asciiLower a = asciiLower b → toLowerCase a = toLowerCase b) {source : Json}
    (h : isSource source rename = true) : isRenameSource toLowerCase source rename = true := by
  obtain ⟨hschema, hname⟩ := isSource_iff.mp h
  exact isRenameSource_iff.mpr ⟨hlower _ _ hschema, hlower _ _ hname⟩

theorem InputAgrees.source_eq (hlower : ∀ a b : String, asciiLower a = asciiLower b → toLowerCase a = toLowerCase b)
    (h : InputAgrees toLowerCase rename fields v) :
    isRenameSource toLowerCase (v.get "source") rename = isSource (v.get "source") rename := by
  rw [Bool.eq_iff_iff]
  exact ⟨h.source, isRenameSource_of_isSource hlower⟩

theorem renameInput_of_not (h : isRenameSource toLowerCase (v.get "source") rename = false) :
    renameInput toLowerCase v rename fields = v := by
  simp [renameInput, h]

theorem renameInput_table {source : Relation} {name : String} (hv : Input fields v)
    (h : isRenameSource toLowerCase (v.get "source") (.table source name) = true) :
    renameInput toLowerCase v (.table source name) fields =
      v.modify "source" fun source => source.modify "name" fun _ => .str name := by
  obtain ⟨hsource, hs⟩ := hv.get_source
  obtain ⟨old, hold⟩ := hs.name
  rw [modify_of_some hsource, modify_of_some hold]
  simp [renameInput, h]

theorem renameInput_column {source : Relation} {before after : String} (hfields : fields.Nodup)
    (h : isRenameSource toLowerCase (v.get "source") (.column source before after) = true) :
    renameInput toLowerCase v (.column source before after) fields =
      modifyAll fields (columns toLowerCase before after) v := by
  simp only [renameInput, h, Bool.not_true, Bool.false_eq_true, if_false]
  exact foldl_set hfields v fun _ _ => rfl

theorem input_name (hv : Input fields v) :
    ∃ source, v.get? "source" = some source ∧ v.get "source" = source ∧
      source.get? "name" = some (.str (objectRef source).name) ∧
      ((source.get? "schema").bind Json.asStr?).getD "data" = (objectRef source).schema := by
  obtain ⟨source, hsource, hs⟩ := hv.source
  obtain ⟨name, hname⟩ := hs.name
  refine ⟨source, hsource, ?_, ?_, rfl⟩
  · rw [Json.get, hsource, Option.getD_some]
  · simp [objectRef, hname, Json.asStr?]

theorem input_of_not (hv : Input fields v) (h : isSource (v.get "source") rename = false) :
    rename.input v fields = (false, v) := by
  obtain ⟨source, hsource, hget, hname, hschema⟩ := input_name hv
  rw [hget, isSource, Relation.same, Bool.and_eq_false_iff] at h
  simp only [Rename.input, hsource, hname, hschema, Option.bind_some, Json.asStr?, Option.some_or]
  rcases h with h | h <;> simp [h]

theorem input_table {source : Relation} {name : String} (hv : Input fields v)
    (h : isSource (v.get "source") (.table source name) = true) :
    (Rename.table source name).input v fields =
      (true, v.modify "source" fun source => source.modify "name" fun _ => .str name) := by
  obtain ⟨ref, hsource, hget, hname, hschema⟩ := input_name hv
  rw [hget, isSource, Relation.same, Bool.and_eq_true] at h
  rw [modify_of_some hsource, modify_of_some hname]
  simp [Rename.input, hsource, hname, hschema, Json.asStr?, h]

theorem input_column {source : Relation} {before after : String} (hv : Input fields v)
    (h : isSource (v.get "source") (.column source before after) = true) :
    (Rename.column source before after).input v fields = (true, modifyAll fields (renameField before after) v) := by
  obtain ⟨ref, hsource, hget, hname, hschema⟩ := input_name hv
  rw [hget, isSource, Relation.same, Bool.and_eq_true] at h
  simp [Rename.input, hsource, hname, hschema, Json.asStr?, h, modifyAll]

theorem columns_eq (hlower : ∀ a b : String, asciiLower a = asciiLower b → toLowerCase a = toLowerCase b)
    {before after : String} {value : Json} (hvalue : Reference value)
    (h : ∀ name ∈ strings value, toLowerCase name = toLowerCase before → asciiLower name = asciiLower before) :
    columns toLowerCase before after value = renameField before after value := by
  have hname : ∀ name ∈ strings value,
      column toLowerCase before after (.str name) =
        .str (if eqIgnoreAsciiCase name before then after else name) := by
    intro name hmem
    by_cases heq : asciiLower name = asciiLower before
    · simp [column, hlower name before heq, eqIgnoreAsciiCase_iff.mpr heq]
    · have hne : toLowerCase name ≠ toLowerCase before := fun he => heq (h name hmem he)
      simp [column, hne, eqIgnoreAsciiCase_iff, heq]
  rcases hvalue with rfl | ⟨name, rfl⟩ | ⟨names, rfl⟩
  · rfl
  · exact hname name (List.mem_singleton_self name)
  · have hstrings : strings (.arr (names.map .str)) = names := by
      simp [strings, List.filterMap_map, Function.comp_def, Json.asStr?]
    rw [hstrings] at hname
    rw [columns, renameField, mapStrings, mapStringItems_strings, List.map_map, List.map_map]
    exact congrArg Json.arr (List.map_congr_left hname)

/-- One input, rewritten in the window and in the database. -/
theorem renameInput_eq (hlower : ∀ a b : String, asciiLower a = asciiLower b → toLowerCase a = toLowerCase b)
    (hfields : fields.Nodup) (hv : Input fields v) (h : InputAgrees toLowerCase rename fields v) :
    renameInput toLowerCase v rename fields = (rename.input v fields).2 := by
  have hsource := h.source_eq hlower
  cases his : isSource (v.get "source") rename with
  | false => rw [renameInput_of_not (hsource.trans his), input_of_not hv his]
  | true =>
      have hts := hsource.trans his
      cases rename with
      | table source name => rw [renameInput_table hv hts, input_table hv his]
      | column source before after =>
          rw [renameInput_column hfields hts, input_column hv his]
          refine modifyAll_congr hfields fun field hfield value hvalue => ?_
          refine columns_eq hlower (hv.references field hfield value hvalue) fun name hname => ?_
          have hget : v.get field = value := by rw [Json.get, hvalue, Option.getD_some]
          exact h.columns his source before after rfl field hfield name (hget.symm ▸ hname)

theorem reference_columns {before after : String} {value : Json} (h : Reference value) :
    Reference (columns toLowerCase before after value) := by
  have hcolumn : ∀ name, column toLowerCase before after (.str name) =
      .str (if toLowerCase name = toLowerCase before then after else name) := by
    intro name
    rw [column]
    split <;> rfl
  rcases h with rfl | ⟨name, rfl⟩ | ⟨names, rfl⟩
  · exact .inl rfl
  · exact .inr (.inl ⟨_, hcolumn name⟩)
  · refine .inr (.inr ⟨names.map fun name => if toLowerCase name = toLowerCase before then after else name, ?_⟩)
    rw [columns, List.map_map, List.map_map]
    exact congrArg Json.arr (List.map_congr_left fun name _ => hcolumn name)

theorem get?_modifyAll_mem {keys : List String} {f : Json → Json} {key : String} (hkeys : keys.Nodup) (h : key ∈ keys) :
    (modifyAll keys f v).get? key = (v.get? key).map f := by
  induction keys generalizing v with
  | nil => cases h
  | cons k keys ih =>
      obtain ⟨hmem, hkeys⟩ := List.nodup_cons.mp hkeys
      rw [modifyAll_cons]
      rcases List.mem_cons.mp h with rfl | h
      · rw [get?_modifyAll hmem, get?_modify_self]
      · have hne : key ≠ k := fun he => hmem (he ▸ h)
        rw [ih hkeys h, get?_modify_of_ne hne]

theorem Input.renameInput (hfields : fields.Nodup) (hnot : "source" ∉ fields) (hv : Input fields v) :
    Input fields (renameInput toLowerCase v rename fields) := by
  cases h : isRenameSource toLowerCase (v.get "source") rename with
  | false => rwa [renameInput_of_not h]
  | true =>
      obtain ⟨source, hsource, hs⟩ := hv.source
      cases rename with
      | table relation name =>
          rw [renameInput_table hv h]
          refine ⟨⟨source.modify "name" fun _ => .str name, ?_, ?_, ?_⟩, fun field hfield value hvalue => ?_⟩
          · rw [get?_modify_self, hsource, Option.map_some]
          · obtain ⟨old, hold⟩ := hs.name
            exact ⟨name, by rw [get?_modify_self, hold, Option.map_some]⟩
          · rw [get?_modify_of_ne (by decide)]
            exact hs.schema
          · have hne : field ≠ "source" := fun he => hnot (he ▸ hfield)
            rw [get?_modify_of_ne hne] at hvalue
            exact hv.references field hfield value hvalue
      | column relation before after =>
          rw [renameInput_column hfields h]
          refine ⟨⟨source, ?_, hs⟩, fun field hfield value hvalue => ?_⟩
          · rw [get?_modifyAll hnot, hsource]
          · rw [get?_modifyAll_mem hfields hfield] at hvalue
            obtain ⟨old, hold, rfl⟩ := Option.map_eq_some_iff.mp hvalue
            exact reference_columns (hv.references field hfield old hold)

theorem blankInput_renameInput (hfields : fields.Nodup) (hnot : "source" ∉ fields) (hv : Input fields v) :
    blankInput fields (renameInput toLowerCase v rename fields) = blankInput fields v := by
  cases h : isRenameSource toLowerCase (v.get "source") rename with
  | false => rw [renameInput_of_not h]
  | true =>
      cases rename with
      | table relation name =>
          rw [renameInput_table hv h, blankInput, blankInput, modify_modify]
          refine congrArg _ (modify_congr fun source _ => ?_)
          rw [modify_modify]
      | column relation before after =>
          rw [renameInput_column hfields h, blankInput, blankInput, modifyAll_modify hnot, modifyAll_modifyAll hfields]

theorem get?_renameInput {key : String} (hfields : fields.Nodup) (hv : Input fields v) (hmem : key ∉ fields)
    (hne : key ≠ "source") : (renameInput toLowerCase v rename fields).get? key = v.get? key := by
  cases h : isRenameSource toLowerCase (v.get "source") rename with
  | false => rw [renameInput_of_not h]
  | true =>
      cases rename with
      | table relation name => rw [renameInput_table hv h, get?_modify_of_ne hne]
      | column relation before after => rw [renameInput_column hfields h, get?_modifyAll hmem]

theorem get?_blankInput {key : String} (hmem : key ∉ fields) (hne : key ≠ "source") :
    (blankInput fields v).get? key = v.get? key := by
  rw [blankInput, get?_modifyAll hmem, get?_modify_of_ne hne]

theorem blankInput_modify {key : String} {f : Json → Json} (hmem : key ∉ fields) (hne : key ≠ "source") :
    blankInput fields (v.modify key f) = (blankInput fields v).modify key f := by
  rw [blankInput, blankInput, modify_comm hne, modifyAll_modify hmem]

theorem reading_modify {key : String} {f : Json → Json} (hmem : key ∉ fields) (hne : key ≠ "source") :
    reading fields (v.modify key f) = reading fields v := by
  rw [reading, reading, get_modify_of_ne hne.symm]
  refine congrArg _ (List.map_congr_left fun field hfield => get_modify_of_ne ?_)
  rintro rfl
  exact hmem hfield

theorem reading_renameInput (h : isRenameSource toLowerCase (v.get "source") rename = false) :
    reading fields (renameInput toLowerCase v rename fields) = reading fields v := by
  rw [renameInput_of_not h]

end

end Wordflow.Drafts
