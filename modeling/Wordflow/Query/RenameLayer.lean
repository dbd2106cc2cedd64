import Wordflow.Query.Wrap
import Wordflow.Renames

namespace Wordflow.Query

open Library Library.Fallible Library.Identifier Objects Renames

/-- One pass of the loop over the select list: `none` where the list is not the one of a rename. -/
def renameStep (rename : Option (String × String)) (field : Json) : Option (Option (String × String)) :=
  if field.get "class" ≠ .str "COLUMN_REF" then none
  else match field.get "column_names" with
    | .arr [name] => match name.asStr? with
      | none => none
      | some before =>
          let after := ((field.get "alias").asStr?).getD ""
          if after ≠ "" ∧ before ≠ after then if rename.isSome then none else some (some (before, after))
          else some rename
    | _ => none

def listRename (tree : Json) : Option (String × String) :=
  match (root tree).get "select_list" with
  | .arr fields => (fields.foldlM renameStep none).join
  | _ => none

def wrapper (db : SqlJson) (wrapped inner : String) : Except Error (Option (String × String)) := do
  let tree ← parse db wrapped
  if canUndo tree then
    let previous ← unwrap db wrapped
    let embedded ← parse db previous
    let embedded ← render db embedded
    let other ← parse db inner
    let other ← render db other
    if embedded ≠ other then .ok none else .ok (listRename tree)
  else .ok none

/-- Recognize only the exact rename wrapper produced by the app, in either direction. -/
def viewRename (db : SqlJson) (source : Relation) (old new : String) : Except Error (Option Rename) := do
  let undone ← wrapper db old new
  let pair ← match undone with
    | some (before, after) => .ok (some (after, before))
    | none => wrapper db new old
  return pair.map fun p => .column source p.1 p.2

section Layers

/-- A column that an item of a select list refers to without a qualifier, and its alias. -/
def reference (item : Json) : Option (String × String) :=
  if item.get "class" ≠ .str "COLUMN_REF" then none
  else match item.get "column_names" with
    | .arr [name] => name.asStr?.map fun before => (before, ((item.get "alias").asStr?).getD "")
    | _ => none

def Changed (name : String × String) : Prop := name.2 ≠ "" ∧ name.1 ≠ name.2

instance (name : String × String) : Decidable (Changed name) := inferInstanceAs (Decidable (_ ∧ _))

/-- The name under which a column is shown. -/
def shownName (name : String × String) : String := if name.2 = "" then name.1 else name.2

/-- What a clause that was not written leaves in the tree. -/
def EmptyClause (v : Json) : Prop :=
  v = .null ∨ v = .arr [] ∨ v = .obj [("map", .arr [])] ∨ v = .str "STANDARD_HANDLING"

instance (v : Json) : Decidable (EmptyClause v) := inferInstanceAs (Decidable (_ ∨ _ ∨ _ ∨ _))

/-- A SELECT of a list from a table, with no other clause. -/
def Bare (node : Json) : Prop :=
  match node with
  | .obj fields => node.get "type" = .str "SELECT_NODE" ∧
      ∀ f ∈ fields, f.1 = "type" ∨ f.1 = "select_list" ∨ f.1 = "from_table" ∨ EmptyClause f.2
  | _ => False

instance (node : Json) : Decidable (Bare node) :=
  match node with
  | .obj fields => inferInstanceAs (Decidable ((Json.obj fields).get "type" = .str "SELECT_NODE" ∧
      ∀ f ∈ fields, f.1 = "type" ∨ f.1 = "select_list" ∨ f.1 = "from_table" ∨ EmptyClause f.2))
  | .null | .bool _ | .num _ | .str _ | .arr _ => isFalse id

/-- Columns are named once and in order, and one of them gets another name that none of them has. -/
structure RenamesOne (columns : List String) (names : List (String × String)) (before after : String) : Prop where
  named : List.Forall₂ (fun n c => eqIgnoreAsciiCase n.1 c = true) names columns
  single : names.filter Changed = [(before, after)]
  free : ∀ n ∈ names, n ≠ (before, after) → eqIgnoreAsciiCase n.1 after = false

/-- A body is wrapped around another by a SELECT that only renames a column. -/
def RenameLayer (db : SqlJson) (columns : Json → List String) (wrapped inner before after : String) : Prop :=
  ∃ tree old items names, parse db wrapped = .ok tree ∧ parse db inner = .ok old ∧
    (root tree).get "from_table" = previousLayer old ∧ Bare (root tree) ∧ (root tree).get "select_list" = .arr items ∧
    items.mapM reference = some names ∧ RenamesOne (columns old) names before after

/-- The query under the mark of a wrapper. -/
def embedded (tree : Json) : Json := ((root tree).get "from_table").get "subquery"

/-- A marked body over another whose list is of columns with one changed name has nothing but that list, and the list has
all columns. -/
def Complete (db : SqlJson) (columns : Json → List String) (wrapped inner : String) : Prop :=
  ∀ tree old items names before after, parse db wrapped = .ok tree → parse db inner = .ok old → canUndo tree = true →
    embedded tree = statement old → (root tree).get "select_list" = .arr items → items.mapM reference = some names →
    names.filter Changed = [(before, after)] →
    (root tree).get "from_table" = previousLayer old ∧ Bare (root tree) ∧
      List.Forall₂ (fun n c => eqIgnoreAsciiCase n.1 c = true) names (columns old) ∧
      ∀ n ∈ names, n ≠ (before, after) → eqIgnoreAsciiCase n.1 after = false

/-- A change of a body is taken for a rename just where it adds or removes the layer of one. -/
def Honest (db : SqlJson) (columns : Json → List String) (source : Relation) (current definition : String) : Prop :=
  (∃ rename, viewRename db source current definition = .ok rename) ∧
    ∀ before after, viewRename db source current definition = .ok (some (.column source before after)) ↔
      RenameLayer db columns definition current before after ∨ RenameLayer db columns current definition after before

end Layers

section Lists

variable {rename : Option (String × String)} {field : Json} {items : List Json} {before after : String}

theorem renameStep_eq : renameStep rename field = (reference field).bind fun n =>
    if Changed n then if rename.isSome then none else some (some n) else some rename := by
  rw [renameStep, reference]
  split
  · rfl
  · split
    · rename_i name _
      rcases name.asStr? with _ | before
      · rfl
      · rfl
    · rfl

/-- What a list of renamed columns comes to: none, the one, or no rename at all. -/
def single : List (String × String) → Option (Option (String × String))
  | [] => some none
  | [name] => some (some name)
  | _ => none

theorem single_eq_some {names : List (String × String)} {name : String × String} :
    (single names).join = some name ↔ names = [name] := by
  match names with
  | [] => simp [single]
  | [n] => simp [single]
  | n :: m :: rest => simp [single]

theorem foldlM_renameStep : items.foldlM renameStep rename =
    (items.mapM reference).bind fun names => single (rename.toList ++ names.filter Changed) := by
  induction items generalizing rename with
  | nil =>
      cases rename with
      | none => rfl
      | some name => rfl
  | cons item items ih =>
      rw [List.foldlM_cons, List.mapM_cons, renameStep_eq]
      rcases reference item with _ | n
      · rfl
      · simp only [Option.bind_eq_bind, Option.bind_some]
        by_cases hchanged : Changed n
        · have hfilter : ∀ names, (n :: names).filter Changed = n :: names.filter Changed := by
            intro names
            exact List.filter_cons_of_pos (decide_eq_true hchanged)
          cases rename with
          | none =>
              rw [if_pos hchanged]
              simp only [Option.isSome_none, Bool.false_eq_true, if_false, Option.bind_some, ih]
              rcases items.mapM reference with _ | names
              · rfl
              · simp [hfilter]
          | some name =>
              rw [if_pos hchanged]
              rcases items.mapM reference with _ | names
              · rfl
              · simp [hfilter, single]
        · have hfilter : ∀ names, (n :: names).filter Changed = names.filter Changed := by
            intro names
            exact List.filter_cons_of_neg (by simpa using hchanged)
          rw [if_neg hchanged, Option.bind_some, ih]
          rcases items.mapM reference with _ | names
          · rfl
          · simp [hfilter]

theorem listRename_eq_some {tree : Json} {name : String × String} : listRename tree = some name ↔ ∃ items names,
    (root tree).get "select_list" = .arr items ∧ items.mapM reference = some names ∧ names.filter Changed = [name] := by
  rw [listRename]
  split
  · rename_i items hitems
    rw [foldlM_renameStep]
    constructor
    · intro h
      rcases hnames : items.mapM reference with _ | names
      · rw [hnames] at h
        cases h
      · rw [hnames, Option.bind_some] at h
        exact ⟨items, names, hitems, hnames, single_eq_some.mp h⟩
    · rintro ⟨items', names, hitems', hnames, hname⟩
      obtain rfl := Json.arr.inj (hitems.symm.trans hitems')
      rw [hnames, Option.bind_some]
      exact single_eq_some.mpr hname
  · rename_i hnone
    refine ⟨nofun, ?_⟩
    rintro ⟨items, names, hitems, -⟩
    exact absurd hitems (hnone items)

end Lists

section Nested

theorem sizeOf_lookup {fields : List (String × Json)} {key : String} {v : Json} (h : Json.lookup fields key = some v) :
    sizeOf v < sizeOf fields := by
  induction fields with
  | nil => cases h
  | cons field rest ih =>
      obtain ⟨k, w⟩ := field
      rw [Json.lookup] at h
      simp only [List.cons.sizeOf_spec, Prod.mk.sizeOf_spec]
      split at h
      · obtain rfl := Option.some.inj h
        omega
      · have := ih h
        omega

/-- What is read from an object is smaller than the object. -/
theorem sizeOf_get {v : Json} {key other : String} (h : v.get other ≠ .null) : sizeOf (v.get key) < sizeOf v := by
  obtain ⟨fields, rfl⟩ := Json.exists_obj_of_get h
  rw [Json.get_obj]
  rcases hlookup : Json.lookup fields key with _ | w
  · simp only [Option.getD_none, Json.null.sizeOf_spec, Json.obj.sizeOf_spec]
    have : 0 < sizeOf fields := by
      cases fields with
      | nil => simp
      | cons f rest => simp only [List.cons.sizeOf_spec]; omega
    omega
  · have := sizeOf_lookup hlookup
    simp only [Option.getD_some, Json.obj.sizeOf_spec]
    omega

theorem sizeOf_embedded {tree : Json} (h : canUndo tree = true) : sizeOf (embedded tree) < sizeOf (statement tree) := by
  have htype : ((root tree).get "from_table").get "type" ≠ .null := by
    intro hnull
    simp [canUndo, hnull] at h
  have hfrom : (root tree).get "from_table" ≠ .null := by
    intro hnull
    exact htype (by rw [hnull]; rfl)
  have hroot : (statement tree).get "node" ≠ .null := by
    intro hnull
    exact hfrom (by rw [root, hnull]; rfl)
  calc
    sizeOf (embedded tree) < sizeOf ((root tree).get "from_table") := sizeOf_get htype
    _ < sizeOf (root tree) := sizeOf_get hfrom
    _ < sizeOf (statement tree) := sizeOf_get hroot

/-- Of two bodies at most one is wrapped around the other. -/
theorem not_both_wrapped {a b : Json} (ha : canUndo a = true) (hb : canUndo b = true) (hab : embedded a = statement b)
    (hba : embedded b = statement a) : False := by
  have hfirst := sizeOf_embedded ha
  have hsecond := sizeOf_embedded hb
  rw [hab] at hfirst
  rw [hba] at hsecond
  omega

end Nested

section Recognition

variable {db : SqlJson} {columns : Json → List String} {source : Relation} {current definition wrapped inner : String}
  {tree old : Json} {before after : String}

/-- DuckDB can render a subquery of what it has parsed. -/
def RendersEmbedded (db : SqlJson) : Prop := ∀ {sql tree}, parse db sql = .ok tree → canUndo tree = true →
  ∃ text, render db (setStatement tree (embedded tree)) = .ok text

/-- The recogniser reads the list of a body that is marked over the other. -/
theorem wrapper_eq (hdb : Inverse db) (hembedded : RendersEmbedded db) (htree : parse db wrapped = .ok tree)
    (hold : parse db inner = .ok old) : wrapper db wrapped inner =
      .ok (if canUndo tree = true ∧ embedded tree = statement old then listRename tree else none) := by
  rw [wrapper, htree]
  simp only [bind, Except.bind]
  by_cases hundo : canUndo tree = true
  · obtain ⟨text, htext⟩ := hembedded htree hundo
    obtain ⟨other, hother⟩ := hdb.render_parsed hold
    obtain ⟨hquery, hstatement⟩ := statement_setStatement (hdb.parse_tree htree) (embedded tree)
    have hunwrap : unwrap db wrapped = .ok text := by
      rw [unwrap, htree]
      simp only [bind, Except.bind, hundo, if_true]
      exact htext
    have hparse := hdb.parse_render hquery htext
    have hsame : text = other ↔ embedded tree = statement old := by
      constructor
      · rintro rfl
        have hback := hdb.parse_render (hdb.parse_tree hold) hother
        rw [hparse] at hback
        rw [← hstatement, Except.ok.inj hback]
      · intro heq
        have hback : setStatement tree (embedded tree) = old := hquery.ext (hdb.parse_tree hold) (hstatement.trans heq)
        rw [hback, hother] at htext
        exact (Except.ok.inj htext).symm
    rw [if_pos hundo, hunwrap]
    simp only [hparse, htext, hold, hother]
    by_cases heq : embedded tree = statement old
    · rw [if_neg (not_not.mpr (hsame.mpr heq)), if_pos ⟨hundo, heq⟩]
    · rw [if_pos (mt hsame.mp heq), if_neg fun h => heq h.2]
  · rw [if_neg hundo, if_neg fun h => hundo h.1]

/-- What a marked body over another renames, by its list. -/
def layered (tree old : Json) : Option (String × String) :=
  if canUndo tree = true ∧ embedded tree = statement old then listRename tree else none

theorem layered_eq_some {name : String × String} : layered tree old = some name ↔
    canUndo tree = true ∧ embedded tree = statement old ∧ listRename tree = some name := by
  rw [layered]
  split
  · rename_i h
    exact ⟨fun hname => ⟨h.1, h.2, hname⟩, fun hname => hname.2.2⟩
  · rename_i h
    exact ⟨nofun, fun hname => absurd ⟨hname.1, hname.2.1⟩ h⟩

theorem viewRename_eq (hdb : Inverse db) (hembedded : RendersEmbedded db) (htree : parse db current = .ok tree)
    (hold : parse db definition = .ok old) : viewRename db source current definition =
      .ok ((((layered tree old).map Prod.swap).or (layered old tree)).map fun p => .column source p.1 p.2) := by
  rw [viewRename, wrapper_eq hdb hembedded htree hold, wrapper_eq hdb hembedded hold htree]
  simp only [bind, Except.bind]
  rw [← layered]
  rcases layered tree old with _ | ⟨b, a⟩
  · rfl
  · rfl

/-- A change comes out as a rename where one of the bodies is marked over the other with the list of one. -/
theorem viewRename_eq_some (hdb : Inverse db) (hembedded : RendersEmbedded db) (htree : parse db current = .ok tree)
    (hold : parse db definition = .ok old) : viewRename db source current definition = .ok (some (.column source before after)) ↔
      layered tree old = some (after, before) ∨ layered old tree = some (before, after) := by
  rw [viewRename_eq hdb hembedded htree hold]
  rcases hfirst : layered tree old with _ | ⟨b, a⟩
  · rcases hsecond : layered old tree with _ | ⟨b', a'⟩
    · simp
    · simp
  · have hnone : layered old tree = none := by
      by_contra hsome
      obtain ⟨name, hname⟩ := Option.ne_none_iff_exists'.mp hsome
      obtain ⟨hundo, heq, -⟩ := layered_eq_some.mp hfirst
      obtain ⟨hundo', heq', -⟩ := layered_eq_some.mp hname
      exact not_both_wrapped hundo hundo' heq heq'
    rw [hnone]
    simp [and_comm]

theorem RenameLayer.layered (h : RenameLayer db columns wrapped inner before after) (htree : parse db wrapped = .ok tree)
    (hold : parse db inner = .ok old) : layered tree old = some (before, after) := by
  obtain ⟨tree', old', items, names, htree', hold', hfrom, -, hitems, hnames, hone⟩ := h
  obtain rfl := Except.ok.inj (htree.symm.trans htree')
  obtain rfl := Except.ok.inj (hold.symm.trans hold')
  apply layered_eq_some.mpr
  refine ⟨canUndo_of_layer hfrom, ?_, listRename_eq_some.mpr ⟨items, names, hitems, hnames, hone.single⟩⟩
  rw [embedded, hfrom]
  rfl

/-- Where marked bodies are complete, those with the list of a rename are its layers. -/
theorem Complete.layer (h : Complete db columns wrapped inner) (htree : parse db wrapped = .ok tree)
    (hold : parse db inner = .ok old) (hlayered : Query.layered tree old = some (before, after)) :
    RenameLayer db columns wrapped inner before after := by
  obtain ⟨hundo, heq, hname⟩ := layered_eq_some.mp hlayered
  obtain ⟨items, names, hitems, hnames, hsingle⟩ := listRename_eq_some.mp hname
  obtain ⟨hfrom, hbare, hnamed, hfree⟩ := h tree old items names before after htree hold hundo heq hitems hnames hsingle
  exact ⟨tree, old, items, names, htree, hold, hfrom, hbare, hitems, hnames, hnamed, hsingle, hfree⟩

theorem complete_of_layer (htree : parse db wrapped = .ok tree) (hold : parse db inner = .ok old)
    (h : ∀ before after, layered tree old = some (before, after) → RenameLayer db columns wrapped inner before after) :
    Complete db columns wrapped inner := by
  intro tree' old' items names before after htree' hold' hundo heq hitems hnames hsingle
  obtain rfl := Except.ok.inj (htree.symm.trans htree')
  obtain rfl := Except.ok.inj (hold.symm.trans hold')
  have hlayered := layered_eq_some.mpr ⟨hundo, heq, listRename_eq_some.mpr ⟨items, names, hitems, hnames, hsingle⟩⟩
  obtain ⟨tree'', old'', items', names', htree'', hold'', hfrom, hbare, hitems', hnames', hone⟩ := h before after hlayered
  obtain rfl := Except.ok.inj (htree.symm.trans htree'')
  obtain rfl := Except.ok.inj (hold.symm.trans hold'')
  obtain rfl := Json.arr.inj (hitems.symm.trans hitems')
  obtain rfl := Option.some.inj (hnames.symm.trans hnames')
  exact ⟨hfrom, hbare, hone.named, hone.free⟩

/-- A reference to a column after the columns of its source were reconciled. -/
def followed (rename : Option Rename) (name : String) : String := (rename.map fun r => r.field name).getD name

/-- A body shows a column under a name of its list. -/
def Shows (tree : Json) (name : String) : Prop := ∃ items names,
  (root tree).get "select_list" = .arr items ∧ items.mapM reference = some names ∧ name ∈ names.map shownName

theorem named_distinct {names : List (String × String)} {fields : List String}
    (h : List.Forall₂ (fun n c => eqIgnoreAsciiCase n.1 c = true) names fields)
    (hdistinct : fields.Pairwise fun a b => eqIgnoreAsciiCase a b = false) :
    names.Pairwise fun n m => eqIgnoreAsciiCase n.1 m.1 = false := by
  induction h with
  | nil => exact .nil
  | @cons n c names fields hn hrest ih =>
      obtain ⟨hc, hfields⟩ := List.pairwise_cons.mp hdistinct
      apply List.pairwise_cons.mpr
      refine ⟨fun m hm => ?_, ih hfields⟩
      obtain ⟨d, hd, hmd⟩ := forall₂_mem_left hrest hm
      rw [Bool.eq_false_iff]
      intro hnm
      have hcd := eqIgnoreAsciiCase_trans (eqIgnoreAsciiCase_trans (eqIgnoreAsciiCase_comm n.1 c ▸ hn) hnm) hmd
      rw [hc d hd] at hcd
      cases hcd

/-- A column that was followed to its name under a layer and back is where it was. -/
theorem RenamesOne.restored {fields : List String} {names : List (String × String)} (h : RenamesOne fields names before after)
    (hdistinct : fields.Pairwise fun a b => eqIgnoreAsciiCase a b = false) {n : String × String} (hn : n ∈ names) :
    followed (some (.column source before after)) (followed (some (.column source after before)) (shownName n)) =
      shownName n := by
  have hone : (before, after) ∈ names.filter Changed := h.single ▸ List.mem_singleton_self _
  obtain ⟨hmem, hchanged⟩ := List.mem_filter.mp hone
  obtain ⟨hafter, -⟩ : Changed (before, after) := of_decide_eq_true hchanged
  by_cases heq : n = (before, after)
  · subst heq
    simp [followed, Rename.field, shownName, hafter]
  · have hsame : shownName n = n.1 := by
      by_contra hne
      have hshown : Changed n := by
        rw [shownName] at hne
        split at hne
        · exact absurd rfl hne
        · rename_i halias
          exact ⟨halias, Ne.symm hne⟩
      have hfilter : n ∈ names.filter Changed := List.mem_filter.mpr ⟨hn, decide_eq_true hshown⟩
      rw [h.single] at hfilter
      exact heq (List.mem_singleton.mp hfilter)
    have hfree := h.free n hn heq
    have hsymm : Std.Symm fun n m : String × String => eqIgnoreAsciiCase n.1 m.1 = false :=
      ⟨fun n m h => eqIgnoreAsciiCase_comm n.1 m.1 ▸ h⟩
    have hbefore := (named_distinct h.named hdistinct).forall hn hmem heq
    rw [hsame]
    simp only [followed, Option.map_some, Option.getD_some, Rename.field, hfree, hbefore, Bool.false_eq_true, if_false]

end Recognition

section Wrapped

variable {fields : List (String × Json)} {v item : Json} {n : String × String}

theorem renameQualifier_other (hcolumn : v.get "class" = .str "COLUMN_REF" → (v.get "column_names").item 0 ≠ .str INPUT)
    (hstar : v.get "class" ≠ .str "STAR") : renameQualifier v = v := by
  have hfirst : ¬(v.get "class" = .str "COLUMN_REF" ∧ (v.get "column_names").item 0 = .str INPUT) := fun h => hcolumn h.1 h.2
  have hsecond : ¬(v.get "class" = .str "STAR" ∧ v.get "relation_name" = .str INPUT) := fun h => hstar h.1
  simp only [renameQualifier, if_neg hfirst, if_neg hsecond]

theorem asStr?_renamed (v : Json) : (renameInputQualifiers v).asStr? = v.asStr? := by
  have hobj : ∀ fs, (renameQualifier (.obj fs)).asStr? = none := by
    intro fs
    obtain ⟨renamed, h, -⟩ := renameQualifier_obj fs
    rw [h]
    rfl
  cases v with
  | obj fields =>
      rw [renameInputQualifiers]
      split
      · exact hobj _
      · exact hobj _
  | null | bool | num | str | arr => rfl

theorem renamed_str {text : String} : renameInputQualifiers v = .str text ↔ v = .str text := by
  have h := asStr?_renamed v
  constructor
  · intro hv
    rw [hv] at h
    cases v with
    | str s => exact congrArg Json.str (Option.some.inj h).symm
    | null | bool | num | arr | obj => cases h
  · rintro rfl
    rfl

/-- What wrapping does to an object that no qualifier makes a reference to the input. -/
theorem renamed_obj (hclass : (Json.obj fields).get "class" = .str "COLUMN_REF" →
      (((Json.obj fields).get "column_names").item 0) ≠ .str INPUT ∧ ∃ name, (Json.obj fields).get "column_names" = .arr [.str name])
    (hstar : (Json.obj fields).get "class" ≠ .str "STAR") :
    ∃ fields', renameInputQualifiers (.obj fields) = .obj fields' ∧ (fields' = fields ∨ fields' = renameInputFields fields) := by
  rw [renameInputQualifiers]
  split
  · exact ⟨fields, renameQualifier_other (fun h => (hclass h).1) hstar, .inl rfl⟩
  · have hget : ∀ key, (Json.obj (renameInputFields fields)).get key = renameInputQualifiers ((Json.obj fields).get key) := by
      intro key
      rw [Json.get_obj, Json.get_obj, lookup_renameInputFields]
      rcases Json.lookup fields key with _ | w
      · rfl
      · rfl
    refine ⟨_, renameQualifier_other (fun h => ?_) fun h => ?_, .inr rfl⟩
    · rw [hget, renamed_str] at h
      obtain ⟨hinput, name, hname⟩ := hclass h
      rw [hname] at hinput
      rw [hget, hname]
      exact hinput
    · rw [hget, renamed_str] at h
      exact hstar h

theorem reference_renamed (h : reference item = some n) (hinput : n.1 ≠ INPUT) :
    reference (renameInputQualifiers item) = some n := by
  rw [reference] at h
  split at h
  · cases h
  · rename_i hclass
    replace hclass := not_not.mp hclass
    split at h
    · rename_i name hnames
      obtain ⟨before, hbefore, rfl⟩ := Option.map_eq_some_iff.mp h
      obtain rfl : name = .str before := by
        cases name with
        | str text => exact congrArg Json.str (Option.some.inj hbefore)
        | null | bool | num | arr | obj => cases hbefore
      obtain ⟨fields, rfl⟩ := @Json.exists_obj_of_get "class" item (by rw [hclass]; exact nofun)
      obtain ⟨fields', heq, hfields⟩ := @renamed_obj fields (fun _ => ⟨by
        rw [hnames]
        exact fun hname => hinput (Json.str.inj hname), before, hnames⟩) (by rw [hclass]; decide)
      have hget : ∀ key, (Json.obj fields').get key = (Json.obj fields).get key ∨
          (Json.obj fields').get key = renameInputQualifiers ((Json.obj fields).get key) := by
        intro key
        rcases hfields with rfl | rfl
        · exact .inl rfl
        · right
          rw [Json.get_obj, Json.get_obj, lookup_renameInputFields]
          rcases Json.lookup fields key with _ | w
          · rfl
          · rfl
      have hclass' : (Json.obj fields').get "class" = .str "COLUMN_REF" := by
        rcases hget "class" with h | h
        · exact h.trans hclass
        · exact h.trans (renamed_str.mpr hclass)
      have hnames' : (Json.obj fields').get "column_names" = .arr [.str before] := by
        rcases hget "column_names" with h | h
        · exact h.trans hnames
        · rw [h, hnames]
          rfl
      have halias' : ((Json.obj fields').get "alias").asStr? = ((Json.obj fields).get "alias").asStr? := by
        rcases hget "alias" with h | h
        · rw [h]
        · rw [h, asStr?_renamed]
      rw [heq, reference, if_neg (not_not.mpr hclass'), hnames', halias']
      rfl
    · cases h

theorem references_renamed {items : List Json} {names : List (String × String)} (h : items.mapM reference = some names)
    (hinput : ∀ n ∈ names, n.1 ≠ INPUT) : (renameInputItems items).mapM reference = some names := by
  have hall := mapM_eq_some.mp h
  clear h
  induction hall with
  | nil => rfl
  | @cons item n items names hitem _ ih =>
      obtain ⟨hn, hrest⟩ := List.forall_mem_cons.mp hinput
      rw [renameInputItems, List.mapM_cons, reference_renamed hitem hn, ih hrest]
      rfl

theorem emptyClause_renamed (h : EmptyClause v) : renameInputQualifiers v = v := by
  rcases h with rfl | rfl | rfl | rfl
  · rfl
  · rfl
  · rfl
  · rfl

theorem mem_insert {key : String} {f : String × Json} (h : f ∈ Json.insert fields key v) : f = (key, v) ∨ f ∈ fields := by
  induction fields with
  | nil => exact .inl (List.mem_singleton.mp h)
  | cons g rest ih =>
      obtain ⟨k, w⟩ := g
      rw [Json.insert] at h
      split at h
      · rcases List.mem_cons.mp h with rfl | h
        · exact .inl rfl
        · exact .inr (List.mem_cons_of_mem _ h)
      · rcases List.mem_cons.mp h with rfl | h
        · exact .inr List.mem_cons_self
        · exact (ih h).imp_right (List.mem_cons_of_mem _)

theorem mem_renameInputFields {f : String × Json} (h : f ∈ renameInputFields fields) :
    ∃ g ∈ fields, f = (g.1, renameInputQualifiers g.2) := by
  induction fields with
  | nil => cases h
  | cons g rest ih =>
      rcases List.mem_cons.mp h with rfl | h
      · exact ⟨g, List.mem_cons_self, rfl⟩
      · obtain ⟨g', hg', hf⟩ := ih h
        exact ⟨g', List.mem_cons_of_mem _ hg', hf⟩

/-- A field that a bare SELECT has beside its list and its table is empty. -/
theorem Bare.get_empty (h : Bare v) {key : String} (htype : key ≠ "type") (hlist : key ≠ "select_list")
    (hfrom : key ≠ "from_table") : EmptyClause (v.get key) := by
  cases v with
  | obj fields =>
      rw [Json.get_obj]
      rcases hlookup : Json.lookup fields key with _ | w
      · exact .inl rfl
      · have hmem : (key, w) ∈ fields := by
          clear h
          induction fields with
          | nil => cases hlookup
          | cons f rest ih =>
              obtain ⟨k, u⟩ := f
              rw [Json.lookup] at hlookup
              split at hlookup
              · rename_i hk
                obtain rfl := Option.some.inj hlookup
                exact hk ▸ List.mem_cons_self
              · exact List.mem_cons_of_mem _ (ih hlookup)
        rcases h.2 _ hmem with h | h | h | h
        · exact absurd h htype
        · exact absurd h hlist
        · exact absurd h hfrom
        · exact h
  | null | bool | num | str | arr => exact h.elim

/-- Wrapping a body by a SELECT that only renames a column makes a layer of the rename. -/
theorem wrap_renames {db : SqlJson} {columns : Json → List String} {outer inner text before after : String} {tree old : Json}
    {items : List Json} {names : List (String × String)} (hdb : Inverse db) (houter : parse db outer = .ok tree)
    (hbare : Bare (root tree)) (hitems : (root tree).get "select_list" = .arr items) (hnames : items.mapM reference = some names)
    (hinput : ∀ n ∈ names, n.1 ≠ INPUT) (hold : parse db inner = .ok old) (hone : RenamesOne (columns old) names before after)
    (hwrap : wrap db outer inner = .ok text) : RenameLayer db columns text inner before after := by
  simp only [wrap] at hwrap
  obtain ⟨tree', htree', hwrap⟩ := bind_eq_ok.mp hwrap
  obtain rfl := Except.ok.inj (houter.symm.trans htree')
  obtain ⟨node, hnode, hwrap⟩ := bind_eq_ok.mp hwrap
  obtain ⟨old', hold', hwrap⟩ := bind_eq_ok.mp hwrap
  obtain ⟨sql, hsql, hwrap⟩ := bind_eq_ok.mp hwrap
  obtain ⟨-, -, hwrap⟩ := bind_eq_ok.mp hwrap
  cases hwrap
  obtain rfl := Except.ok.inj (hold.symm.trans hold')
  obtain ⟨hquery, hstatement⟩ := statement_setStatement (hdb.parse_tree houter)
    ((statement tree).set "node" (renameInputQualifiers (node.set "from_table" (previousLayer old))))
  have hroot : root (setRoot tree (renameInputQualifiers (node.set "from_table" (previousLayer old)))) =
      renameInputQualifiers (node.set "from_table" (previousLayer old)) := by
    rw [root, setRoot, hstatement, Json.get_set_self (statement_obj hnode)]
  have hfrom := renamed_from_table old hnode
  obtain ⟨htype, rfl⟩ := outerNode_spec hnode
  obtain ⟨fields, hfields⟩ := @Json.exists_obj_of_get "type" (root tree) (by rw [htype]; rintro ⟨⟩)
  rw [hfields] at hbare hitems htype hroot hfrom hsql hquery hnode
  have hset : ((Json.obj fields).set "from_table" (((Json.obj fields).get "from_table").set "alias" (.str ""))).set "from_table"
      (previousLayer old) = .obj (Json.insert fields "from_table" (previousLayer old)) := Json.set_set_obj
  rw [hset] at hroot hfrom hsql hquery
  have hget : ∀ key, key ≠ "from_table" → (Json.obj (Json.insert fields "from_table" (previousLayer old))).get key =
      (Json.obj fields).get key := by
    intro key hkey
    rw [Json.get_obj, Json.get_obj, Json.lookup_insert_of_ne hkey]
  have hclass := @Bare.get_empty _ hbare "class" (by decide) (by decide) (by decide)
  have hnot : ∀ class_ : String, class_ ≠ "STANDARD_HANDLING" →
      (Json.obj (Json.insert fields "from_table" (previousLayer old))).get "class" ≠ .str class_ := by
    intro class_ hne h
    rw [hget _ (by decide)] at h
    rw [h] at hclass
    rcases hclass with h | h | h | h
    · cases h
    · cases h
    · cases h
    · exact hne (Json.str.inj h)
  obtain ⟨fields', heq, hcases⟩ := renamed_obj (fun h => absurd h (hnot _ (by decide))) (hnot _ (by decide))
  have hrenamed : fields' = Json.insert fields "from_table" (previousLayer old) ∨
      fields' = renameInputFields (Json.insert fields "from_table" (previousLayer old)) := hcases
  rw [heq] at hfrom
  replace hroot := hroot.trans heq
  have hread : ∀ key, (Json.obj fields').get key = (Json.obj (Json.insert fields "from_table" (previousLayer old))).get key ∨
      (Json.obj fields').get key =
        renameInputQualifiers ((Json.obj (Json.insert fields "from_table" (previousLayer old))).get key) := by
    intro key
    rcases hrenamed with rfl | rfl
    · exact .inl rfl
    · right
      rw [Json.get_obj, Json.get_obj, lookup_renameInputFields]
      rcases Json.lookup _ key with _ | w
      · rfl
      · rfl
  have hlist : ∃ items', (Json.obj fields').get "select_list" = .arr items' ∧ items'.mapM reference = some names := by
    rcases hread "select_list" with h | h
    · exact ⟨items, by rw [h, hget _ (by decide), hitems], hnames⟩
    · refine ⟨renameInputItems items, ?_, references_renamed hnames hinput⟩
      rw [h, hget _ (by decide), hitems]
      rfl
  obtain ⟨items', hitems', hnames'⟩ := hlist
  have hbare' : Bare (.obj fields') := by
    constructor
    · rcases hread "type" with h | h
      · rw [h, hget _ (by decide), htype]
      · rw [h, hget _ (by decide), htype]
        rfl
    · have hempty : ∀ f ∈ Json.insert fields "from_table" (previousLayer old),
          f.1 = "type" ∨ f.1 = "select_list" ∨ f.1 = "from_table" ∨ EmptyClause f.2 := by
        intro f hf
        rcases mem_insert hf with rfl | hf
        · exact .inr (.inr (.inl rfl))
        · exact hbare.2 f hf
      rcases hrenamed with rfl | rfl
      · exact hempty
      · intro f hf
        obtain ⟨g, hg, rfl⟩ := mem_renameInputFields hf
        rcases hempty g hg with h | h | h | h
        · exact .inl h
        · exact .inr (.inl h)
        · exact .inr (.inr (.inl h))
        · exact .inr (.inr (.inr ((emptyClause_renamed h).symm ▸ h)))
  exact ⟨_, old, items', names, hdb.parse_render hquery hsql, hold, (congrArg (Json.get · "from_table") hroot).trans hfrom,
    cast (congrArg Bare hroot).symm hbare', (congrArg (Json.get · "select_list") hroot).trans hitems', hnames', hone⟩

end Wrapped

section Examples

def aliased (name shown : String) : Json :=
  .obj [("class", .str "COLUMN_REF"), ("type", .str "COLUMN_REF"), ("alias", .str shown), ("column_names", .arr [.str name])]

def selectItems (items : List Json) (source : Json) : Json :=
  .obj [("error", .bool false), ("statements", .arr [.obj [
    ("node", .obj [("type", .str "SELECT_NODE"), ("modifiers", .arr []), ("cte_map", .obj [("map", .arr [])]),
      ("select_list", .arr items), ("from_table", source), ("where_clause", .null)]),
    ("named_param_map", .arr [])]])]

def docsBody : Json := selectItems [aliased "text" ""] (baseTable "docs")

def renamedBody : Json := selectItems [aliased "text" "content"] (previousLayer docsBody)

def copiedBody : Json := selectItems [aliased "text" "", aliased "text" "copy"] (previousLayer docsBody)

/-- A query, a rename of its column and a copy of it. -/
def layeredDocs : List (String × Json) := [("docs", docsBody), ("renamed", renamedBody), ("copied", copiedBody)]

theorem layeredDocs_inverse : Inverse (.ofQueries layeredDocs) := by
  apply SqlJson.ofQueries_inverse
  · simp only [layeredDocs, List.forall_mem_cons]
    exact ⟨⟨_, rfl⟩, ⟨_, rfl⟩, ⟨_, rfl⟩, by simp⟩
  · decide

theorem layeredDocs_renders : RendersEmbedded (.ofQueries layeredDocs) := by
  intro sql tree htree hundo
  have hmem := SqlJson.ofQueries_parse htree
  simp only [layeredDocs, List.mem_cons, Prod.mk.injEq, List.not_mem_nil, or_false] at hmem
  rcases hmem with ⟨-, rfl⟩ | ⟨-, rfl⟩ | ⟨-, rfl⟩
  · exact absurd hundo (by decide)
  · exact ⟨"docs", by decide⟩
  · exact ⟨"docs", by decide⟩

def textOnly (_ : Json) : List String := ["text"]

def docsView : Relation := ⟨"data", "docs"⟩

end Examples

end Wordflow.Query
