import Wordflow.Arrow.Survival

namespace Wordflow.Arrow

open Library Library.Fallible Library.OrderedMap Objects

/-- A row of `wordflow.arrow_metadata`. The text of its field path is that of the list. -/
structure Row where
  relation : Relation
  annotation : Annotation
  deriving DecidableEq

def Row.key (row : Row) : Relation × List String := (row.relation, row.annotation.path)

structure MetadataTable where
  rows : List Row
  keys : (rows.map Row.key).Nodup
  paths : ∀ row ∈ rows, row.annotation.path ≠ []

namespace MetadataTable

def load (t : MetadataTable) (relation : Relation) : List Annotation :=
  (t.rows.filter fun row => row.relation = relation).map Row.annotation

def delete (t : MetadataTable) (key : Relation × List String) : MetadataTable where
  rows := t.rows.filter fun row => row.key ≠ key
  keys := (List.filter_sublist.map Row.key).nodup t.keys
  paths := fun row hrow => t.paths row (List.mem_of_mem_filter hrow)

def fieldPathError : Error := .invalid "Arrow field paths must be non-empty arrays of strings"

def duplicateKey : Error := ⟨"sql_error", "Constraint Error"⟩

def insert (t : MetadataTable) (row : Row) : Except Error MetadataTable :=
  if hpath : row.annotation.path = [] then .error fieldPathError
  else if hkey : row.key ∈ t.rows.map Row.key then .error duplicateKey
  else .ok {
    rows := t.rows ++ [row]
    keys := by
      rw [List.map_append]
      exact t.keys.append (List.nodup_singleton _) (by simpa using hkey)
    paths := by
      intro other hother
      rcases List.mem_append.mp hother with hother | hother
      · exact t.paths other hother
      · cases List.mem_singleton.mp hother
        exact hpath }

end MetadataTable

def store (annotations : List Annotation) (t : MetadataTable) (relation : Relation) : Except Error MetadataTable :=
  annotations.foldlM (fun t a => t.insert ⟨relation, a⟩) t

/-- An annotation under the new name of its column. -/
def moved (after : String) (a : Annotation) : Annotation := { a with path := after :: a.path.tail }

def renameColumn (t : MetadataTable) (relation : Relation) (before : String) (after : Option String) :
    Except Error MetadataTable :=
  ((t.load relation).filter fun a => a.path.head? = some before).foldlM (fun t a =>
    let t := t.delete (relation, a.path)
    match after with
    | some after => store [moved after a] t relation
    | none => .ok t) t

/-- The name of a column after one rename. -/
def renamed (before after column : String) : String := if column = before then after else column

/-- The name of a column after renames, one after the other. -/
def currentName : List (String × String) → String → String
  | [], column => column
  | (before, after) :: renames, column => currentName renames (renamed before after column)

/-- Each new name is unused at that moment. -/
def Unused : List String → List (String × String) → Prop
  | _, [] => True
  | columns, (before, after) :: renames => after ∉ columns ∧ Unused (columns.map (renamed before after)) renames

def renameColumns (t : MetadataTable) (relation : Relation) (renames : List (String × String)) :
    Except Error MetadataTable :=
  renames.foldlM (fun t r => renameColumn t relation r.1 (some r.2)) t

/-- A row of a relation with its column under another name. -/
def follow (relation : Relation) (name : String → String) (row : Row) : Row :=
  if row.relation = relation then
    { row with annotation := { row.annotation with path := (row.annotation.path.head?.map name).toList ++ row.annotation.path.tail } }
  else row

section Renames

variable {t : MetadataTable} {relation : Relation} {before after : String}

theorem insert_ok {row : Row} (hpath : row.annotation.path ≠ []) (hkey : row.key ∉ t.rows.map Row.key) :
    ∃ t', t.insert row = .ok t' ∧ t'.rows = t.rows ++ [row] := by
  rw [MetadataTable.insert, dif_neg hpath, dif_neg hkey]
  exact ⟨_, rfl, rfl⟩

theorem row_of_key {row other : Row} (hrow : row ∈ t.rows) (hother : other ∈ t.rows) (h : row.key = other.key) : row = other :=
  List.inj_on_of_nodup_map t.keys hrow hother h

/-- Renaming some annotations takes their rows out and adds the renamed ones. -/
theorem renameRows_ok {annotations : List Annotation} (hne : before ≠ after)
    (hpaths : (annotations.map Annotation.path).Nodup)
    (hrows : ∀ a ∈ annotations, ⟨relation, a⟩ ∈ t.rows ∧ a.path.head? = some before)
    (hfree : ∀ a ∈ annotations, (relation, after :: a.path.tail) ∉ t.rows.map Row.key) :
    ∃ t', annotations.foldlM (fun t a => store [moved after a] (t.delete (relation, a.path)) relation) t = .ok t' ∧
      t'.rows = t.rows.filter (fun row => ¬(row.relation = relation ∧ row.annotation ∈ annotations)) ++
        annotations.map (fun a => ⟨relation, moved after a⟩) := by
  induction annotations generalizing t with
  | nil =>
      refine ⟨t, rfl, ?_⟩
      have hall : t.rows.filter (fun row => ¬(row.relation = relation ∧ row.annotation ∈ ([] : List Annotation))) = t.rows :=
        List.filter_eq_self.mpr fun row hrow => by simp
      rw [hall, List.map_nil, List.append_nil]
  | cons a annotations ih =>
      obtain ⟨hnew, hrest⟩ := List.nodup_cons.mp hpaths
      obtain ⟨⟨hmem, hhead⟩, hothers⟩ := List.forall_mem_cons.mp hrows
      obtain ⟨hfreeFirst, hfreeOthers⟩ := List.forall_mem_cons.mp hfree
      have hkept : ∀ {key}, key ∉ t.rows.map Row.key → key ∉ (t.delete (relation, a.path)).rows.map Row.key := by
        intro key hkey hin
        obtain ⟨row, hrow, rfl⟩ := List.mem_map.mp hin
        exact hkey (List.mem_map_of_mem (List.mem_of_mem_filter hrow))
      obtain ⟨t₁, hinsert, hrows₁⟩ := @insert_ok (t.delete (relation, a.path)) ⟨relation, moved after a⟩
        (List.cons_ne_nil _ _) (hkept hfreeFirst)
      have hstep : store [moved after a] (t.delete (relation, a.path)) relation = .ok t₁ := by
        rw [store, List.foldlM_cons, hinsert]
        rfl
      have hothers₁ : ∀ b ∈ annotations, ⟨relation, b⟩ ∈ t₁.rows ∧ b.path.head? = some before := by
        intro b hb
        obtain ⟨hbmem, hbhead⟩ := hothers b hb
        have hdifferent : b.path ≠ a.path := fun heq => hnew (heq ▸ List.mem_map_of_mem hb)
        refine ⟨?_, hbhead⟩
        rw [hrows₁]
        apply List.mem_append_left
        apply List.mem_filter.mpr
        exact ⟨hbmem, by simp [Row.key, hdifferent]⟩
      have hfree₁ : ∀ b ∈ annotations, (relation, after :: b.path.tail) ∉ t₁.rows.map Row.key := by
        intro b hb hin
        rw [hrows₁, List.map_append] at hin
        rcases List.mem_append.mp hin with hin | hin
        · exact hkept (hfreeOthers b hb) hin
        · have hkey : (relation, after :: b.path.tail) = (relation, after :: a.path.tail) := List.mem_singleton.mp hin
          have htail : b.path.tail = a.path.tail := by simpa using hkey
          have hsame : b.path = a.path := by
            rw [← List.cons_head?_tail (hothers b hb).2, ← List.cons_head?_tail hhead, htail]
          exact hnew (hsame ▸ List.mem_map_of_mem hb)
      obtain ⟨t', hfold, hrows'⟩ := ih hrest hothers₁ hfree₁
      refine ⟨t', ?_, ?_⟩
      · rw [List.foldlM_cons, hstep]
        exact hfold
      · have hmoved : moved after a ∉ annotations := by
          intro hin
          have hsame := (hothers _ hin).2
          exact hne (by simpa [moved] using hsame.symm)
        have hfilter : (t.delete (relation, a.path)).rows.filter
            (fun row => ¬(row.relation = relation ∧ row.annotation ∈ annotations)) =
            t.rows.filter (fun row => ¬(row.relation = relation ∧ row.annotation ∈ a :: annotations)) := by
          rw [MetadataTable.delete, List.filter_filter]
          apply List.filter_congr
          intro row hrow
          by_cases hrelation : row.relation = relation
          · by_cases hannotation : row.annotation = a
            · have hkey : row.key = (relation, a.path) := by rw [Row.key, hrelation, hannotation]
              simp [hrelation, hannotation, hkey]
            · have hkey : row.key ≠ (relation, a.path) := by
                intro hkey
                have hsame := @row_of_key _ _ ⟨relation, a⟩ hrow hmem hkey
                exact hannotation (hsame ▸ rfl)
              simp [hrelation, hannotation, hkey]
          · have hkey : row.key ≠ (relation, a.path) := fun hkey => hrelation (congrArg Prod.fst hkey)
            simp [hrelation, hkey]
        rw [hrows', hrows₁, List.filter_append, hfilter]
        simp [hmoved]

theorem follow_same {name : String → String} {row : Row} (h : ∀ c ∈ row.annotation.path.head?, name c = c) :
    follow relation name row = row := by
  rw [follow]
  split
  · cases row with
    | mk relation annotation =>
        cases annotation with
        | mk path extension payload =>
            cases path with
            | nil => rfl
            | cons c rest =>
                have hc : name c = c := h c rfl
                simp [hc]
  · rfl

theorem follow_relation (name : String → String) (row : Row) : (follow relation name row).relation = row.relation := by
  rw [follow]
  split <;> rfl

theorem follow_head {name : String → String} {row : Row} (h : row.relation = relation) :
    (Row.annotation (follow relation name row)).path.head? = row.annotation.path.head?.map name := by
  rw [follow, if_pos h]
  cases hpath : row.annotation.path with
  | nil => rfl
  | cons c rest => rfl

theorem follow_follow (f g : String → String) (row : Row) :
    follow relation g (follow relation f row) = follow relation (fun column => g (f column)) row := by
  by_cases h : row.relation = relation
  · have hhead := @follow_head _ f _ h
    rw [follow, if_pos (by rw [follow_relation]; exact h), hhead]
    simp only [follow, if_pos h]
    cases hpath : row.annotation.path with
    | nil => rfl
    | cons c rest => rfl
  · simp only [follow, if_neg h]

theorem follow_moved {row : Row} (hrelation : row.relation = relation) (hhead : row.annotation.path.head? = some before) :
    follow relation (renamed before after) row = ⟨relation, moved after row.annotation⟩ := by
  rw [follow, if_pos hrelation, moved, hhead]
  simp [renamed, hrelation]

/-- The annotations of a column. -/
def columnAnnotations (t : MetadataTable) (relation : Relation) (before : String) : List Annotation :=
  (t.load relation).filter fun a => a.path.head? = some before

def inColumn (relation : Relation) (before : String) (row : Row) : Bool :=
  row.relation = relation && row.annotation.path.head? = some before

theorem columnAnnotations_eq :
    columnAnnotations t relation before = (t.rows.filter (inColumn relation before)).map Row.annotation := by
  rw [columnAnnotations, MetadataTable.load, List.filter_map, List.filter_filter]
  congr 1
  apply List.filter_congr
  intro row hrow
  exact Bool.and_comm _ _

theorem mem_columnAnnotations {a : Annotation} (h : a ∈ columnAnnotations t relation before) :
    ⟨relation, a⟩ ∈ t.rows ∧ a.path.head? = some before := by
  rw [columnAnnotations_eq] at h
  obtain ⟨row, hrow, rfl⟩ := List.mem_map.mp h
  obtain ⟨hin, hcolumn⟩ := List.mem_filter.mp hrow
  obtain ⟨hrelation, hhead⟩ := (Bool.and_eq_true _ _).mp hcolumn
  rw [← of_decide_eq_true hrelation]
  exact ⟨hin, of_decide_eq_true hhead⟩

theorem annotation_mem {row : Row} (hrow : row ∈ t.rows) :
    (row.relation = relation ∧ row.annotation ∈ columnAnnotations t relation before) ↔ inColumn relation before row := by
  rw [inColumn, Bool.and_eq_true, decide_eq_true_eq, decide_eq_true_eq]
  constructor
  · rintro ⟨hrelation, hmem⟩
    exact ⟨hrelation, (mem_columnAnnotations hmem).2⟩
  · rintro ⟨hrelation, hhead⟩
    refine ⟨hrelation, ?_⟩
    rw [columnAnnotations_eq]
    apply List.mem_map_of_mem
    exact List.mem_filter.mpr ⟨hrow, by simp [inColumn, hrelation, hhead]⟩

theorem columnAnnotations_paths : ((columnAnnotations t relation before).map Annotation.path).Nodup := by
  have hkeys : ((t.rows.filter (inColumn relation before)).map Row.key).Nodup :=
    (List.filter_sublist.map Row.key).nodup t.keys
  have hpair : (t.rows.filter (inColumn relation before)).map Row.key =
      ((columnAnnotations t relation before).map Annotation.path).map fun path => (relation, path) := by
    rw [columnAnnotations_eq, List.map_map, List.map_map]
    apply List.map_congr_left
    intro row hrow
    obtain ⟨hrelation, -⟩ := (Bool.and_eq_true _ _).mp (List.mem_filter.mp hrow).2
    rw [Row.key, of_decide_eq_true hrelation]
    rfl
  rw [hpair] at hkeys
  exact hkeys.of_map

/-- One rename moves the annotations of its column to the unused name. -/
theorem renameColumn_ok (hfree : ∀ row ∈ t.rows, row.relation = relation → row.annotation.path.head? ≠ some after) :
    ∃ t', renameColumn t relation before (some after) = .ok t' ∧
      t'.rows.Perm (t.rows.map (follow relation (renamed before after))) := by
  by_cases hne : before = after
  · subst hne
    have hnone : columnAnnotations t relation before = [] := by
      apply List.eq_nil_iff_forall_not_mem.mpr
      intro a ha
      obtain ⟨hrow, hhead⟩ := mem_columnAnnotations ha
      exact hfree _ hrow rfl hhead
    refine ⟨t, by rw [renameColumn, ← columnAnnotations, hnone]; rfl, ?_⟩
    have hsame : t.rows.map (follow relation (renamed before before)) = t.rows := by
      apply List.map_id''
      intro row
      apply follow_same
      intro c hc
      rw [renamed]
      split
      · rename_i h
        exact h.symm
      · rfl
    rw [hsame]
  · have hkeys : ∀ a ∈ columnAnnotations t relation before, (relation, after :: a.path.tail) ∉ t.rows.map Row.key := by
      intro a ha hin
      obtain ⟨row, hrow, hkey⟩ := List.mem_map.mp hin
      obtain ⟨hrelation, hpath⟩ := Prod.mk.inj hkey
      exact hfree row hrow hrelation (by rw [hpath]; rfl)
    obtain ⟨t', hfold, hrows⟩ :=
      renameRows_ok hne columnAnnotations_paths (fun a ha => mem_columnAnnotations ha) hkeys
    refine ⟨t', hfold, ?_⟩
    have hrest : t.rows.filter (fun row => ¬(row.relation = relation ∧ row.annotation ∈ columnAnnotations t relation before)) =
        (t.rows.filter fun row => !inColumn relation before row).map (follow relation (renamed before after)) := by
      have hstays : ∀ row ∈ t.rows.filter (fun row => !inColumn relation before row),
          follow relation (renamed before after) row = id row := by
        intro row hrow
        by_cases hrelation : row.relation = relation
        · apply follow_same
          intro c hc
          have hother : c ≠ before := by
            rintro rfl
            have hout := List.of_mem_filter hrow
            simp [inColumn, hrelation, Option.mem_def.mp hc] at hout
          exact if_neg hother
        · exact if_neg hrelation
      rw [List.map_congr_left hstays, List.map_id]
      apply List.filter_congr
      intro row hrow
      rw [Bool.eq_iff_iff, decide_eq_true_iff, annotation_mem hrow]
      simp
    have hmoved : (columnAnnotations t relation before).map (fun a => (⟨relation, moved after a⟩ : Row)) =
        (t.rows.filter (inColumn relation before)).map (follow relation (renamed before after)) := by
      rw [columnAnnotations_eq, List.map_map]
      apply List.map_congr_left
      intro row hrow
      obtain ⟨hrelation, hhead⟩ := (Bool.and_eq_true _ _).mp (List.mem_filter.mp hrow).2
      exact (follow_moved (of_decide_eq_true hrelation) (of_decide_eq_true hhead)).symm
    rw [hrows, hrest, hmoved, ← List.map_append]
    apply List.Perm.map
    exact List.perm_append_comm.trans (List.filter_append_perm _ _)

/-- Annotations stay with their columns through renames of which each takes an unused name. -/
theorem renameColumns_ok {columns : List String} {renames : List (String × String)}
    (hcolumns : ∀ row ∈ t.rows, row.relation = relation → ∃ c ∈ columns, row.annotation.path.head? = some c)
    (hunused : Unused columns renames) :
    ∃ t', renameColumns t relation renames = .ok t' ∧
      t'.rows.Perm (t.rows.map (follow relation (currentName renames))) := by
  induction renames generalizing t columns with
  | nil =>
      refine ⟨t, rfl, ?_⟩
      have hsame : t.rows.map (follow relation (currentName [])) = t.rows :=
        List.map_id'' (fun row => follow_same fun c _ => rfl) _
      rw [hsame]
  | cons r renames ih =>
      obtain ⟨before, after⟩ := r
      obtain ⟨hafter, hrest⟩ := hunused
      have hfree : ∀ row ∈ t.rows, row.relation = relation → row.annotation.path.head? ≠ some after := by
        intro row hrow hrelation hhead
        obtain ⟨c, hc, hcolumn⟩ := hcolumns row hrow hrelation
        cases hcolumn.symm.trans hhead
        exact hafter hc
      obtain ⟨t₁, hfirst, hperm₁⟩ := @renameColumn_ok _ _ before _ hfree
      have hcolumns₁ : ∀ row ∈ t₁.rows, row.relation = relation →
          ∃ c ∈ columns.map (renamed before after), row.annotation.path.head? = some c := by
        intro row hrow hrelation
        obtain ⟨old, hold, rfl⟩ := List.mem_map.mp (hperm₁.mem_iff.mp hrow)
        rw [follow_relation] at hrelation
        obtain ⟨c, hc, hhead⟩ := hcolumns old hold hrelation
        refine ⟨renamed before after c, List.mem_map_of_mem hc, ?_⟩
        rw [follow_head hrelation, hhead]
        rfl
      obtain ⟨t', hothers, hperm'⟩ := ih hcolumns₁ hrest
      refine ⟨t', ?_, ?_⟩
      · rw [renameColumns, List.foldlM_cons, hfirst]
        exact hothers
      · refine hperm'.trans ((hperm₁.map _).trans ?_)
        rw [List.map_map]
        have hfollow : follow relation (currentName renames) ∘ follow relation (renamed before after) =
            follow relation (currentName ((before, after) :: renames)) := by
          funext row
          exact follow_follow _ _ row
        rw [hfollow]

end Renames

section Survival

/-- A schema whose annotations hold an extension with its payload at a position. -/
def AnnotatedAt (s : Schema) (p : List Nat) (e : String × Option String) : Prop :=
  ∃ y ∈ fromSchema s, (∃ f, Spot s.fields p y.path f) ∧ (y.extension, y.payload) = e

theorem annotatedAt_iff {s : Schema} (hs : Distinct s.fields) {p : List Nat} {path : List String} {f : Field}
    (hf : Spot s.fields p path f) {e : String × Option String} : AnnotatedAt s p e ↔ f.extension = some e := by
  constructor
  · rintro ⟨y, hy, ⟨g, hg⟩, rfl⟩
    obtain ⟨q, h, hspot, hextension⟩ := mem_visitAll_nil.mp hy
    obtain ⟨rfl, rfl⟩ := hg.same_path hs hspot rfl
    obtain ⟨-, rfl⟩ := hf.same_position hg
    exact hextension
  · intro hextension
    exact ⟨⟨path, e.1, e.2⟩, mem_visitAll_nil.mpr ⟨p, f, hf, hextension⟩, ⟨f, hf⟩, rfl⟩

/-- Annotations survive an export and an import, a change to native names, and renames of columns. -/
theorem annotations_survive :
    (∀ (s : Schema) (annotations : List Annotation) (columnCount : Nat), Distinct s.fields →
      (annotations.map Annotation.path).Nodup → ∀ x, x ∈ fromSchema (enrich annotations s columnCount) ↔
        (x ∈ annotations ∧ HasPath (s.fields.take columnCount) x.path) ∨
          (x ∈ fromSchema s ∧ ¬∃ a ∈ annotations, a.path = x.path ∧ HasPath (s.fields.take columnCount) a.path)) ∧
    (∀ s n : Schema, Distinct s.fields → Distinct n.fields → sameShapes s.fields n.fields →
      ∃ r, rebased (fromSchema s) s n = .ok r ∧ ∀ x, x ∈ fromSchema (enrich r n n.fields.length) ↔
        ∃ p, (∃ g, Spot n.fields p x.path g) ∧ (AnnotatedAt s p (x.extension, x.payload) ∨
          (∀ e, ¬AnnotatedAt s p e) ∧ AnnotatedAt n p (x.extension, x.payload))) ∧
    (∀ (t : MetadataTable) (relation : Relation) (columns : List String) (renames : List (String × String)),
      (∀ row ∈ t.rows, row.relation = relation → ∃ c ∈ columns, row.annotation.path.head? = some c) →
      Unused columns renames → ∃ t', renameColumns t relation renames = .ok t' ∧
        t'.rows.Perm (t.rows.map (follow relation (currentName renames)))) := by
  refine ⟨?_, ?_, ?_⟩
  · intro s annotations columnCount hs hpaths x
    cases hs with
    | mk hnames hbelow => exact mem_enriched hnames hpaths
  · intro s n hs hn hshape
    refine ⟨_, rebased_ok hs hshape, fun x => ?_⟩
    rw [mem_rebased hs hn hshape]
    constructor
    · rintro ⟨p, path, f, g, hf, hg, hextension⟩
      refine ⟨p, ⟨g, hg⟩, ?_⟩
      rcases Option.or_eq_some_iff.mp hextension with h | ⟨hnone, h⟩
      · exact .inl ((annotatedAt_iff hs hf).mpr h)
      · refine .inr ⟨fun e he => ?_, (annotatedAt_iff hn hg).mpr h⟩
        have hsome := (annotatedAt_iff hs hf).mp he
        cases hnone.symm.trans hsome
    · rintro ⟨p, ⟨g, hg⟩, h⟩
      have halike : ∃ path f, Spot s.fields p path f := hg.alike (alike_all _ _ hshape).symm
      obtain ⟨path, f, hf⟩ := halike
      refine ⟨p, path, f, g, hf, hg, Option.or_eq_some_iff.mpr ?_⟩
      rcases h with h | ⟨hnone, h⟩
      · exact .inl ((annotatedAt_iff hs hf).mp h)
      · refine .inr ⟨?_, (annotatedAt_iff hn hg).mp h⟩
        apply Option.eq_none_iff_forall_ne_some.mpr
        intro e he
        exact hnone e ((annotatedAt_iff hs hf).mpr he)
  · intro t relation columns renames hcolumns hunused
    exact renameColumns_ok hcolumns hunused

def plain (name : String) (kind : DataType) : Field := .mk name kind true Map.empty

def labelled (name : String) (kind : DataType) (extension : String) : Field :=
  .mk name kind true (Map.empty.insert extensionName extension)

def twoTexts : Schema := ⟨[labelled "a" (.leaf "Utf8") "example.text", plain "b" (.leaf "Utf8")], Map.empty⟩

/-- A native type can bring an extension of its own. -/
def textAndJson : Schema := ⟨[plain "a" (.leaf "Utf8"), labelled "b" (.leaf "Utf8") "arrow.json"], Map.empty⟩

theorem distinct_leaves {fs : List Field} (hnames : (fs.map Field.name).Nodup) (hleaves : ∀ f ∈ fs, f.children = []) :
    Distinct fs := by
  refine .mk hnames fun f hf => ?_
  rw [hleaves f hf]
  exact .mk List.nodup_nil fun g hg => nomatch hg

/-- Next to a native extension the imported one stays where it was. -/
theorem text_beside_json : ∃ r, rebased (fromSchema twoTexts) twoTexts textAndJson = .ok r ∧
    ⟨["a"], "example.text", none⟩ ∈ fromSchema (enrich r textAndJson textAndJson.fields.length) := by
  have htexts : Distinct twoTexts.fields := distinct_leaves (by decide) (by simp [twoTexts, plain, labelled, Field.children, Field.kind, DataType.children])
  have hjson : Distinct textAndJson.fields := distinct_leaves (by decide) (by simp [textAndJson, plain, labelled, Field.children, Field.kind, DataType.children])
  obtain ⟨r, hr, hread⟩ := annotations_survive.2.1 twoTexts textAndJson htexts hjson (by decide)
  refine ⟨r, hr, (hread _).mpr ⟨[0], ⟨_, .here (rfl : textAndJson.fields[0]? = some _)⟩, .inl ?_⟩⟩
  have hfirst : Spot twoTexts.fields [0] ["a"] (labelled "a" (.leaf "Utf8") "example.text") :=
    .here (rfl : twoTexts.fields[0]? = some _)
  exact (annotatedAt_iff htexts hfirst).mpr (by decide)

def children : List Field :=
  [labelled "a" (.leaf "Utf8") "example.text", labelled "b" (.leaf "Utf8") "example.label"]

def twoChildren : Schema := ⟨[plain "c" (.struct children)], Map.empty⟩

def natives : List Field := [plain "x" (.leaf "Utf8"), plain "x" (.leaf "Utf8")]

def sameChildren : Schema := ⟨[plain "c" (.struct natives)], Map.empty⟩

/-- A native schema with an extension of its own, or with two children of one name, is not annotated as the original one. -/
theorem native_differs :
    (¬∃ r, rebased (fromSchema twoTexts) twoTexts textAndJson = .ok r ∧
      ∀ x, x ∈ fromSchema (enrich r textAndJson textAndJson.fields.length) ↔
        ∃ p, (∃ g, Spot textAndJson.fields p x.path g) ∧ AnnotatedAt twoTexts p (x.extension, x.payload)) ∧
    (¬∃ r, rebased (fromSchema twoChildren) twoChildren sameChildren = .ok r ∧
      ∀ x, x ∈ fromSchema (enrich r sameChildren sameChildren.fields.length) ↔
        ∃ p, (∃ g, Spot sameChildren.fields p x.path g) ∧ AnnotatedAt twoChildren p (x.extension, x.payload)) := by
  constructor
  · rintro ⟨r, hr, h⟩
    have hrebased : rebased (fromSchema twoTexts) twoTexts textAndJson = .ok [⟨["a"], "example.text", none⟩] := by decide
    cases hr.symm.trans hrebased
    obtain ⟨p, -, y, hy, -, hextension⟩ := (h ⟨["b"], "arrow.json", none⟩).mp (by decide)
    have honly : fromSchema twoTexts = [⟨["a"], "example.text", none⟩] := by decide
    rw [honly] at hy
    cases List.mem_singleton.mp hy
    exact absurd (congrArg Prod.fst hextension) (by decide)
  · rintro ⟨r, hr, h⟩
    have hrebased : rebased (fromSchema twoChildren) twoChildren sameChildren =
        .ok [⟨["c", "x"], "example.text", none⟩, ⟨["c", "x"], "example.label", none⟩] := by decide
    cases hr.symm.trans hrebased
    have hlabel : Spot children [1] ["b"] (labelled "b" (.leaf "Utf8") "example.label") :=
      .here (rfl : children[1]? = some (labelled "b" (.leaf "Utf8") "example.label"))
    have hnative : Spot natives [1] ["x"] (plain "x" (.leaf "Utf8")) :=
      .here (rfl : natives[1]? = some (plain "x" (.leaf "Utf8")))
    have hsecond : AnnotatedAt twoChildren [0, 1] ("example.label", none) :=
      ⟨⟨["c", "b"], "example.label", none⟩, by decide, ⟨_, .under (rfl : twoChildren.fields[0]? = some _) hlabel⟩, rfl⟩
    have hread := (h ⟨["c", "x"], "example.label", none⟩).mpr
      ⟨[0, 1], ⟨_, .under (rfl : sameChildren.fields[0]? = some _) hnative⟩, hsecond⟩
    exact absurd hread (by decide)

end Survival

end Wordflow.Arrow
