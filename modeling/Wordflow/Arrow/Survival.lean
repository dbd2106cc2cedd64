import Wordflow.Arrow.Schema

namespace Wordflow.Arrow

open Library Library.Fallible Library.OrderedMap Library.Spots Objects

/-- No two siblings share a name, at any depth. -/
abbrev Distinct := Spots.Distinct Field.name Field.children

abbrev Alike := Spots.Alike Field.children Field.children

/-- A path that leads to a field. -/
def HasPath (fs : List Field) (path : List String) : Prop := ∃ p f, Spot fs p path f

section Reading

variable {annotations : List Annotation} {x : Annotation} {fs gs : List Field} {path : List String}

theorem annotationAt_eq (hpaths : (annotations.map Annotation.path).Nodup) :
    annotationAt annotations path = some x ↔ x ∈ annotations ∧ x.path = path := by
  constructor
  · intro h
    have hpath : x.path = path := by simpa using List.find?_some h
    exact ⟨List.mem_of_find?_eq_some h, hpath⟩
  · rintro ⟨hx, rfl⟩
    induction annotations with
    | nil => cases hx
    | cons a annotations ih =>
        obtain ⟨hnew, hrest⟩ := List.nodup_cons.mp hpaths
        rw [annotationAt]
        rcases List.mem_cons.mp hx with rfl | hx
        · exact List.find?_cons_of_pos (by simp)
        · have hne : a.path ≠ x.path := fun heq => hnew (heq ▸ List.mem_map_of_mem hx)
          rw [List.find?_cons_of_neg (by simpa using hne)]
          exact ih hrest hx

theorem annotationAt_none : annotationAt annotations path = none ↔ ∀ a ∈ annotations, a.path ≠ path := by
  rw [annotationAt, List.find?_eq_none]
  constructor
  · intro h a ha hpath
    exact h a ha (by simpa using hpath)
  · intro h a ha hpath
    exact h a ha (by simpa using hpath)

/-- A path leads into one part of fields with different names. -/
theorem not_both (hnames : ((fs ++ gs).map Field.name).Nodup) (hf : HasPath fs path) : ¬HasPath gs path := by
  rintro ⟨q, g, hg⟩
  obtain ⟨p, f, hf⟩ := hf
  obtain ⟨first, hfirst, hhead⟩ := hf.head
  obtain ⟨second, hsecond, hhead'⟩ := hg.head
  have hsame : first.name = second.name := Option.some.inj (hhead.symm.trans hhead')
  rw [List.map_append] at hnames
  exact (List.nodup_append.mp hnames).2.2 _ (List.mem_map_of_mem hfirst) _ (List.mem_map_of_mem hsecond) hsame

theorem mem_visitAll_nil : x ∈ visitAll [] fs ↔
    ∃ p f, Spot fs p x.path f ∧ f.extension = some (x.extension, x.payload) := by
  rw [mem_visitAll]
  constructor
  · rintro ⟨p, rest, f, hspot, rfl, hextension⟩
    exact ⟨p, f, hspot, hextension⟩
  · rintro ⟨p, f, hspot, hextension⟩
    exact ⟨p, _, f, hspot, rfl, hextension⟩

/-- What reads back from enriched fields. -/
theorem mem_enrichAll (hpaths : (annotations.map Annotation.path).Nodup) :
    x ∈ visitAll [] (enrichAll annotations [] fs) ↔
      (x ∈ annotations ∧ HasPath fs x.path) ∨ (x ∈ visitAll [] fs ∧ ∀ a ∈ annotations, a.path ≠ x.path) := by
  rw [mem_visitAll_enrichAll, mem_visitAll_nil]
  constructor
  · rintro ⟨p, rest, f, hspot, rfl, hover⟩
    rw [overlaid] at hover
    split at hover
    · rename_i a ha
      obtain ⟨hmem, hpath⟩ := (annotationAt_eq hpaths).mp ha
      obtain ⟨hextension, hpayload⟩ := Prod.mk.inj (Option.some.inj hover)
      have hsame : a = x := by
        cases a
        cases x
        cases hpath
        cases hextension
        cases hpayload
        rfl
      exact .inl ⟨hsame ▸ hmem, p, f, hspot⟩
    · rename_i hnone
      exact .inr ⟨⟨p, f, hspot, hover⟩, annotationAt_none.mp hnone⟩
  · rintro (⟨hmem, p, f, hspot⟩ | ⟨⟨p, f, hspot, hextension⟩, hnone⟩)
    · refine ⟨p, _, f, hspot, rfl, ?_⟩
      rw [overlaid, (annotationAt_eq hpaths).mpr ⟨hmem, rfl⟩]
    · refine ⟨p, _, f, hspot, rfl, ?_⟩
      rw [overlaid, annotationAt_none.mpr hnone]
      exact hextension

/-- What reads back from an enriched schema: the annotations at its paths, and what it carried at others. -/
theorem mem_enriched {s : Schema} {columnCount : Nat} (hnames : (s.fields.map Field.name).Nodup)
    (hpaths : (annotations.map Annotation.path).Nodup) :
    x ∈ fromSchema (enrich annotations s columnCount) ↔
      (x ∈ annotations ∧ HasPath (s.fields.take columnCount) x.path) ∨
        (x ∈ fromSchema s ∧ ¬∃ a ∈ annotations, a.path = x.path ∧ HasPath (s.fields.take columnCount) a.path) := by
  have hsplit : fromSchema s = visitAll [] (s.fields.take columnCount) ++ visitAll [] (s.fields.drop columnCount) := by
    rw [fromSchema, ← visitAll_append, List.take_append_drop]
  rw [← List.take_append_drop columnCount s.fields] at hnames
  rw [fromSchema, enrich_fields, visitAll_append, List.mem_append, mem_enrichAll hpaths, hsplit, List.mem_append]
  constructor
  · rintro ((h | ⟨hcarried, hnone⟩) | hrest)
    · exact .inl h
    · exact .inr ⟨.inl hcarried, fun ⟨a, ha, hpath, _⟩ => hnone a ha hpath⟩
    · refine .inr ⟨.inr hrest, ?_⟩
      rintro ⟨a, -, hpath, hin⟩
      obtain ⟨p, f, hspot, -⟩ := mem_visitAll_nil.mp hrest
      exact not_both hnames (hpath ▸ hin) ⟨p, f, hspot⟩
  · rintro (h | ⟨hcarried | hrest, hnone⟩)
    · exact .inl (.inl h)
    · refine .inl (.inr ⟨hcarried, fun a ha hpath => hnone ⟨a, ha, hpath, ?_⟩⟩)
      obtain ⟨p, f, hspot, -⟩ := mem_visitAll_nil.mp hcarried
      exact ⟨p, f, hpath ▸ hspot⟩
    · exact .inr hrest

end Reading

section Shapes

mutual

theorem alike_field : ∀ f g : Field, f.sameShape g → Alike f.children g.children
  | .mk _ kind _ _, .mk _ other _ _, h => alike_kind kind other h

theorem alike_kind : ∀ kind other : DataType, kind.sameShape other → Alike kind.children other.children
  | .leaf _, .leaf _, _ => .mk rfl fun i _ _ ha => nomatch ha
  | .struct fs, .struct gs, h => alike_all fs gs h
  | .list f, .list g, h => alike_one f g h
  | .largeList f, .largeList g, h => alike_one f g h
  | .fixedSizeList f _, .fixedSizeList g _, h => alike_one f g h
  | .map f _, .map g _, h => alike_one f g h

theorem alike_one : ∀ f g : Field, f.sameShape g → Alike [f] [g]
  | f, g, h => .mk rfl fun i a b ha hb => by
      have hbelow := alike_field f g h
      cases i with
      | zero =>
          cases ha
          cases hb
          exact hbelow
      | succ i => cases ha

theorem alike_all : ∀ fs gs : List Field, sameShapes fs gs → Alike fs gs
  | [], [], _ => .mk rfl fun i _ _ ha => nomatch ha
  | f :: fs, g :: gs, h => by
      obtain ⟨hfirst, hrest⟩ := (Bool.and_eq_true _ _).mp h
      have hbelow := alike_field f g hfirst
      cases alike_all fs gs hrest with
      | mk hlength hothers =>
          refine .mk (congrArg Nat.succ hlength) fun i a b ha hb => ?_
          cases i with
          | zero =>
              cases ha
              cases hb
              exact hbelow
          | succ i => exact hothers i a b ha hb

end

variable {before after : List Field} {p : List Nat} {path : List String} {f : Field}

theorem find_name {i : Nat} (hnames : (before.map Field.name).Nodup) (h : before[i]? = some f) :
    before.find? (fun g => g.name = f.name) = some f ∧ before.findIdx (fun g => g.name = f.name) = i := by
  induction before generalizing i with
  | nil => simp at h
  | cons g before ih =>
      obtain ⟨hnew, hrest⟩ := List.nodup_cons.mp hnames
      cases i with
      | zero =>
          cases h
          simp [List.findIdx_cons]
      | succ i =>
          have hne : g.name ≠ f.name := fun heq => hnew (heq ▸ List.mem_map_of_mem (List.mem_of_getElem? h))
          obtain ⟨hfind, hindex⟩ := ih hrest h
          rw [List.find?_cons_of_neg (by simpa using hne), List.findIdx_cons, hindex]
          simp [hfind, hne]

/-- A path is carried to the names at its positions. -/
theorem rebasedPath_spot (hd : Distinct before) (hs : Alike before after) (h : Spot before p path f) :
    ∃ path' g, Spot after p path' g ∧ rebasedPath before after path = .ok path' := by
  induction h generalizing after with
  | @here before i f h =>
      cases hd with
      | mk hnames hchildren =>
          cases hs with
          | mk hlength hbelow =>
              have hlt : i < after.length := hlength ▸ (List.getElem?_eq_some_iff.mp h).1
              have hafter := List.getElem?_eq_getElem hlt
              obtain ⟨hfind, hindex⟩ := find_name hnames h
              refine ⟨_, _, .here hafter, ?_⟩
              rw [rebasedPath, hfind, hindex, hafter]
              rfl
  | @under before i item target q rest h hrest ih =>
      have hchild := hd.child h
      cases hd with
      | mk hnames hchildren =>
          cases hs with
          | mk hlength hbelow =>
              have hlt : i < after.length := hlength ▸ (List.getElem?_eq_some_iff.mp h).1
              have hafter := List.getElem?_eq_getElem hlt
              obtain ⟨hfind, hindex⟩ := find_name hnames h
              obtain ⟨path', g, hspot, hrebased⟩ := ih hchild (hbelow i _ _ h hafter)
              refine ⟨_, g, .under hafter hspot, ?_⟩
              rw [rebasedPath, hfind, hindex, hafter]
              simp only [hrebased]
              rfl

end Shapes

section Rebase

variable {original native : Schema} {x : Annotation}

/-- An annotation at the names of the native schema. -/
def carried (original native : Schema) (a : Annotation) : Annotation :=
  { a with path := (rebasedPath original.fields native.fields a.path).toOption.getD [] }

variable (hs : Distinct original.fields) (hn : Distinct native.fields)
variable (hshape : sameShapes original.fields native.fields)

include hs hshape

theorem carried_path {p : List Nat} {path path' : List String} {f g : Field} (hf : Spot original.fields p path f)
    (hg : Spot native.fields p path' g) : rebasedPath original.fields native.fields path = .ok path' := by
  obtain ⟨path'', h, hspot, hrebased⟩ := rebasedPath_spot hs (alike_all _ _ hshape) hf
  obtain ⟨rfl, -⟩ := hspot.same_position hg
  exact hrebased

theorem rebased_ok : rebased (fromSchema original) original native =
    .ok ((fromSchema original).map (carried original native)) := by
  apply mapM_ok
  intro a ha
  obtain ⟨p, f, hf, -⟩ := mem_visitAll_nil.mp ha
  obtain ⟨path', g, hg, hrebased⟩ := rebasedPath_spot hs (alike_all _ _ hshape) hf
  rw [carried, hrebased]
  rfl

include hn

/-- The rebased annotations are at the positions of the original ones. -/
theorem over_carried {p : List Nat} {path path' : List String} {f g : Field} (hf : Spot original.fields p path f)
    (hg : Spot native.fields p path' g) :
    overlaid ((fromSchema original).map (carried original native)) path' g.extension = f.extension.or g.extension := by
  have hat : ∀ a ∈ fromSchema original, (carried original native a).path = path' → f.extension = some (a.extension, a.payload) := by
    intro a ha hpath
    obtain ⟨q, k, hk, hextension⟩ := mem_visitAll_nil.mp ha
    obtain ⟨path'', l, hl, hrebased⟩ := rebasedPath_spot hs (alike_all _ _ hshape) hk
    rw [carried, hrebased] at hpath
    obtain ⟨rfl, -⟩ := hg.same_path hn hl hpath.symm
    obtain ⟨-, rfl⟩ := hf.same_position hk
    exact hextension
  rw [overlaid]
  cases hfound : annotationAt ((fromSchema original).map (carried original native)) path' with
  | some y =>
      have hpath : y.path = path' := by simpa using List.find?_some hfound
      obtain ⟨a, ha, rfl⟩ := List.mem_map.mp (List.mem_of_find?_eq_some hfound)
      rw [hat a ha hpath]
      rfl
  | none =>
      have hnone : f.extension = none := by
        apply Option.eq_none_iff_forall_ne_some.mpr
        rintro ⟨e, payload⟩ hextension
        have hmem : ⟨path, e, payload⟩ ∈ fromSchema original := mem_visitAll_nil.mpr ⟨p, f, hf, hextension⟩
        refine annotationAt_none.mp hfound _ (List.mem_map_of_mem hmem) ?_
        rw [carried, carried_path hs hshape hf hg]
        rfl
      rw [hnone, Option.none_or]

/-- The native schema is annotated where the original one is, and keeps its own annotations elsewhere. -/
theorem mem_rebased : x ∈ fromSchema (enrich ((fromSchema original).map (carried original native)) native
      native.fields.length) ↔
    ∃ p path f g, Spot original.fields p path f ∧ Spot native.fields p x.path g ∧
      f.extension.or g.extension = some (x.extension, x.payload) := by
  rw [fromSchema, enrich_fields, List.take_length, List.drop_length, List.append_nil, mem_visitAll_enrichAll]
  constructor
  · rintro ⟨p, rest, g, hg, rfl, hover⟩
    have halike : ∃ path f, Spot original.fields p path f := hg.alike (alike_all _ _ hshape).symm
    obtain ⟨path, f, hf⟩ := halike
    rw [over_carried hs hn hshape hf hg] at hover
    exact ⟨p, path, f, g, hf, hg, hover⟩
  · rintro ⟨p, path, f, g, hf, hg, hextension⟩
    refine ⟨p, x.path, g, hg, rfl, ?_⟩
    rw [over_carried hs hn hshape hf hg, hextension]

end Rebase

end Wordflow.Arrow
