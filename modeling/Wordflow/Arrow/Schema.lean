import Mathlib.Data.List.Nodup
import Mathlib.Data.String.Basic
import Wordflow.Library.Fallible
import Wordflow.Library.OrderedMap
import Wordflow.Library.Spots
import Wordflow.Objects

namespace Wordflow.Arrow

open Library Library.Fallible Library.OrderedMap Library.Spots Objects

mutual

inductive Field
  | mk (name : String) (kind : DataType) (nullable : Bool) (metadata : Map String String)

/-- The types that hold fields; every other one is a leaf, of which the code keeps what it is. -/
inductive DataType
  | leaf (name : String)
  | struct (fields : List Field)
  | list (field : Field)
  | largeList (field : Field)
  | fixedSizeList (field : Field) (size : Int)
  | map (field : Field) (sorted : Bool)

end

structure Schema where
  fields : List Field
  metadata : Map String String

structure Annotation where
  path : List String
  extension : String
  payload : Option String
  deriving DecidableEq

namespace Field

def name : Field → String
  | .mk name _ _ _ => name

def kind : Field → DataType
  | .mk _ kind _ _ => kind

def metadata : Field → Map String String
  | .mk _ _ _ metadata => metadata

end Field

def DataType.children : DataType → List Field
  | .leaf _ => []
  | .struct fields => fields
  | .list f | .largeList f | .fixedSizeList f _ | .map f _ => [f]

def Field.children (f : Field) : List Field := f.kind.children

def extensionName : String := "ARROW:extension:name"

def extensionMetadata : String := "ARROW:extension:metadata"

/-- The extension of a field with its payload. -/
def Field.extension (f : Field) : Option (String × Option String) :=
  (f.metadata.get? extensionName).map fun e => (e, f.metadata.get? extensionMetadata)

/-- The annotation of one field. -/
def own (path : List String) (metadata : Map String String) : List Annotation :=
  match metadata.get? extensionName with
  | some e => [⟨path, e, metadata.get? extensionMetadata⟩]
  | none => []

mutual

def Field.visit (parent : List String) : Field → List Annotation
  | .mk name kind _ metadata => own (parent ++ [name]) metadata ++ kind.visit (parent ++ [name])

def DataType.visit (path : List String) : DataType → List Annotation
  | .leaf _ => []
  | .struct fields => visitAll path fields
  | .list f => f.visit path
  | .largeList f => f.visit path
  | .fixedSizeList f _ => f.visit path
  | .map f _ => f.visit path

def visitAll (path : List String) : List Field → List Annotation
  | [] => []
  | f :: fs => f.visit path ++ visitAll path fs

end

def fromSchema (schema : Schema) : List Annotation := visitAll [] schema.fields

/-- The metadata of a field with an annotation in it. -/
def annotate (a : Annotation) (metadata : Map String String) : Map String String :=
  let metadata := (metadata.insert extensionName a.extension).remove extensionMetadata
  match a.payload with
  | some payload => metadata.insert extensionMetadata payload
  | none => metadata

def annotationAt (annotations : List Annotation) (path : List String) : Option Annotation :=
  annotations.find? fun a => a.path = path

def annotated (annotations : List Annotation) (path : List String) (metadata : Map String String) : Map String String :=
  match annotationAt annotations path with
  | some a => annotate a metadata
  | none => metadata

mutual

def Field.enrich (annotations : List Annotation) (parent : List String) : Field → Field
  | .mk name kind nullable metadata =>
      .mk name (kind.enrich annotations (parent ++ [name])) nullable (annotated annotations (parent ++ [name]) metadata)

def DataType.enrich (annotations : List Annotation) (path : List String) : DataType → DataType
  | .leaf name => .leaf name
  | .struct fields => .struct (enrichAll annotations path fields)
  | .list f => .list (f.enrich annotations path)
  | .largeList f => .largeList (f.enrich annotations path)
  | .fixedSizeList f size => .fixedSizeList (f.enrich annotations path) size
  | .map f sorted => .map (f.enrich annotations path) sorted

def enrichAll (annotations : List Annotation) (path : List String) : List Field → List Field
  | [] => []
  | f :: fs => f.enrich annotations path :: enrichAll annotations path fs

end

/-- The schema with the annotations of its first columns. -/
def enrich (annotations : List Annotation) (schema : Schema) (columnCount : Nat) : Schema :=
  ⟨schema.fields.mapIdx fun i f => if i < columnCount then f.enrich annotations [] else f, schema.metadata⟩

def unknownPath : Error := .invalid "The imported Arrow annotation has an unknown field path"

def notPreserved : Error := .invalid "The native import cannot preserve this Arrow field annotation"

/-- The names at the positions to which a path leads. -/
def rebasedPath : List Field → List Field → List String → Except Error (List String)
  | _, _, [] => .ok []
  | before, after, component :: rest =>
      match before.find? fun f => f.name = component, after[before.findIdx fun f => f.name = component]? with
      | none, _ => .error unknownPath
      | some _, none => .error notPreserved
      | some source, some target => (rebasedPath source.children target.children rest).map (target.name :: ·)

def rebased (annotations : List Annotation) (original native : Schema) : Except Error (List Annotation) :=
  annotations.mapM fun a => (rebasedPath original.fields native.fields a.path).map fun path => { a with path }

mutual

/-- The same constructors with as many children, whatever their names are. -/
def Field.sameShape : Field → Field → Bool
  | .mk _ kind _ _, .mk _ other _ _ => kind.sameShape other

def DataType.sameShape : DataType → DataType → Bool
  | .leaf _, .leaf _ => true
  | .struct fs, .struct gs => sameShapes fs gs
  | .list f, .list g => f.sameShape g
  | .largeList f, .largeList g => f.sameShape g
  | .fixedSizeList f _, .fixedSizeList g _ => f.sameShape g
  | .map f _, .map g _ => f.sameShape g
  | _, _ => false

def sameShapes : List Field → List Field → Bool
  | [], [] => true
  | f :: fs, g :: gs => f.sameShape g && sameShapes fs gs
  | _, _ => false

end

section Visit

variable {f : Field} {fs : List Field} {parent path : List String} {x : Annotation}

/-- A field of a schema, by its positions and by its path. -/
abbrev Spot := Spots.Spot Field.name Field.children

theorem mem_own {metadata : Map String String} :
    x ∈ own path metadata ↔ x.path = path ∧ metadata.get? extensionName = some x.extension ∧
      metadata.get? extensionMetadata = x.payload := by
  rw [own]
  split
  · rename_i e he
    constructor
    · intro h
      cases List.mem_singleton.mp h
      exact ⟨rfl, he, rfl⟩
    · rintro ⟨rfl, hname, hpayload⟩
      apply List.mem_singleton.mpr
      cases x
      cases he.symm.trans hname
      rw [hpayload]
  · rename_i hnone
    constructor
    · intro h
      cases h
    · rintro ⟨-, hname, -⟩
      cases hnone.symm.trans hname

theorem extension_eq : f.extension = some (x.extension, x.payload) ↔
    f.metadata.get? extensionName = some x.extension ∧ f.metadata.get? extensionMetadata = x.payload := by
  rw [Field.extension, Option.map_eq_some_iff]
  constructor
  · rintro ⟨e, he, hpair⟩
    obtain ⟨rfl, hpayload⟩ := Prod.mk.inj hpair
    exact ⟨he, hpayload⟩
  · rintro ⟨hname, hpayload⟩
    exact ⟨_, hname, by rw [hpayload]⟩

mutual

/-- The annotations found in a field are its own and those below it. -/
theorem mem_visit : ∀ (f : Field) (parent : List String) (x : Annotation),
    x ∈ f.visit parent ↔ (x.path = parent ++ [f.name] ∧ f.extension = some (x.extension, x.payload)) ∨
      ∃ p path g, Spot f.children p path g ∧ x.path = parent ++ f.name :: path ∧
        g.extension = some (x.extension, x.payload)
  | .mk name kind nullable metadata, parent, x => by
      rw [Field.visit, List.mem_append, mem_own, extension_eq, mem_visitKind kind (parent ++ [name]) x]
      simp [Field.name, Field.metadata, Field.children, Field.kind]

theorem mem_visitKind : ∀ (kind : DataType) (path : List String) (x : Annotation),
    x ∈ kind.visit path ↔ ∃ p rest g, Spot kind.children p rest g ∧ x.path = path ++ rest ∧
      g.extension = some (x.extension, x.payload)
  | .leaf name, path, x => by
      constructor
      · intro h
        cases h
      · rintro ⟨p, rest, g, hspot, -⟩
        exact absurd hspot not_spot_nil
  | .struct fields, path, x => mem_visitAll fields path x
  | .list f, path, x => mem_visitOne f path x
  | .largeList f, path, x => mem_visitOne f path x
  | .fixedSizeList f _, path, x => mem_visitOne f path x
  | .map f _, path, x => mem_visitOne f path x

theorem mem_visitOne : ∀ (f : Field) (path : List String) (x : Annotation),
    x ∈ f.visit path ↔ ∃ p rest g, Spot [f] p rest g ∧ x.path = path ++ rest ∧
      g.extension = some (x.extension, x.payload)
  | f, path, x => by
      rw [mem_visit f path x, exists_spot_cons]
      constructor
      · exact .inl
      · rintro (h | ⟨p, rest, g, hspot, -⟩)
        · exact h
        · exact absurd hspot not_spot_nil

theorem mem_visitAll : ∀ (fs : List Field) (path : List String) (x : Annotation),
    x ∈ visitAll path fs ↔ ∃ p rest g, Spot fs p rest g ∧ x.path = path ++ rest ∧
      g.extension = some (x.extension, x.payload)
  | [], path, x => by
      constructor
      · intro h
        cases h
      · rintro ⟨p, rest, g, hspot, -⟩
        exact absurd hspot not_spot_nil
  | f :: fs, path, x => by
      rw [visitAll, List.mem_append, exists_spot_cons, mem_visit f path x, mem_visitAll fs path x]

end

end Visit

section Enrich

variable {f : Field} {fs : List Field} {annotations : List Annotation} {parent : List String} {x : Annotation}

/-- What a field at a path is annotated with. -/
def overlaid (annotations : List Annotation) (path : List String) (carried : Option (String × Option String)) :
    Option (String × Option String) :=
  match annotationAt annotations path with
  | some a => some (a.extension, a.payload)
  | none => carried

theorem enrichAll_eq (annotations : List Annotation) (path : List String) (fs : List Field) :
    enrichAll annotations path fs = fs.map (Field.enrich annotations path) := by
  induction fs with
  | nil => rfl
  | cons f fs ih => rw [enrichAll, ih, List.map_cons]

theorem name_enrich (annotations : List Annotation) (parent : List String) (f : Field) :
    (f.enrich annotations parent).name = f.name := by
  cases f
  rfl

theorem children_enrich (annotations : List Annotation) (parent : List String) (f : Field) :
    (f.enrich annotations parent).children = f.children.map (Field.enrich annotations (parent ++ [f.name])) := by
  cases f with
  | mk name kind nullable metadata =>
      cases kind with
      | struct fields => exact enrichAll_eq _ _ _
      | leaf | list | largeList | fixedSizeList | map => rfl

theorem get?_annotate (a : Annotation) (metadata : Map String String) :
    (annotate a metadata).get? extensionName = some a.extension ∧
      (annotate a metadata).get? extensionMetadata = a.payload := by
  have hne : extensionName ≠ extensionMetadata := by decide
  cases hpayload : a.payload with
  | none =>
      simp only [annotate, hpayload]
      rw [Map.get?_remove_of_ne hne, Map.get?_insert_self, Map.get?_remove_self]
      exact ⟨rfl, rfl⟩
  | some payload =>
      simp only [annotate, hpayload]
      rw [Map.get?_insert_of_ne hne, Map.get?_remove_of_ne hne, Map.get?_insert_self, Map.get?_insert_self]
      exact ⟨rfl, rfl⟩

theorem extension_enrich (annotations : List Annotation) (parent : List String) (f : Field) :
    (f.enrich annotations parent).extension = overlaid annotations (parent ++ [f.name]) f.extension := by
  cases f with
  | mk name kind nullable metadata =>
      simp only [Field.enrich, Field.extension, Field.metadata, Field.name, annotated, overlaid]
      cases annotationAt annotations (parent ++ [name]) with
      | none => rfl
      | some a =>
          obtain ⟨hname, hpayload⟩ := get?_annotate a metadata
          simp only [hname, hpayload, Option.map_some]

/-- The annotations of enriched fields are the given ones, else those the fields carry. -/
theorem mem_visitAll_enrichAll : x ∈ visitAll parent (enrichAll annotations parent fs) ↔
    ∃ p rest g, Spot fs p rest g ∧ x.path = parent ++ rest ∧
      overlaid annotations x.path g.extension = some (x.extension, x.payload) := by
  rw [mem_visitAll, enrichAll_eq]
  constructor
  · rintro ⟨p, rest, h, hspot, hpath, hextension⟩
    obtain ⟨g, hg, rfl⟩ := Spots.Spot.of_map (name_enrich annotations) (children_enrich annotations) hspot
    rw [extension_enrich, List.append_assoc, hg.last, ← hpath] at hextension
    exact ⟨p, rest, g, hg, hpath, hextension⟩
  · rintro ⟨p, rest, g, hg, hpath, hextension⟩
    refine ⟨p, rest, _, Spots.Spot.map (name_enrich annotations) (children_enrich annotations) hg, hpath, ?_⟩
    rwa [extension_enrich, List.append_assoc, hg.last, ← hpath]

theorem visitAll_append (path : List String) (fs gs : List Field) :
    visitAll path (fs ++ gs) = visitAll path fs ++ visitAll path gs := by
  induction fs with
  | nil => rfl
  | cons f fs ih => rw [List.cons_append, visitAll, ih, visitAll, List.append_assoc]

theorem enrich_fields (annotations : List Annotation) (s : Schema) (columnCount : Nat) :
    (enrich annotations s columnCount).fields =
      enrichAll annotations [] (s.fields.take columnCount) ++ s.fields.drop columnCount := by
  rw [enrichAll_eq]
  apply List.ext_getElem?
  intro i
  simp only [enrich, List.getElem?_mapIdx, List.getElem?_append, List.length_map, List.length_take, List.getElem?_map,
    List.getElem?_take, List.getElem?_drop]
  grind

end Enrich

end Wordflow.Arrow
