import Mathlib.Data.List.Nodup
import Wordflow.Objects

namespace Wordflow.Tables

open Library.Identifier Objects

variable {V : Type}

/-- A stored row with its implicit rowid. Values carry their column's name. -/
structure Row (V : Type) where
  rowid : Nat
  cells : List (String × V)
  deriving DecidableEq

/-- What the database does with values and the constraints of its tables.
`text` is the cast to VARCHAR, which only NULL does not have; `compare` is the
form in which `=` compares; `moves` says whether an UPDATE of the given columns
deletes and reinserts the row. `fold` is the default case folding of Unicode. -/
structure Sql (V : Type) where
  cast : String → Option String → Except Error V
  text : V → Option String
  compare : V → V
  bigint : Nat → V
  default : Relation → String → Except Error V
  constraints : Relation → List (Row V) → Except Error Unit
  moves : Relation → List String → Bool
  fold : String → String

/-- The rowids of stored rows are BIGINT values that differ under `=`. -/
structure Sql.Rowids (sql : Sql V) : Prop where
  text : ∀ n, (sql.text (sql.bigint n)).isSome = true
  injective : ∀ m n, sql.compare (sql.bigint m) = sql.compare (sql.bigint n) → m = n

/-- A table, or with `base` false the rows of a view. Every row has the cells of
the columns, and rowids are never used twice. -/
structure Table (V : Type) where
  base : Bool
  columns : List (String × String)
  rows : List (Row V)
  next : Nat
  shaped : ∀ r ∈ rows, r.cells.map Prod.fst = columns.map Prod.fst
  below : ∀ r ∈ rows, r.rowid < next
  distinct : (rows.map Row.rowid).Nodup
  deriving DecidableEq

def sqlError (message : String) : Error := ⟨"sql_error", message⟩

def Sql.equal [DecidableEq V] (sql : Sql V) (a b : V) : Bool :=
  (sql.text a).isSome && (sql.text b).isSome && sql.compare a = sql.compare b

/-- What `rowid` means in a row: an explicit column of that name hides the
implicit rowid. -/
def Row.key (sql : Sql V) (row : Row V) : V :=
  match row.cells.find? fun c => eqIgnoreAsciiCase c.1 "rowid" with
  | some c => c.2
  | none => sql.bigint row.rowid

namespace Table

def delete (t : Table V) (p : Row V → Bool) : Table V :=
  { t with
    rows := t.rows.filter fun r => !p r
    shaped := fun r hr => t.shaped r (List.mem_filter.mp hr).1
    below := fun r hr => t.below r (List.mem_filter.mp hr).1
    distinct := t.distinct.sublist (List.filter_sublist.map _) }

/-- One row of an UPDATE that gives every cell of the rows `p` the value `f`. -/
def updateRow (next : Nat) (p : Row V → Bool) (f : String × V → V) (moves : Bool) (r : Row V) : Row V :=
  if p r then ⟨if moves then next + r.rowid else r.rowid, r.cells.map fun c => (c.1, f c)⟩ else r

section Update

variable (next : Nat) (p : Row V → Bool) (f : String × V → V) (moves : Bool) (r : Row V)

theorem updateRow_rowid : (updateRow next p f moves r).rowid = r.rowid ∨
    (updateRow next p f moves r).rowid = next + r.rowid := by
  by_cases hp : p r = true <;> by_cases hm : moves = true <;> simp [updateRow, hp, hm]

theorem updateRow_names : (updateRow next p f moves r).cells.map Prod.fst = r.cells.map Prod.fst := by
  by_cases hp : p r = true <;> simp [updateRow, hp]

end Update

/-- A row that moves takes a rowid that was not used before. -/
def update (t : Table V) (p : Row V → Bool) (f : String × V → V) (moves : Bool) : Table V :=
  { t with
    rows := t.rows.map (updateRow t.next p f moves)
    next := t.next + t.next
    shaped := by
      intro r hr
      obtain ⟨old, hold, rfl⟩ := List.mem_map.mp hr
      rw [updateRow_names]
      exact t.shaped old hold
    below := by
      intro r hr
      obtain ⟨old, hold, rfl⟩ := List.mem_map.mp hr
      have hlt := t.below old hold
      rcases updateRow_rowid t.next p f moves old with h | h <;> rw [h] <;> omega
    distinct := by
      rw [List.map_map]
      refine (List.nodup_map_iff_inj_on (List.Nodup.of_map _ t.distinct)).mpr ?_
      intro a ha b hb hab
      have halt := t.below a ha
      have hblt := t.below b hb
      apply List.inj_on_of_nodup_map t.distinct ha hb
      simp only [Function.comp_apply] at hab
      rcases updateRow_rowid t.next p f moves a with h₁ | h₁ <;>
        rcases updateRow_rowid t.next p f moves b with h₂ | h₂ <;> rw [h₁, h₂] at hab <;> omega }

def insert (t : Table V) (cells : List (String × V)) (h : cells.map Prod.fst = t.columns.map Prod.fst) : Table V :=
  { t with
    rows := t.rows ++ [⟨t.next, cells⟩]
    next := t.next + 1
    shaped := List.forall_mem_append.mpr ⟨t.shaped, List.forall_mem_singleton.mpr h⟩
    below := by
      intro r hr
      rcases List.mem_append.mp hr with hold | hnew
      · exact Nat.lt_succ_of_lt (t.below r hold)
      · rw [List.mem_singleton.mp hnew]
        exact Nat.lt_succ_self _
    distinct := by
      rw [List.map_append, List.map_singleton]
      refine List.Nodup.append t.distinct (List.nodup_singleton _) ?_
      rw [List.disjoint_singleton]
      intro h
      obtain ⟨r, hr, hid⟩ := List.mem_map.mp h
      exact absurd hid (Nat.ne_of_lt (t.below r hr)) }

end Table

/-- The relations of the open database and the Data Blocks registered in it. -/
structure Catalogue (V : Type) where
  tables : List (Relation × Table V)
  nodes : List String
  deriving DecidableEq

namespace Catalogue

def table? (c : Catalogue V) (relation : Relation) : Option (Table V) :=
  (c.tables.find? fun e => e.1 = relation).map Prod.snd

def set (c : Catalogue V) (relation : Relation) (t : Table V) : Catalogue V :=
  { c with tables := c.tables.map fun e => if e.1 = relation then (relation, t) else e }

def columns (c : Catalogue V) (relation : Relation) : List (String × String) :=
  ((c.table? relation).map Table.columns).getD []

theorem table?_set_self {c : Catalogue V} {relation : Relation} {old t : Table V}
    (h : c.table? relation = some old) : (c.set relation t).table? relation = some t := by
  rcases c with ⟨tables, nodes⟩
  simp only [table?, set] at h ⊢
  induction tables with
  | nil => simp at h
  | cons e rest ih =>
      by_cases he : e.1 = relation
      · simp [he]
      · simp only [List.map_cons, he, if_false, List.find?_cons, decide_false] at h ⊢
        exact ih h

theorem table?_set_of_ne {c : Catalogue V} {relation other : Relation} {t : Table V} (h : other ≠ relation) :
    (c.set relation t).table? other = c.table? other := by
  rcases c with ⟨tables, nodes⟩
  simp only [table?, set]
  induction tables with
  | nil => rfl
  | cons e rest ih =>
      by_cases he : e.1 = relation
      · simp only [List.map_cons, he, if_true, List.find?_cons, h.symm, decide_false]
        exact ih
      · by_cases ho : e.1 = other
        · subst ho
          simp [he]
        · simp only [List.map_cons, he, if_false, List.find?_cons, ho, decide_false]
          exact ih

end Catalogue

/-- `ObjectTarget::resolve`: a bare name is a registered Data Block. -/
def resolve (c : Catalogue V) (target : ObjectTarget) : Except Error Relation :=
  match target.schema with
  | none =>
      match c.nodes.find? fun n => eqIgnoreAsciiCase n target.name with
      | some name => .ok ⟨"data", name⟩
      | none => .error ⟨"node_not_found", "Data Block is not registered"⟩
  | some schema =>
      if eqIgnoreAsciiCase schema "wordflow" then .error (.invalid "Wordflow metadata is not a data object")
      else
        match c.tables.find? fun e =>
            eqIgnoreAsciiCase e.1.schema schema && eqIgnoreAsciiCase e.1.name target.name with
        | some e => .ok e.1
        | none => .error ⟨"object_not_found", "Database object is unavailable"⟩

theorem resolve_spec {c : Catalogue V} {target : ObjectTarget} {relation : Relation}
    (h : resolve c target = .ok relation) :
    asciiLower relation.schema = asciiLower (target.schema.getD "data") ∧
      asciiLower relation.name = asciiLower target.name := by
  rcases target with ⟨schema, name⟩
  cases schema with
  | none =>
      simp only [resolve] at h
      split at h
      · rename_i found hfind
        cases h
        have hsame := List.find?_some hfind
        exact ⟨rfl, eqIgnoreAsciiCase_iff.mp hsame⟩
      · cases h
  | some schema =>
      simp only [resolve] at h
      split at h
      · cases h
      · split at h
        · rename_i found hfind
          cases h
          have hsame := List.find?_some hfind
          rw [Bool.and_eq_true] at hsame
          exact ⟨eqIgnoreAsciiCase_iff.mp hsame.1, eqIgnoreAsciiCase_iff.mp hsame.2⟩
        · cases h

end Wordflow.Tables
