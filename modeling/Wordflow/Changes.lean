import Mathlib.Data.List.Lex
import Mathlib.Data.Prod.Lex
import Wordflow.CellEdit.Editor

namespace Wordflow.Changes

open Library Library.Identifier Library.OrderedMap Objects

inductive Resource
  | graph
  | tabs
  | sqlCells
  | project
  | sqlTypes
  deriving DecidableEq

structure ChangeScope where
  all : Bool
  objects : List Relation
  resources : List Resource
  analysisIds : List String
  deriving DecidableEq

abbrev ObjectKey := List Char ×ₗ List Char

structure Stamps where
  broad : Nat
  sequence : Nat
  objects : Map ObjectKey Nat

structure MutationStamp where
  broad : Nat
  object : Nat
  deriving DecidableEq

def objectKey (relation : Relation) : ObjectKey := toLex (asciiLower relation.schema, asciiLower relation.name)

namespace Notifications

def initial : Stamps := ⟨0, 0, Map.empty⟩

def stamp (s : Stamps) (relation : Relation) : MutationStamp :=
  ⟨s.broad, (s.objects.get? (objectKey relation)).getD 0⟩

def publish (s : Stamps) (scope : ChangeScope) : Stamps :=
  let sequence := s.sequence + 1
  if scope.all then ⟨sequence, sequence, Map.empty⟩
  else ⟨s.broad, sequence, scope.objects.foldl (fun m o => m.insert (objectKey o) sequence) s.objects⟩

end Notifications

/-- A scope that names nothing is not published. -/
def ChangeScope.publish (scope : ChangeScope) (s : Stamps) : Stamps :=
  if scope.all || !scope.objects.isEmpty || !scope.resources.isEmpty || !scope.analysisIds.isEmpty then
    Notifications.publish s scope
  else s

open Notifications

section Stamps

/-- Whether a commit changes the relation. -/
def Concerns (scope : ChangeScope) (relation : Relation) : Prop :=
  scope.all = true ∨ ∃ object ∈ scope.objects, object.same relation = true

/-- An object is stamped after the last broad change, and nothing after the sequence. -/
structure Ordered (s : Stamps) : Prop where
  broad : s.broad ≤ s.sequence
  objects : ∀ key value, s.objects.get? key = some value → s.broad < value ∧ value ≤ s.sequence

variable {s : Stamps} {scope : ChangeScope} {relation : Relation}

theorem objectKey_eq_iff {a b : Relation} : objectKey a = objectKey b ↔ a.same b = true := by
  rw [Relation.same_iff, objectKey, objectKey, toLex_inj, Prod.mk.injEq]

theorem get?_empty_ne {key : ObjectKey} {value : Nat} : (Map.empty : Map ObjectKey Nat).get? key ≠ some value := by
  rw [Map.get?_empty]
  exact nofun

theorem ordered_initial : Ordered initial := ⟨Nat.le_refl 0, fun _ _ h => absurd h get?_empty_ne⟩

/-- What is stamped is given the sequence of the commit, and the rest keeps its stamp. -/
theorem get?_stamped (sequence : Nat) (objects : List Relation) (m : Map ObjectKey Nat) (key : ObjectKey) :
    (objects.foldl (fun m o => m.insert (objectKey o) sequence) m).get? key =
      if key ∈ objects.map objectKey then some sequence else m.get? key := by
  induction objects generalizing m with
  | nil => simp
  | cons object objects ih =>
      rw [List.foldl_cons, ih]
      by_cases hrest : key ∈ objects.map objectKey
      · simp [hrest]
      · by_cases hkey : key = objectKey object
        · subst hkey
          rw [if_neg hrest, Map.get?_insert_self, List.map_cons, if_pos List.mem_cons_self]
        · rw [if_neg hrest, Map.get?_insert_of_ne hkey, if_neg]
          exact fun hmem => (List.mem_cons.mp hmem).elim hkey hrest

theorem mem_objectKeys {objects : List Relation} :
    objectKey relation ∈ objects.map objectKey ↔ ∃ object ∈ objects, object.same relation = true := by
  simp only [List.mem_map, objectKey_eq_iff]

/-- The stamp of a relation after a commit. -/
theorem stamp_publish (s : Stamps) (scope : ChangeScope) (relation : Relation) : (scope.all = true ∧ stamp (publish s scope) relation = ⟨s.sequence + 1, 0⟩) ∨
    (scope.all = false ∧ (∃ object ∈ scope.objects, object.same relation = true) ∧
      stamp (publish s scope) relation = ⟨s.broad, s.sequence + 1⟩) ∨
    (¬Concerns scope relation ∧ stamp (publish s scope) relation = stamp s relation) := by
  by_cases hall : scope.all = true
  · refine .inl ⟨hall, ?_⟩
    simp [stamp, publish, hall]
  · have hstamp : stamp (publish s scope) relation = ⟨s.broad,
        (if objectKey relation ∈ scope.objects.map objectKey then some (s.sequence + 1)
          else s.objects.get? (objectKey relation)).getD 0⟩ := by
      simp only [stamp, publish, if_neg hall, get?_stamped]
    by_cases hlisted : objectKey relation ∈ scope.objects.map objectKey
    · rw [if_pos hlisted] at hstamp
      exact .inr (.inl ⟨Bool.eq_false_iff.mpr hall, mem_objectKeys.mp hlisted, hstamp⟩)
    · rw [if_neg hlisted] at hstamp
      exact .inr (.inr ⟨fun h => h.elim hall (hlisted ∘ mem_objectKeys.mpr), hstamp⟩)

theorem ordered_publish (h : Ordered s) : Ordered (publish s scope) := by
  by_cases hall : scope.all = true
  · simp only [publish, if_pos hall]
    exact ⟨Nat.le_refl _, fun _ _ hget => absurd hget get?_empty_ne⟩
  · simp only [publish, if_neg hall]
    refine ⟨Nat.le_succ_of_le h.broad, fun key value hget => ?_⟩
    rw [get?_stamped] at hget
    split at hget
    · obtain rfl := Option.some.inj hget
      exact ⟨Nat.lt_succ_of_le h.broad, Nat.le_refl _⟩
    · obtain ⟨hlt, hle⟩ := h.objects key value hget
      exact ⟨hlt, Nat.le_succ_of_le hle⟩

/-- The sequence of the last commit that concerns the relation. -/
def MutationStamp.last (stamp : MutationStamp) : Nat := max stamp.broad stamp.object

theorem last_le_sequence (h : Ordered s) (relation : Relation) : (stamp s relation).last ≤ s.sequence := by
  refine max_le h.broad ?_
  rw [stamp]
  cases hget : s.objects.get? (objectKey relation) with
  | none => exact Nat.zero_le _
  | some value => exact (h.objects _ _ hget).2

theorem last_publish (h : Ordered s) (hconcerns : Concerns scope relation) :
    (stamp s relation).last < (stamp (publish s scope) relation).last := by
  have hle := last_le_sequence h relation
  have hbroad := h.broad
  rcases stamp_publish s scope relation with ⟨-, hstamp⟩ | ⟨-, -, hstamp⟩ | ⟨hnot, -⟩
  · rw [hstamp]
    change _ < max (s.sequence + 1) 0
    omega
  · rw [hstamp]
    change _ < max s.broad (s.sequence + 1)
    omega
  · exact absurd hconcerns hnot

theorem stamp_unconcerned (h : ¬Concerns scope relation) : stamp (publish s scope) relation = stamp s relation := by
  rcases stamp_publish s scope relation with ⟨hall, -⟩ | ⟨-, hlisted, -⟩ | ⟨-, hstamp⟩
  · exact absurd (.inl hall) h
  · exact absurd (.inr hlisted) h
  · exact hstamp

theorem last_mono (h : Ordered s) (run : List ChangeScope) (relation : Relation) :
    (stamp s relation).last ≤ (stamp (run.foldl publish s) relation).last := by
  induction run generalizing s with
  | nil => exact Nat.le_refl _
  | cons scope run ih =>
      refine Nat.le_trans ?_ (ih (ordered_publish h))
      by_cases hconcerns : Concerns scope relation
      · exact (last_publish h hconcerns).le
      · rw [stamp_unconcerned hconcerns]

theorem ordered_run (h : Ordered s) (run : List ChangeScope) : Ordered (run.foldl publish s) := by
  induction run generalizing s with
  | nil => exact h
  | cons scope run ih => exact ih (ordered_publish h)

theorem stamp_run (h : Ordered s) (run : List ChangeScope) (relation : Relation) :
    stamp (run.foldl publish s) relation = stamp s relation ↔ ∀ scope ∈ run, ¬Concerns scope relation := by
  induction run generalizing s with
  | nil => simp
  | cons scope run ih =>
      rw [List.foldl_cons, List.forall_mem_cons]
      by_cases hconcerns : Concerns scope relation
      · have hlt := (last_publish h hconcerns).trans_le (last_mono (ordered_publish h) run relation)
        exact ⟨fun heq => absurd (heq ▸ hlt) (Nat.lt_irrefl _), fun hnone => absurd hconcerns hnone.1⟩
      · rw [← stamp_unconcerned (s := s) hconcerns, ih (ordered_publish h), and_iff_right hconcerns]

/-- A stamp is met again exactly when no commit in between concerned its relation. -/
theorem stamp_eq_iff (before run : List ChangeScope) (relation : Relation) :
    stamp (run.foldl publish (before.foldl publish initial)) relation = stamp (before.foldl publish initial) relation ↔
      ∀ scope ∈ run, scope.all = false ∧ ∀ object ∈ scope.objects, object.same relation = false := by
  rw [stamp_run (ordered_run ordered_initial before)]
  refine forall₂_congr fun scope _ => ?_
  rw [Concerns, not_or, Bool.not_eq_true]
  refine and_congr_right fun _ => ?_
  simp only [not_exists, not_and, Bool.not_eq_true]

end Stamps

section Editing

variable {V : Type} [DecidableEq V] {sql : Tables.Sql V} {c : Tables.Catalogue V} {e : CellEdit.Editor V}
  {target : ObjectTarget} {relation : Relation} {id : String}

/-- An editor that expects the stamp of a Preview opens as one that expects none,
unless a commit since the Preview concerned its relation. -/
theorem begin_expected (before run : List ChangeScope)
    (hsession : e.sessions.find? (fun s => Protection.same s.2.target target) = none)
    (hresolve : Tables.resolve c target = .ok relation) :
    ((∀ scope ∈ run, ¬Concerns scope relation) ∧
      CellEdit.beginCellEdit sql c e target (decide (stamp (before.foldl publish initial) relation ≠
        stamp (run.foldl publish (before.foldl publish initial)) relation)) id =
          CellEdit.beginCellEdit sql c e target false id) ∨
      ((∃ scope ∈ run, Concerns scope relation) ∧
        CellEdit.beginCellEdit sql c e target (decide (stamp (before.foldl publish initial) relation ≠
          stamp (run.foldl publish (before.foldl publish initial)) relation)) id =
            .error ⟨"editing_stale", "This Data Block has changed. Refresh Preview before editing corrections"⟩) := by
  have hstamp := stamp_run (ordered_run ordered_initial before) run relation
  by_cases hnone : ∀ scope ∈ run, ¬Concerns scope relation
  · rw [hstamp.mpr hnone]
    exact .inl ⟨hnone, by simp⟩
  · have hne := (hstamp.not.mpr hnone).imp Eq.symm
    refine .inr ⟨by simpa using hnone, ?_⟩
    rw [decide_eq_true hne, CellEdit.beginCellEdit, hsession]
    simp only [hresolve]
    rfl

end Editing

end Wordflow.Changes
