import Wordflow.Crates.Tabulate
import Wordflow.Library.Separated

namespace Wordflow.Crates

open Library

/-- Where a value is found: under a property of the entity, or under a property of an entity that one refers to. -/
inductive Path
  | direct (name : String)
  | nested (name target : String)
  deriving DecidableEq

namespace Path

/-- The name that the columns and the companion table of a path start with. -/
def name : Path → String
  | direct name => name
  | nested name target => name ++ "_" ++ target

def origin : Path → String
  | direct name => name
  | nested name target => name ++ "/" ++ target

/-- Identifiers are no values. -/
def Proper : Path → Prop
  | direct name => name ≠ "@id"
  | nested name target => name ≠ "@id" ∧ target ≠ "@id"

end Path

/-- What a column holds: the entity's identifier, the values of a path, or the identifiers of what they refer to. -/
inductive Origin
  | identifier
  | value (path : Path)
  | target (path : Path)
  deriving DecidableEq

namespace Origin

def base : Origin → String
  | identifier => "entity_id"
  | value path => path.name
  | target path => path.name ++ "_id"

def text : Origin → String
  | identifier => "@id"
  | value path => path.origin
  | target path => path.origin ++ "/@id"

def Proper : Origin → Prop
  | identifier => True
  | value path => path.Proper
  | target path => path.Proper

variable {n m x y r s t u : String}

theorem cut_unique (h : n ++ "/" ++ x = m ++ "/" ++ y) (h' : n ++ "_" ++ r = m ++ "_" ++ s) : n = m ∧ x = y ∧ r = s := by
  have hslash : n.toList ++ '/' :: x.toList = m.toList ++ '/' :: y.toList := by
    simpa using congrArg String.toList h
  have hunder : n.toList ++ '_' :: r.toList = m.toList ++ '_' :: s.toList := by
    simpa using congrArg String.toList h'
  obtain rfl := String.toList_injective (Separated.head_eq (by decide) hslash hunder)
  refine ⟨rfl, String.toList_injective ?_, String.toList_injective ?_⟩
  · exact (List.cons.inj (List.append_cancel_left hslash)).2
  · exact (List.cons.inj (List.append_cancel_left hunder)).2

theorem uncut_ne (h : n = m ++ "/" ++ x) : n ++ r ≠ m ++ "_" ++ s := by
  subst h
  intro heq
  have hmarks : (m.toList ++ '/' :: x.toList) ++ r.toList = m.toList ++ '_' :: s.toList := by
    simpa using congrArg String.toList heq
  exact Separated.ne_of_marked (by decide) hmarks

theorem identifier_of_text {o : Origin} (ho : o.Proper) (h : o.text = "@id") : o = identifier := by
  have hmark : ∀ n x : String, n ++ "/" ++ x ≠ "@id" := by
    intro n x heq
    have hmem : '/' ∈ (n ++ "/" ++ x).toList := by simp
    rw [heq] at hmem
    exact absurd hmem (by decide)
  cases o with
  | identifier => rfl
  | value path =>
      cases path with
      | direct name => exact absurd h ho
      | nested name target => exact absurd h (hmark name target)
  | target path =>
      refine absurd ?_ (hmark path.origin "@id")
      rw [String.append_assoc]
      exact h

/-- What follows the first segment of an origin, in its text and in the names of its columns. -/
inductive Tail : Origin → String → String → String → Prop
  | nested (name target : String) : Tail (value (.nested name target)) name target target
  | direct (name : String) : Tail (target (.direct name)) name "@id" "id"
  | both (name t : String) : Tail (target (.nested name t)) name (t ++ "/" ++ "@id") (t ++ "_" ++ "id")

theorem Tail.text_eq {o : Origin} (h : Tail o n x y) : o.text = n ++ "/" ++ x := by
  cases h with
  | nested => rfl
  | direct => simp [text, Path.origin, String.append_assoc]
  | both => simp [text, Path.origin, String.append_assoc]

theorem Tail.base_eq {o : Origin} (h : Tail o n x y) : o.base = n ++ "_" ++ y := by
  cases h with
  | nested => rfl
  | direct => simp [base, Path.name, String.append_assoc]
  | both => simp [base, Path.name, String.append_assoc]

theorem exists_tail (o : Origin) (hid : o ≠ identifier) (hdirect : ∀ name, o ≠ value (.direct name)) :
    ∃ n x y, Tail o n x y := by
  cases o with
  | identifier => exact absurd rfl hid
  | value path =>
      cases path with
      | direct name => exact absurd rfl (hdirect name)
      | nested name target => exact ⟨_, _, _, .nested name target⟩
  | target path =>
      cases path with
      | direct name => exact ⟨_, _, _, .direct name⟩
      | nested name t => exact ⟨_, _, _, .both name t⟩

theorem tail_unique {o o' : Origin} (ho : o.Proper) (ho' : o'.Proper) (h : Tail o n x y) (h' : Tail o' n x u)
    (hcolumn : y ++ r = u ++ s) : o = o' := by
  have hlong : ∀ t : String, t ++ "/" ++ "@id" ≠ "@id" := by
    intro t heq
    have hlength := congrArg (fun z : String => z.toList.length) heq
    simp at hlength
  cases h with
  | nested =>
      generalize hx : x = x' at h'
      cases h' with
      | nested => rfl
      | direct => exact absurd hx ho.2
      | both name t =>
          refine absurd ?_ (uncut_ne (r := r) (s := "id" ++ s) hx)
          rw [hcolumn, String.append_assoc, String.append_assoc]
  | direct =>
      generalize hx : "@id" = x' at h'
      cases h' with
      | nested => exact absurd hx.symm ho'.2
      | direct => rfl
      | both name t => exact absurd hx.symm (hlong t)
  | both name t =>
      generalize hx : t ++ "/" ++ "@id" = x' at h'
      cases h' with
      | nested =>
          refine absurd ?_ (uncut_ne (r := s) (s := "id" ++ r) hx.symm)
          rw [← hcolumn, String.append_assoc, String.append_assoc]
      | direct => exact absurd hx (hlong t)
      | both name t' =>
          have ht : t = t' := String.toList_injective (by simpa using congrArg String.toList hx)
          rw [ht]

/-- The text of an origin and the name of a column tell the origin. -/
theorem origin_unique {o o' : Origin} (ho : o.Proper) (ho' : o'.Proper) (htext : o.text = o'.text)
    (hcolumn : o.base ++ r = o'.base ++ s) : o = o' := by
  by_cases hid : o.text = "@id"
  · rw [identifier_of_text ho hid, identifier_of_text ho' (htext ▸ hid)]
  · have hne : o ≠ identifier := fun h => hid (h ▸ rfl)
    have hne' : o' ≠ identifier := fun h => hid (htext ▸ h ▸ rfl)
    by_cases hdirect : ∃ name, o = value (.direct name)
    · obtain ⟨name, rfl⟩ := hdirect
      by_cases hdirect' : ∃ name, o' = value (.direct name)
      · obtain ⟨name', rfl⟩ := hdirect'
        exact congrArg (fun n => value (.direct n)) htext
      · obtain ⟨m, x, y, ht⟩ := exists_tail o' hne' (by simpa using hdirect')
        refine absurd ?_ (uncut_ne (r := r) (s := y ++ s) (htext.trans ht.text_eq))
        rw [← String.append_assoc, ← ht.base_eq]
        exact hcolumn
    · obtain ⟨n, x, y, ht⟩ := exists_tail o hne (by simpa using hdirect)
      by_cases hdirect' : ∃ name, o' = value (.direct name)
      · obtain ⟨name', rfl⟩ := hdirect'
        refine absurd ?_ (uncut_ne (r := s) (s := y ++ r) (htext.symm.trans ht.text_eq))
        rw [← String.append_assoc, ← ht.base_eq]
        exact hcolumn.symm
      · obtain ⟨m, x', u, ht'⟩ := exists_tail o' hne' (by simpa using hdirect')
        have htexts : n ++ "/" ++ x = m ++ "/" ++ x' := by rw [← ht.text_eq, ← ht'.text_eq, htext]
        have hcolumns : n ++ "_" ++ (y ++ r) = m ++ "_" ++ (u ++ s) := by
          rw [← String.append_assoc, ← String.append_assoc, ← ht.base_eq, ← ht'.base_eq, hcolumn]
        obtain ⟨rfl, rfl, hrest⟩ := cut_unique htexts hcolumns
        exact tail_unique ho ho' ht ht' hrest

end Origin

end Wordflow.Crates
