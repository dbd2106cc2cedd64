import Mathlib.Logic.Function.Basic

namespace Wordflow.Library.HardLinks

/-- Names for files, of which several may stand for one. Files are numbered as
they are made. -/
structure Disk (P C : Type*) where
  entry : P → Option Nat
  contents : Nat → C
  next : Nat
  bounded : ∀ p i, entry p = some i → i < next

variable {P C : Type*} [DecidableEq P]

namespace Disk

theorem bounded_set {d : Disk P C} {p : P} {e : Option Nat} (he : ∀ i, e = some i → i < d.next) (q : P) (i : Nat)
    (h : Function.update d.entry p e q = some i) : i < d.next := by
  by_cases hq : q = p
  · subst hq
    rw [Function.update_self] at h
    exact he i h
  · rw [Function.update_of_ne hq] at h
    exact d.bounded q i h

/-- `dst` comes to stand for what `src` stands for. -/
def point (d : Disk P C) (src dst : P) : Disk P C :=
  { d with entry := Function.update d.entry dst (d.entry src), bounded := bounded_set (d.bounded src) }

def unlink (d : Disk P C) (p : P) : Disk P C :=
  { d with entry := Function.update d.entry p none, bounded := bounded_set fun _ h => (Option.some_ne_none _ h.symm).elim }

def write (d : Disk P C) (i : Nat) (c : C) : Disk P C := { d with contents := Function.update d.contents i c }

theorem bounded_create {d : Disk P C} {p : P} (q : P) (i : Nat) (h : Function.update d.entry p (some d.next) q = some i) :
    i < d.next + 1 := by
  by_cases hq : q = p
  · subst hq
    rw [Function.update_self] at h
    exact Option.some.inj h ▸ Nat.lt_succ_self _
  · rw [Function.update_of_ne hq] at h
    exact Nat.lt_succ_of_lt (d.bounded q i h)

def create (d : Disk P C) (p : P) (c : C) : Disk P C :=
  { entry := Function.update d.entry p (some d.next)
    contents := Function.update d.contents d.next c
    next := d.next + 1
    bounded := bounded_create }

/-- A second name for a file, where the name is free. -/
def hardLink (d : Disk P C) (src dst : P) : Option (Disk P C) :=
  if (d.entry src).isSome ∧ d.entry dst = none then some (d.point src dst) else none

/-- A file at `dst` loses this name. -/
def rename (d : Disk P C) (src dst : P) : Option (Disk P C) :=
  if (d.entry src).isSome then some (if src = dst then d else (d.point src dst).unlink src) else none

def remove (d : Disk P C) (p : P) : Option (Disk P C) :=
  if (d.entry p).isSome then some (d.unlink p) else none

section Reading

variable (d : Disk P C) (src dst p q : P) (i j : Nat) (c : C)

@[simp]
theorem point_next : (d.point src dst).next = d.next := rfl

@[simp]
theorem point_contents : (d.point src dst).contents = d.contents := rfl

@[simp]
theorem point_self : (d.point src dst).entry dst = d.entry src := by simp [point]

@[simp]
theorem unlink_next : (d.unlink p).next = d.next := rfl

@[simp]
theorem unlink_contents : (d.unlink p).contents = d.contents := rfl

@[simp]
theorem unlink_self : (d.unlink p).entry p = none := by simp [unlink]

omit [DecidableEq P] in
@[simp]
theorem write_entry : (d.write i c).entry = d.entry := rfl

omit [DecidableEq P] in
@[simp]
theorem write_next : (d.write i c).next = d.next := rfl

omit [DecidableEq P] in
@[simp]
theorem write_self : (d.write i c).contents i = c := by simp [write]

@[simp]
theorem create_next : (d.create p c).next = d.next + 1 := rfl

@[simp]
theorem create_self : (d.create p c).entry p = some d.next := by simp [create]

@[simp]
theorem create_contents_self : (d.create p c).contents d.next = c := by simp [create]

variable {d src dst p q i j}

theorem point_of_ne (h : p ≠ dst) : (d.point src dst).entry p = d.entry p := Function.update_of_ne h _ _

theorem unlink_of_ne (h : q ≠ p) : (d.unlink p).entry q = d.entry q := Function.update_of_ne h _ _

omit [DecidableEq P] in
theorem write_of_ne (h : j ≠ i) : (d.write i c).contents j = d.contents j := Function.update_of_ne h _ _

theorem create_of_ne (h : q ≠ p) : (d.create p c).entry q = d.entry q := Function.update_of_ne h _ _

theorem create_contents (h : i < d.next) : (d.create p c).contents i = d.contents i :=
  Function.update_of_ne (Nat.ne_of_lt h) _ _

theorem hardLink_eq {d' : Disk P C} :
    d.hardLink src dst = some d' ↔ (∃ i, d.entry src = some i) ∧ d.entry dst = none ∧ d' = d.point src dst := by
  simp only [hardLink, Option.isSome_iff_exists, Option.ite_none_right_eq_some, Option.some.injEq, eq_comm (a := d'),
    and_assoc]

theorem rename_eq {d' : Disk P C} (hne : src ≠ dst) :
    d.rename src dst = some d' ↔ (∃ i, d.entry src = some i) ∧ d' = (d.point src dst).unlink src := by
  simp only [rename, if_neg hne, Option.isSome_iff_exists, Option.ite_none_right_eq_some, Option.some.injEq, eq_comm (a := d')]

theorem remove_eq {d' : Disk P C} : d.remove p = some d' ↔ (∃ i, d.entry p = some i) ∧ d' = d.unlink p := by
  simp only [remove, Option.isSome_iff_exists, Option.ite_none_right_eq_some, Option.some.injEq, eq_comm (a := d')]

end Reading

end Disk

/-- What a program does to a disk. -/
inductive Act (P C : Type*)
  | create (p : P) (c : C)
  | write (i : Nat) (c : C)
  | link (src dst : P)
  | rename (src dst : P)
  | remove (p : P)

section Others

variable (held : Nat → Bool) (visible : P → Bool)

/-- An act of another program, which knows the visible names only and leaves the
held files and their names alone. -/
def others (d : Disk P C) : Act P C → Option (Disk P C)
  | .create p c => if visible p = true ∧ d.entry p = none then some (d.create p c) else none
  | .write i c => if held i then none else some (d.write i c)
  | .link src dst => if visible src = true ∧ visible dst = true then d.hardLink src dst else none
  | .rename src dst =>
      if visible src = true ∧ visible dst = true ∧ (d.entry src).all (!held ·) ∧ (d.entry dst).all (!held ·) then
        d.rename src dst
      else none
  | .remove p => if visible p = true ∧ (d.entry p).all (!held ·) then d.remove p else none

/-- What acts of other programs leave as it is. -/
structure Keeps (d d' : Disk P C) : Prop where
  entry : ∀ p i, d.entry p = some i → held i = true → d'.entry p = some i
  contents : ∀ i, i < d.next → held i = true → d'.contents i = d.contents i
  hidden : ∀ p, visible p = false → d'.entry p = d.entry p
  next : d.next ≤ d'.next

variable {held visible} {d d' : Disk P C} {p : P} {i : Nat}

omit [DecidableEq P] in
theorem not_held (h : (d.entry p).all (!held ·) = true) (hp : d.entry p = some i) (hi : held i = true) : False := by
  rw [hp, Option.all_some, hi] at h
  cases h

theorem keeps_unlink (hp : visible p = true) (h : (d.entry p).all (!held ·) = true) : Keeps held visible d (d.unlink p) where
  entry q i hq hi := by
    by_cases he : q = p
    · subst he
      exact (not_held h hq hi).elim
    · rw [Disk.unlink_of_ne he, hq]
  contents _ _ _ := rfl
  hidden q hq := Disk.unlink_of_ne (by rintro rfl; simp [hp] at hq)
  next := Nat.le_refl _

theorem keeps_point {src dst : P} (hdst : visible dst = true) (h : (d.entry dst).all (!held ·) = true) :
    Keeps held visible d (d.point src dst) where
  entry q i hq hi := by
    by_cases he : q = dst
    · subst he
      exact (not_held h hq hi).elim
    · rw [Disk.point_of_ne he, hq]
  contents _ _ _ := rfl
  hidden q hq := Disk.point_of_ne (by rintro rfl; simp [hdst] at hq)
  next := Nat.le_refl _

theorem keeps_create {c : C} (hp : visible p = true) (h : d.entry p = none) : Keeps held visible d (d.create p c) where
  entry q i hq _ := by
    have hne : q ≠ p := by rintro rfl; rw [h] at hq; cases hq
    rw [Disk.create_of_ne _ hne, hq]
  contents _ hi _ := Disk.create_contents _ hi
  hidden q hq := Disk.create_of_ne _ (by rintro rfl; simp [hp] at hq)
  next := Nat.le_succ _

omit [DecidableEq P] in
theorem Keeps.refl (d : Disk P C) : Keeps held visible d d :=
  ⟨fun _ _ h _ => h, fun _ _ _ => rfl, fun _ _ => rfl, Nat.le_refl _⟩

theorem others_keeps {a : Act P C} (h : others held visible d a = some d') : Keeps held visible d d' := by
  cases a with
  | create p c =>
      obtain ⟨⟨hp, hfree⟩, heq⟩ := Option.ite_none_right_eq_some.mp h
      exact Option.some.inj heq ▸ keeps_create hp hfree
  | write i c =>
      obtain ⟨hi, heq⟩ := Option.ite_none_left_eq_some.mp h
      refine Option.some.inj heq ▸ ⟨fun _ _ h _ => h, fun j _ hj => ?_, fun _ _ => rfl, Nat.le_refl _⟩
      exact Disk.write_of_ne _ (by rintro rfl; exact hi hj)
  | link src dst =>
      obtain ⟨⟨-, hdst⟩, heq⟩ := Option.ite_none_right_eq_some.mp h
      obtain ⟨-, hfree, rfl⟩ := Disk.hardLink_eq.mp heq
      exact keeps_point hdst (by simp [hfree])
  | rename src dst =>
      obtain ⟨⟨hsrc, hdst, hs, hd⟩, heq⟩ := Option.ite_none_right_eq_some.mp h
      by_cases hne : src = dst
      · obtain ⟨-, heq⟩ := Option.ite_none_right_eq_some.mp heq
        rw [if_pos hne] at heq
        exact Option.some.inj heq ▸ Keeps.refl d
      · obtain ⟨-, rfl⟩ := (Disk.rename_eq hne).mp heq
        have hpoint : Keeps held visible d (d.point src dst) := keeps_point hdst hd
        have hunlink : Keeps held visible (d.point src dst) ((d.point src dst).unlink src) :=
          keeps_unlink hsrc (by rw [Disk.point_of_ne hne]; exact hs)
        exact ⟨fun p i hp hi => hunlink.entry p i (hpoint.entry p i hp hi) hi, fun _ _ _ => rfl,
          fun p hp => (hunlink.hidden p hp).trans (hpoint.hidden p hp), Nat.le_refl _⟩
  | remove p =>
      obtain ⟨⟨hp, hfree⟩, heq⟩ := Option.ite_none_right_eq_some.mp h
      obtain ⟨-, rfl⟩ := Disk.remove_eq.mp heq
      exact keeps_unlink hp hfree

end Others

end Wordflow.Library.HardLinks
