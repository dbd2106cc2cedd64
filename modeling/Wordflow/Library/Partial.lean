import Mathlib.Data.List.Basic

namespace Wordflow.Library.Partial

variable {α β σ ι : Type}

/-- A computation that could fail gives a value, and the value has a property. -/
def Returns (x : Option α) (P : α → Prop) : Prop := ∃ a, x = some a ∧ P a

variable {x : Option α} {P Q : α → Prop} {R : β → Prop}

theorem Returns.mono (h : Returns x P) (hPQ : ∀ a, P a → Q a) : Returns x Q := by
  obtain ⟨a, ha, hP⟩ := h
  exact ⟨a, ha, hPQ a hP⟩

theorem returns_some {a : α} (h : P a) : Returns (some a) P := ⟨a, rfl, h⟩

theorem Returns.bind {f : α → Option β} (hx : Returns x P) (hf : ∀ a, P a → Returns (f a) R) : Returns (x >>= f) R := by
  obtain ⟨a, rfl, hP⟩ := hx
  exact hf a hP

theorem Returns.ite {c : Prop} [Decidable c] {y : Option α} (hx : c → Returns x P) (hy : ¬c → Returns y P) :
    Returns (if c then x else y) P := by
  by_cases h : c
  · rw [if_pos h]
    exact hx h
  · rw [if_neg h]
    exact hy h

theorem returns_getElem? {items : List α} {i : Nat} (h : i < items.length) :
    Returns items[i]? fun a => items[i]? = some a ∧ a ∈ items :=
  ⟨items[i], List.getElem?_eq_getElem h, List.getElem?_eq_getElem h, List.getElem_mem h⟩

theorem mapM_returns {f : ι → Option α} {items : List ι} (h : ∀ a ∈ items, Returns (f a) P) :
    Returns (items.mapM f) fun out => ∀ b ∈ out, P b := by
  induction items with
  | nil => exact returns_some fun b hb => nomatch hb
  | cons a items ih =>
      obtain ⟨ha, hrest⟩ := List.forall_mem_cons.mp h
      rw [List.mapM_cons]
      refine ha.bind fun b hb => (ih hrest).bind fun bs hbs => returns_some ?_
      exact List.forall_mem_cons.mpr ⟨hb, hbs⟩

/-- The values that each item gives, in the order of the items. -/
def collect (f : ι → Option (List α)) (items : List ι) : Option (List α) := (items.mapM f).map List.flatten

theorem collect_returns {f : ι → Option (List α)} {items : List ι}
    (h : ∀ a ∈ items, Returns (f a) fun out => ∀ b ∈ out, P b) : Returns (collect f items) fun out => ∀ b ∈ out, P b := by
  obtain ⟨outs, houts, hall⟩ := mapM_returns h
  refine ⟨outs.flatten, by rw [collect, houts, Option.map_some], fun b hb => ?_⟩
  obtain ⟨out, hout, hb⟩ := List.mem_flatten.mp hb
  exact hall out hout b hb

/-- The first item that passes a test that could fail. -/
def find (p : ι → Option Bool) : List ι → Option (Option ι)
  | [] => some none
  | a :: items => do
      let passes ← p a
      if passes then some (some a) else find p items

theorem find_returns {p : ι → Option Bool} {items : List ι} (h : ∀ a ∈ items, Returns (p a) fun _ => True) :
    Returns (find p items) fun r => ∀ a, r = some a → a ∈ items := by
  induction items with
  | nil => exact returns_some fun a ha => nomatch ha
  | cons a items ih =>
      obtain ⟨ha, hrest⟩ := List.forall_mem_cons.mp h
      refine ha.bind fun passes _ => Returns.ite (fun _ => returns_some ?_) fun _ => ?_
      · rintro b hb
        cases hb
        exact List.mem_cons_self
      · exact (ih hrest).mono fun r hr b hb => List.mem_cons_of_mem _ (hr b hb)

end Wordflow.Library.Partial
