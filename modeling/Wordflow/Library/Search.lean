import Mathlib.Algebra.BigOperators.Group.Finset.Basic
import Mathlib.Algebra.Order.BigOperators.Group.Finset
import Wordflow.Library.Partial

namespace Wordflow.Library.Search

open Partial

variable {ι σ : Type} [DecidableEq ι]

/-- Visit what can be reached from a stack of items, each item once. -/
def search (next : ι → Option (List ι)) (visit : σ → ι → σ) : Nat → List ι → List ι → σ → Option σ
  | _, [], _, s => some s
  | 0, _ :: _, _, _ => none
  | rounds + 1, i :: stack, seen, s =>
      if i ∈ seen then search next visit rounds stack seen s
      else do
        let found ← next i
        search next visit rounds (found.reverse ++ stack) (i :: seen) (visit s i)

variable {next : ι → Option (List ι)} {visit : σ → ι → σ} {nodes : Finset ι}

def degree (next : ι → Option (List ι)) (i : ι) : Nat := ((next i).getD []).length

/-- The rounds that are left at most: one for each item of the stack, and one for each edge from an item not seen. -/
def remaining (next : ι → Option (List ι)) (nodes : Finset ι) (stack seen : List ι) : Nat :=
  stack.length + ∑ i ∈ nodes.filter (· ∉ seen), degree next i

theorem sum_unseen_cons {i : ι} (hi : i ∈ nodes) {seen : List ι} (hseen : i ∉ seen) (f : ι → Nat) :
    f i + ∑ j ∈ nodes.filter (· ∉ i :: seen), f j = ∑ j ∈ nodes.filter (· ∉ seen), f j := by
  have hmem : i ∈ nodes.filter (· ∉ seen) := Finset.mem_filter.mpr ⟨hi, hseen⟩
  rw [← Finset.add_sum_erase _ f hmem]
  congr 1
  apply Finset.sum_congr ?_ fun _ _ => rfl
  ext j
  simp only [Finset.mem_filter, Finset.mem_erase, List.mem_cons, not_or]
  tauto

/-- A search among finitely many items, whose edges stay among them, ends, whatever circles they form. -/
theorem search_returns {rounds : Nat} {stack seen : List ι} {s : σ} (I : σ → Prop)
    (hnext : ∀ i ∈ nodes, Returns (next i) fun found => ∀ j ∈ found, j ∈ nodes)
    (hvisit : ∀ i ∈ nodes, ∀ s, I s → I (visit s i)) (hstack : ∀ i ∈ stack, i ∈ nodes) (h0 : I s)
    (hrounds : remaining next nodes stack seen ≤ rounds) : Returns (search next visit rounds stack seen s) I := by
  induction rounds generalizing stack seen s with
  | zero =>
      cases stack with
      | nil => exact returns_some h0
      | cons i stack =>
          simp only [remaining, List.length_cons] at hrounds
          omega
  | succ rounds ih =>
      cases stack with
      | nil => exact returns_some h0
      | cons i stack =>
          obtain ⟨hi, hstack⟩ := List.forall_mem_cons.mp hstack
          rw [search]
          by_cases hseen : i ∈ seen
          · rw [if_pos hseen]
            refine ih hstack h0 ?_
            simp only [remaining, List.length_cons] at hrounds ⊢
            omega
          · rw [if_neg hseen]
            obtain ⟨found, hfound, hclosed⟩ := hnext i hi
            rw [hfound]
            refine ih (fun j hj => ?_) (hvisit i hi s h0) ?_
            · rcases List.mem_append.mp hj with hj | hj
              · exact hclosed j (List.mem_reverse.mp hj)
              · exact hstack j hj
            · have hsum := sum_unseen_cons hi hseen (degree next)
              have hdegree : degree next i = found.length := by rw [degree, hfound, Option.getD_some]
              simp only [remaining, List.length_cons, List.length_append, List.length_reverse] at hrounds ⊢
              omega

end Wordflow.Library.Search
