import Mathlib.Data.List.Perm.Basic

namespace Wordflow.Library.Join

variable {ι κ β γ : Type*} [DecidableEq κ]

/-- Where the keys of a table differ, joining items to it on a key gives what
looking up the key of each item gives. -/
theorem join_perm {table : List (κ × β)} (hnodup : (table.map Prod.fst).Nodup) (f : ι → κ) (g : ι → β → Option γ)
    (items : List ι) :
    (table.flatMap fun a => (items.filter fun e => a.1 = f e).filterMap fun e => g e a.2).Perm
      (items.filterMap fun e => ((table.find? fun a => a.1 = f e).map Prod.snd).bind (g e)) := by
  induction table with
  | nil => simp
  | cons a table ih =>
      obtain ⟨hnot, hnodup⟩ := List.nodup_cons.mp hnodup
      have hsplit := (List.filter_append_perm (fun e => decide (a.1 = f e)) items).symm.filterMap
        fun e => (((a :: table).find? fun a => a.1 = f e).map Prod.snd).bind (g e)
      rw [List.filterMap_append] at hsplit
      refine .trans ?_ hsplit.symm
      rw [List.flatMap_cons]
      refine .append (.of_eq ?_) ((ih hnodup).trans ?_)
      · refine List.filterMap_congr fun e he => ?_
        have hkey := of_decide_eq_true (List.mem_filter.mp he).2
        simp [hkey]
      · have hrest := (List.filter_append_perm (fun e => decide (a.1 = f e)) items).symm.filterMap
          fun e => ((table.find? fun a => a.1 = f e).map Prod.snd).bind (g e)
        rw [List.filterMap_append] at hrest
        refine hrest.trans (.of_eq ?_)
        have hempty : (items.filter fun e => a.1 = f e).filterMap
            (fun e => ((table.find? fun a => a.1 = f e).map Prod.snd).bind (g e)) = [] := by
          rw [List.filterMap_eq_nil_iff]
          intro e he
          have hkey : a.1 = f e := of_decide_eq_true (List.mem_filter.mp he).2
          have hnone : table.find? (fun a => a.1 = f e) = none := by
            rw [List.find?_eq_none]
            intro b hb heq
            exact hnot (List.mem_map.mpr ⟨b, hb, (of_decide_eq_true heq).trans hkey.symm⟩)
          rw [hnone]
          rfl
        rw [hempty, List.nil_append]
        refine List.filterMap_congr fun e he => ?_
        have hkey : ¬a.1 = f e := by simpa using (List.mem_filter.mp he).2
        simp [hkey]

end Wordflow.Library.Join
