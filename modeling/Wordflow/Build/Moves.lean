import Mathlib.Data.List.Nodup
import Mathlib.Data.List.Perm.Basic
import Wordflow.Build.ExpressionTree

namespace Wordflow.Build

open BuilderToken

variable {O : Type} {nodes rest : List (BuilderToken O)} {node x : BuilderToken O} {id q : String}

mutual

def nodesBelow : BuilderToken O → List (BuilderToken O)
  | .combination _ _ _ children => nodesOf children
  | _ => []

/-- The nodes of a forest in preorder. -/
def nodesOf : List (BuilderToken O) → List (BuilderToken O)
  | [] => []
  | node :: rest => node :: (nodesBelow node ++ nodesOf rest)

end

def ids (nodes : List (BuilderToken O)) : List String := (nodesOf nodes).map BuilderToken.id

/-- A node without what is below it. -/
def bare (node : BuilderToken O) : BuilderToken O := node.withChildren []

def bares (nodes : List (BuilderToken O)) : List (BuilderToken O) := (nodesOf nodes).map bare

def childrenOf (nodes : List (BuilderToken O)) : Option String → List (BuilderToken O)
  | none => nodes
  | some q => ((findExpression nodes q).map children).getD []

/-- The ids below a parent, in order. -/
def siblings (nodes : List (BuilderToken O)) (q : Option String) : List String := (childrenOf nodes q).map BuilderToken.id

section Equations

variable {update : BuilderToken O → BuilderToken O} {parent : Option String} {index : Nat}

theorem nodesOf_cons (node : BuilderToken O) (rest : List (BuilderToken O)) :
    nodesOf (node :: rest) = node :: (nodesOf node.children ++ nodesOf rest) := by
  cases node <;> rfl

theorem findExpression_cons : findExpression (node :: rest) q =
    if node.id = q then some node else (findExpression node.children q).or (findExpression rest q) := by
  have hbelow : findBelow node q = findExpression node.children q := by cases node <;> rfl
  rw [findExpression, hbelow]
  cases findExpression node.children q <;> rfl

theorem updateExpression_cons : updateExpression (node :: rest) q update =
    (if node.id = q then update node else node.withChildren (updateExpression node.children q update)) ::
      updateExpression rest q update := by
  cases node <;> rfl

theorem removeExpression_cons : removeExpression (node :: rest) q =
    if node.id = q then removeExpression rest q
    else node.withChildren (removeExpression node.children q) :: removeExpression rest q := by
  rw [removeExpression, ite_not]
  cases node <;> rfl

theorem locationFrom_cons : locationFrom (node :: rest) q parent index =
    if node.id = q then some (parent, index)
    else (locationFrom node.children q (some node.id) 0).or (locationFrom rest q parent (index + 1)) := by
  have hbelow : locationBelow node q = locationFrom node.children q (some node.id) 0 := by cases node <;> rfl
  rw [locationFrom, hbelow]
  cases locationFrom node.children q (some node.id) 0 <;> rfl

theorem removed_children (node : BuilderToken O) (id : String) :
    (node.withChildren (removeExpression node.children id)).children = removeExpression node.children id := by
  cases node <;> rfl

theorem updated_children (node : BuilderToken O) (id : String) (update : BuilderToken O → BuilderToken O) :
    (node.withChildren (updateExpression node.children id update)).children = updateExpression node.children id update := by
  cases node <;> rfl

theorem nodesOf_append (nodes others : List (BuilderToken O)) : nodesOf (nodes ++ others) = nodesOf nodes ++ nodesOf others := by
  induction nodes with
  | nil => rfl
  | cons node nodes ih => rw [List.cons_append, nodesOf_cons, nodesOf_cons, ih, List.cons_append, List.append_assoc]

theorem ids_cons (node : BuilderToken O) (rest : List (BuilderToken O)) :
    ids (node :: rest) = node.id :: (ids node.children ++ ids rest) := by
  rw [ids, nodesOf_cons, List.map_cons, List.map_append]
  rfl

theorem bares_cons (node : BuilderToken O) (rest : List (BuilderToken O)) :
    bares (node :: rest) = bare node :: (bares node.children ++ bares rest) := by
  rw [bares, nodesOf_cons, List.map_cons, List.map_append]
  rfl

@[simp] theorem bare_id (node : BuilderToken O) : (bare node).id = node.id := withChildren_id node []

theorem ids_eq_bares (nodes : List (BuilderToken O)) : ids nodes = (bares nodes).map BuilderToken.id := by
  rw [ids, bares, List.map_map]
  apply List.map_congr_left
  exact fun node _ => (bare_id node).symm

end Equations

section Search

/-- The search goes in preorder. -/
theorem findExpression_eq (nodes : List (BuilderToken O)) (q : String) :
    findExpression nodes q = (nodesOf nodes).find? fun node => node.id = q := by
  induction nodes using forest_induction with
  | nil => rfl
  | cons node rest hnode hrest =>
      rw [findExpression_cons, nodesOf_cons, List.find?_cons, List.find?_append, hnode, hrest]
      by_cases h : node.id = q <;> simp [h]

theorem findExpression_spec (h : findExpression nodes q = some node) : node ∈ nodesOf nodes ∧ node.id = q := by
  rw [findExpression_eq] at h
  have hid := List.find?_some h
  exact ⟨List.mem_of_find?_eq_some h, of_decide_eq_true hid⟩

theorem findExpression_none : findExpression nodes q = none ↔ q ∉ ids nodes := by
  rw [findExpression_eq, List.find?_eq_none, ids, List.mem_map]
  simp

/-- A node is found by its id. -/
theorem findExpression_mem (hids : (ids nodes).Nodup) (h : node ∈ nodesOf nodes) : findExpression nodes node.id = some node := by
  cases hfind : findExpression nodes node.id with
  | none => exact absurd (List.mem_map_of_mem h) (findExpression_none.mp hfind)
  | some found =>
      obtain ⟨hfound, hid⟩ := findExpression_spec hfind
      rw [List.inj_on_of_nodup_map hids hfound h hid]

theorem mem_nodesOf_self (h : node ∈ nodes) : node ∈ nodesOf nodes := by
  induction nodes with
  | nil => cases h
  | cons first nodes ih =>
      rw [nodesOf_cons]
      rcases List.mem_cons.mp h with rfl | h
      · exact List.mem_cons_self
      · exact List.mem_cons_of_mem _ (List.mem_append_right _ (ih h))

/-- What is below a node of a forest is in the forest. -/
theorem nodesOf_children (h : node ∈ nodesOf nodes) : nodesOf node.children ⊆ nodesOf nodes := by
  induction nodes using forest_induction with
  | nil => cases h
  | cons first rest hfirst hrest =>
      rw [nodesOf_cons] at h ⊢
      rcases List.mem_cons.mp h with rfl | h
      · exact fun _ hx => List.mem_cons_of_mem _ (List.mem_append_left _ hx)
      · rcases List.mem_append.mp h with h | h
        · exact fun _ hx => List.mem_cons_of_mem _ (List.mem_append_left _ (hfirst h hx))
        · exact fun _ hx => List.mem_cons_of_mem _ (List.mem_append_right _ (hrest h hx))

/-- A node of a forest with what is below it. -/
theorem nodesOf_sublist (h : node ∈ nodesOf nodes) : (nodesOf [node]).Sublist (nodesOf nodes) := by
  induction nodes using forest_induction with
  | nil => cases h
  | cons first rest hfirst hrest =>
      rw [nodesOf_cons first] at h ⊢
      rcases List.mem_cons.mp h with rfl | h
      · rw [nodesOf_cons]
        exact ((List.nil_sublist _).append_left _).cons_cons _
      · rcases List.mem_append.mp h with h | h
        · exact ((hfirst h).trans (List.sublist_append_left _ _)).cons _
        · exact ((hrest h).trans (List.sublist_append_right _ _)).cons _

end Search

section Remove

/-- Removing what is not there changes nothing. -/
theorem remove_absent (h : id ∉ ids nodes) : removeExpression nodes id = nodes := by
  induction nodes using forest_induction with
  | nil => rfl
  | cons node rest hnode hrest =>
      rw [ids_cons, List.mem_cons, List.mem_append, not_or, not_or] at h
      obtain ⟨hid, hbelow, hafter⟩ := h
      rw [removeExpression_cons, if_neg (Ne.symm hid), hnode hbelow, hrest hafter, withChildren_children]

/-- What is removed and what stays are what was there. -/
theorem bares_remove (hids : (ids nodes).Nodup) (h : findExpression nodes id = some x) :
    (bares nodes).Perm (bares [x] ++ bares (removeExpression nodes id)) := by
  induction nodes using forest_induction with
  | nil => cases h
  | cons node rest hnode hrest =>
      rw [ids_cons, List.nodup_cons, List.nodup_append', List.mem_append, not_or] at hids
      obtain ⟨⟨hbelow, hafter⟩, hchildren, hothers, hapart⟩ := hids
      rw [findExpression_cons] at h
      rw [removeExpression_cons, bares_cons]
      by_cases hid : node.id = id
      · rw [if_pos hid] at h ⊢
        cases h
        rw [remove_absent (hid ▸ hafter), bares_cons]
        simp [bares, nodesOf]
      · rw [if_neg hid] at h
        have hcons : bares (node.withChildren (removeExpression node.children id) :: removeExpression rest id) =
            bare node :: (bares (removeExpression node.children id) ++ bares (removeExpression rest id)) := by
          rw [bares_cons, removed_children, bare, withChildren_withChildren, bare]
        rw [if_neg hid, hcons]
        cases hfind : findExpression node.children id with
        | none =>
            rw [hfind, Option.none_or] at h
            rw [remove_absent (findExpression_none.mp hfind)]
            refine ((hrest hothers h).append_left _).cons _ |>.trans ?_
            refine .trans ?_ List.perm_middle.symm
            rw [← List.append_assoc, ← List.append_assoc]
            exact (List.perm_append_comm.append_right _).cons _
        | some found =>
            rw [hfind, Option.some_or] at h
            cases h
            have hfound : id ∈ ids node.children := by
              by_contra hnot
              rw [findExpression_none.mpr hnot] at hfind
              cases hfind
            rw [remove_absent fun hin => hapart hfound hin]
            refine (((hnode hchildren hfind).append_right _).cons _).trans ?_
            rw [List.append_assoc]
            exact List.perm_middle.symm

/-- What is found after a removal, where it was not below what was removed. -/
theorem find_remove (h : ∀ y ∈ nodesOf nodes, y.id = id → q ∉ ids [y]) : findExpression (removeExpression nodes id) q =
    (findExpression nodes q).map fun node => node.withChildren (removeExpression node.children id) := by
  induction nodes using forest_induction with
  | nil => rfl
  | cons node rest hnode hrest =>
      rw [nodesOf_cons, List.forall_mem_cons, List.forall_mem_append] at h
      obtain ⟨hself, hbelow, hafter⟩ := h
      rw [removeExpression_cons, findExpression_cons]
      by_cases hid : node.id = id
      · have hnot := hself hid
        rw [ids_cons, List.mem_cons, List.mem_append, not_or, not_or] at hnot
        rw [if_pos hid, hrest hafter, if_neg (Ne.symm hnot.1), findExpression_none.mpr hnot.2.1, Option.none_or]
      · rw [if_neg hid, findExpression_cons, removed_children, withChildren_id, hnode hbelow, hrest hafter]
        by_cases hq : node.id = q
        · rw [if_pos hq, if_pos hq, Option.map_some]
        · rw [if_neg hq, if_neg hq]
          cases findExpression node.children q <;> rfl

theorem remove_ids (nodes : List (BuilderToken O)) (id : String) :
    (removeExpression nodes id).map BuilderToken.id = (nodes.map BuilderToken.id).filter (· ≠ id) := by
  induction nodes with
  | nil => rfl
  | cons node rest ih =>
      rw [removeExpression_cons, List.map_cons, List.filter_cons]
      by_cases hid : node.id = id
      · simp [hid, ih]
      · simp [hid, ih]

/-- The siblings after a removal, where a parent was not removed. -/
theorem siblings_remove {parent : Option String}
    (h : ∀ q ∈ parent, ∀ y ∈ nodesOf nodes, y.id = id → q ∉ ids [y]) :
    siblings (removeExpression nodes id) parent = (siblings nodes parent).filter (· ≠ id) := by
  cases parent with
  | none => exact remove_ids nodes id
  | some q =>
      rw [siblings, siblings, childrenOf, childrenOf, find_remove (h q rfl), Option.map_map]
      cases findExpression nodes q with
      | none => rfl
      | some node =>
          simp only [Option.map_some, Option.getD_some, Function.comp_apply]
          rw [removed_children, remove_ids]

end Remove

section Insert

variable {p : String} {index : Nat} {parent : Option String}

/-- What an insertion makes of the parent. -/
def receive (index : Nat) (x node : BuilderToken O) : BuilderToken O := node.withChildren (spliced node.children index x)

theorem insert_some (nodes : List (BuilderToken O)) (p : String) (index : Nat) (x : BuilderToken O) :
    insertExpression nodes (some p) index x = updateExpression nodes p (receive index x) := by
  rw [insertExpression]
  congr 1
  funext node
  cases node <;> rfl

theorem update_absent {update : BuilderToken O → BuilderToken O} (h : p ∉ ids nodes) : updateExpression nodes p update = nodes := by
  induction nodes using forest_induction with
  | nil => rfl
  | cons node rest hnode hrest =>
      rw [ids_cons, List.mem_cons, List.mem_append, not_or, not_or] at h
      obtain ⟨hid, hbelow, hafter⟩ := h
      rw [updateExpression_cons, if_neg (Ne.symm hid), hnode hbelow, hrest hafter, withChildren_children]

theorem bares_append (nodes others : List (BuilderToken O)) : bares (nodes ++ others) = bares nodes ++ bares others := by
  rw [bares, nodesOf_append, List.map_append]
  rfl

theorem bares_spliced (nodes : List (BuilderToken O)) (index : Nat) (x : BuilderToken O) :
    (bares (spliced nodes index x)).Perm (bares [x] ++ bares nodes) := by
  have hsplit : bares nodes = bares (nodes.take index) ++ bares (nodes.drop index) := by
    rw [← bares_append, List.take_append_drop]
  rw [spliced, ← List.singleton_append, bares_append, bares_append, hsplit]
  rw [← List.append_assoc, ← List.append_assoc]
  exact List.perm_append_comm.append_right _

/-- An insertion adds the inserted nodes and no others. -/
theorem bares_update (hids : (ids nodes).Nodup) (h : findExpression nodes p = some node) (hcombines : node.combines = true) :
    (bares (updateExpression nodes p (receive index x))).Perm (bares [x] ++ bares nodes) := by
  induction nodes using forest_induction with
  | nil => cases h
  | cons first rest hfirst hrest =>
      rw [ids_cons, List.nodup_cons, List.nodup_append', List.mem_append, not_or] at hids
      obtain ⟨⟨hbelow, hafter⟩, hchildren, hothers, hapart⟩ := hids
      rw [findExpression_cons] at h
      rw [updateExpression_cons, bares_cons first rest]
      by_cases hid : first.id = p
      · rw [if_pos hid] at h
        cases h
        have hcons : bares (receive index x node :: rest) = bare node :: (bares (spliced node.children index x) ++ bares rest) := by
          rw [bares_cons, receive, children_withChildren hcombines, bare, withChildren_withChildren, bare]
        rw [if_pos hid, update_absent (hid ▸ hafter), hcons]
        refine (((bares_spliced _ _ _).append_right _).cons _).trans ?_
        rw [List.append_assoc]
        exact List.perm_middle.symm
      · rw [if_neg hid] at h
        have hcons : bares (first.withChildren (updateExpression first.children p (receive index x)) ::
            updateExpression rest p (receive index x)) = bare first ::
              (bares (updateExpression first.children p (receive index x)) ++ bares (updateExpression rest p (receive index x))) := by
          rw [bares_cons, updated_children, bare, withChildren_withChildren, bare]
        rw [if_neg hid, hcons]
        cases hfind : findExpression first.children p with
        | none =>
            rw [hfind, Option.none_or] at h
            rw [update_absent (findExpression_none.mp hfind)]
            refine (((hrest hothers h).append_left _).cons _).trans ?_
            refine .trans ?_ List.perm_middle.symm
            rw [← List.append_assoc, ← List.append_assoc]
            exact (List.perm_append_comm.append_right _).cons _
        | some found =>
            rw [hfind, Option.some_or] at h
            cases h
            have hfound : p ∈ ids first.children := by
              by_contra hnot
              rw [findExpression_none.mpr hnot] at hfind
              cases hfind
            rw [update_absent fun hin => hapart hfound hin]
            refine (((hfirst hchildren hfind).append_right _).cons _).trans ?_
            rw [List.append_assoc]
            exact List.perm_middle.symm

theorem findExpression_append (nodes others : List (BuilderToken O)) (q : String) :
    findExpression (nodes ++ others) q = (findExpression nodes q).or (findExpression others q) := by
  rw [findExpression_eq, findExpression_eq, findExpression_eq, nodesOf_append, List.find?_append]

theorem find_spliced (h : q ∉ ids [x]) (nodes : List (BuilderToken O)) (index : Nat) :
    findExpression (spliced nodes index x) q = findExpression nodes q := by
  rw [spliced, ← List.singleton_append, findExpression_append, findExpression_append, findExpression_none.mpr h, Option.none_or,
    ← findExpression_append, List.take_append_drop]

theorem find_receive (h : q ∉ ids [x]) (index : Nat) (node : BuilderToken O) :
    findExpression (receive index x node).children q = findExpression node.children q := by
  cases node with
  | combination => exact find_spliced h _ index
  | column | literal | sql => rfl

/-- What is found after an insertion, where it was not inserted. -/
theorem find_update (hids : (ids nodes).Nodup) (h : q ∉ ids [x]) :
    findExpression (updateExpression nodes p (receive index x)) q = (findExpression nodes q).map fun node =>
      if node.id = p then receive index x node else node.withChildren (updateExpression node.children p (receive index x)) := by
  induction nodes using forest_induction with
  | nil => rfl
  | cons node rest hnode hrest =>
      rw [ids_cons, List.nodup_cons, List.nodup_append', List.mem_append, not_or] at hids
      obtain ⟨⟨hbelow, hafter⟩, hchildren, hothers, hapart⟩ := hids
      rw [updateExpression_cons, findExpression_cons, findExpression_cons, hrest hothers]
      by_cases hid : node.id = p
      · rw [if_pos hid, find_receive h, receive, withChildren_id]
        by_cases hq : node.id = q
        · rw [if_pos hq, if_pos hq, Option.map_some, if_pos hid, receive]
        · rw [if_neg hq, if_neg hq, Option.map_or]
          congr 1
          -- Below the parent nothing else changes.
          rw [← hnode hchildren, update_absent (hid ▸ hbelow)]
      · rw [if_neg hid, updated_children, withChildren_id, hnode hchildren]
        by_cases hq : node.id = q
        · rw [if_pos hq, if_pos hq, Option.map_some, if_neg hid]
        · rw [if_neg hq, if_neg hq, Option.map_or]

theorem update_ids (nodes : List (BuilderToken O)) (p : String) (index : Nat) (x : BuilderToken O) :
    (updateExpression nodes p (receive index x)).map BuilderToken.id = nodes.map BuilderToken.id := by
  induction nodes with
  | nil => rfl
  | cons node rest ih =>
      rw [updateExpression_cons, List.map_cons, List.map_cons, ih]
      congr 1
      split
      · exact withChildren_id _ _
      · exact withChildren_id _ _

theorem map_spliced {α β : Type} (f : α → β) (items : List α) (index : Nat) (item : α) :
    (spliced items index item).map f = spliced (items.map f) index (f item) := by
  simp only [spliced, List.map_append, List.map_cons, List.map_take, List.map_drop]

/-- The siblings after an insertion. -/
theorem siblings_insert (hids : (ids nodes).Nodup)
    (hparent : ∀ p ∈ parent, ∃ node, findExpression nodes p = some node ∧ node.combines = true)
    {at' : Option String} (h : ∀ q ∈ at', q ∉ ids [x]) :
    siblings (insertExpression nodes parent index x) at' =
      if at' = parent then spliced (siblings nodes at') index x.id else siblings nodes at' := by
  cases parent with
  | none =>
      cases at' with
      | none => rw [if_pos rfl, siblings, siblings, childrenOf, childrenOf, insertExpression, map_spliced]
      | some q =>
          rw [if_neg (by simp), siblings, siblings, childrenOf, childrenOf, insertExpression, find_spliced (h q rfl)]
  | some p =>
      rw [insert_some]
      cases at' with
      | none =>
          rw [if_neg (by simp), siblings, siblings, childrenOf, childrenOf, update_ids]
      | some q =>
          rw [siblings, siblings, childrenOf, childrenOf, find_update hids (h q rfl), Option.map_map]
          cases hfind : findExpression nodes q with
          | none =>
              rw [if_neg]
              · rfl
              · rintro heq
                obtain ⟨node, hnode, -⟩ := hparent p rfl
                rw [← Option.some_inj.mp heq, hfind] at hnode
                cases hnode
          | some node =>
              obtain ⟨-, hid⟩ := findExpression_spec hfind
              simp only [Option.map_some, Option.getD_some, Function.comp_apply, Option.some_inj]
              by_cases hq : q = p
              · obtain ⟨found, hfound, hcombines⟩ := hparent p rfl
                cases (hq ▸ hfind).symm.trans hfound
                rw [if_pos hq, if_pos (hid.trans hq), receive, children_withChildren hcombines, map_spliced]
              · rw [if_neg hq, if_neg fun heq => hq (hid.symm.trans heq), updated_children, update_ids]

/-- What is inserted is there. -/
theorem insert_mem (hids : (ids nodes).Nodup)
    (hparent : ∀ p ∈ parent, p ∉ ids [x] ∧ ∃ node, findExpression nodes p = some node ∧ node.combines = true) :
    x ∈ nodesOf (insertExpression nodes parent index x) := by
  cases parent with
  | none => exact mem_nodesOf_self (List.mem_append_right _ List.mem_cons_self)
  | some p =>
      obtain ⟨hout, node, hfind, hcombines⟩ := hparent p rfl
      obtain ⟨-, hid⟩ := findExpression_spec hfind
      have hupdated := @find_update O nodes x p p index hids hout
      rw [hfind, Option.map_some, if_pos hid] at hupdated
      obtain ⟨hmem, -⟩ := findExpression_spec hupdated
      rw [insert_some]
      apply nodesOf_children hmem
      rw [receive, children_withChildren hcombines]
      exact mem_nodesOf_self (List.mem_append_right _ List.mem_cons_self)

end Insert

section Location

variable {p : String} {parent : Option String} {index k : Nat}

theorem locationFrom_absent (h : id ∉ ids nodes) : locationFrom nodes id parent k = none := by
  induction nodes using forest_induction generalizing parent k with
  | nil => rfl
  | cons node rest hnode hrest =>
      rw [ids_cons, List.mem_cons, List.mem_append, not_or, not_or] at h
      obtain ⟨hid, hbelow, hafter⟩ := h
      rw [locationFrom_cons, if_neg (Ne.symm hid), hnode hbelow, hrest hafter, Option.none_or]

/-- A root is located among the roots. -/
theorem locationFrom_root (hids : (ids nodes).Nodup) (h : nodes[index]? = some x) :
    locationFrom nodes x.id parent k = some (parent, k + index) := by
  induction nodes generalizing k index with
  | nil => cases h
  | cons node rest ih =>
      rw [ids_cons, List.nodup_cons, List.nodup_append', List.mem_append, not_or] at hids
      obtain ⟨⟨hbelow, hafter⟩, hchildren, hothers, hapart⟩ := hids
      rw [locationFrom_cons]
      cases index with
      | zero =>
          cases h
          rw [if_pos rfl, Nat.add_zero]
      | succ index =>
          have hrest : rest[index]? = some x := h
          have hx : x.id ∈ ids rest := List.mem_map_of_mem (mem_nodesOf_self (List.mem_of_getElem? hrest))
          rw [if_neg fun heq : node.id = x.id => hafter (heq ▸ hx), locationFrom_absent fun hin => hapart hin hx, Option.none_or,
            ih hothers hrest, Nat.add_right_comm]
          rfl

/-- Another node is located among the children of its parent. -/
theorem locationFrom_child (hids : (ids nodes).Nodup) (hnode : node ∈ nodesOf nodes) (h : node.children[index]? = some x) :
    locationFrom nodes x.id parent k = some (some node.id, index) := by
  have hx : x ∈ nodesOf node.children := mem_nodesOf_self (List.mem_of_getElem? h)
  induction nodes using forest_induction generalizing parent k with
  | nil => cases hnode
  | cons first rest hfirst hrest =>
      rw [ids_cons, List.nodup_cons, List.nodup_append', List.mem_append, not_or] at hids
      obtain ⟨⟨hbelow, hafter⟩, hchildren, hothers, hapart⟩ := hids
      rw [nodesOf_cons, List.mem_cons, List.mem_append] at hnode
      rw [locationFrom_cons]
      rcases hnode with rfl | hnode | hnode
      · rw [if_neg fun heq : node.id = x.id => hbelow (heq ▸ List.mem_map_of_mem hx), locationFrom_root hchildren h, Option.some_or, Nat.zero_add]
      · have hin : x.id ∈ ids first.children := List.mem_map_of_mem (nodesOf_children hnode hx)
        rw [if_neg fun heq : first.id = x.id => hbelow (heq ▸ hin), hfirst hchildren hnode, Option.some_or]
      · have hin : x.id ∈ ids rest := List.mem_map_of_mem (nodesOf_children hnode hx)
        rw [if_neg fun heq : first.id = x.id => hafter (heq ▸ hin), locationFrom_absent fun hbelow => hapart hbelow hin, Option.none_or,
          hrest hothers hnode]

/-- A node of a forest is a root or a child of another. -/
theorem root_or_child (h : x ∈ nodesOf nodes) : (∃ i : Nat, nodes[i]? = some x) ∨
    ∃ node ∈ nodesOf nodes, ∃ i : Nat, node.children[i]? = some x := by
  induction nodes using forest_induction with
  | nil => cases h
  | cons first rest hfirst hrest =>
      rw [nodesOf_cons] at h ⊢
      rcases List.mem_cons.mp h with rfl | h
      · exact .inl ⟨0, rfl⟩
      · rcases List.mem_append.mp h with h | h
        · rcases hfirst h with ⟨i, hi⟩ | ⟨node, hnode, hi⟩
          · exact .inr ⟨first, List.mem_cons_self, i, hi⟩
          · exact .inr ⟨node, List.mem_cons_of_mem _ (List.mem_append_left _ hnode), hi⟩
        · rcases hrest h with ⟨i, hi⟩ | ⟨node, hnode, hi⟩
          · exact .inl ⟨i + 1, hi⟩
          · exact .inr ⟨node, List.mem_cons_of_mem _ (List.mem_append_right _ hnode), hi⟩

theorem location_of_sibling {i : Nat} (hids : (ids nodes).Nodup) (h : (siblings nodes parent)[i]? = some id) :
    expressionLocation nodes id = some (parent, i) := by
  rw [siblings, List.getElem?_map, Option.map_eq_some_iff] at h
  obtain ⟨x, hx, rfl⟩ := h
  cases parent with
  | none => exact (locationFrom_root hids hx).trans (by rw [Nat.zero_add])
  | some q =>
      rw [childrenOf] at hx
      cases hfind : findExpression nodes q with
      | none =>
          rw [hfind] at hx
          cases hx
      | some node =>
          rw [hfind, Option.map_some, Option.getD_some] at hx
          obtain ⟨hnode, rfl⟩ := findExpression_spec hfind
          exact locationFrom_child hids hnode hx

/-- Where a node is located. -/
theorem location_spec (hids : (ids nodes).Nodup) (h : findExpression nodes id = some x) :
    ∃ from', expressionLocation nodes id = some from' ∧ (siblings nodes from'.1)[from'.2]? = some id := by
  obtain ⟨hx, rfl⟩ := findExpression_spec h
  obtain ⟨parent, i, hi⟩ : ∃ (parent : Option String) (i : Nat), (siblings nodes parent)[i]? = some x.id := by
    rcases root_or_child hx with ⟨i, hi⟩ | ⟨node, hnode, i, hi⟩
    · exact ⟨none, i, by rw [siblings, childrenOf, List.getElem?_map, hi, Option.map_some]⟩
    · refine ⟨some node.id, i, ?_⟩
      rw [siblings, childrenOf, findExpression_mem hids hnode, Option.map_some, Option.getD_some, List.getElem?_map, hi,
        Option.map_some]
  exact ⟨(parent, i), location_of_sibling hids hi, hi⟩

/-- An id has one parent, and one place below it. -/
theorem sibling_unique {other : Option String} {i j : Nat} (hids : (ids nodes).Nodup)
    (h : (siblings nodes parent)[i]? = some id) (h' : (siblings nodes other)[j]? = some id) : parent = other ∧ i = j := by
  have hsame := (location_of_sibling hids h).symm.trans (location_of_sibling hids h')
  exact Prod.mk.inj (Option.some_inj.mp hsame)

end Location

section Gaps

variable {items : List String} {i index : Nat}

theorem filter_ne_self (h : id ∉ items) : items.filter (· ≠ id) = items :=
  List.filter_eq_self.mpr fun a ha => decide_eq_true fun heq : a = id => h (heq ▸ ha)

theorem split_at (hnodup : items.Nodup) (h : items[i]? = some id) : ∃ before after, items = before ++ id :: after ∧
    before.length = i ∧ id ∉ before ∧ id ∉ after ∧ items.filter (· ≠ id) = before ++ after := by
  obtain ⟨hlt, hget⟩ := List.getElem?_eq_some_iff.mp h
  have hsplit : items = items.take i ++ id :: items.drop (i + 1) := by
    rw [← hget, ← List.drop_eq_getElem_cons hlt, List.take_append_drop]
  rw [hsplit, List.nodup_append', List.nodup_cons] at hnodup
  obtain ⟨-, ⟨hafter, -⟩, hapart⟩ := hnodup
  have hbefore : id ∉ items.take i := fun hin => hapart hin List.mem_cons_self
  refine ⟨items.take i, items.drop (i + 1), hsplit, by rw [List.length_take]; omega, hbefore, hafter, ?_⟩
  conv_lhs => rw [hsplit]
  rw [List.filter_append, List.filter_cons_of_neg (by simp), filter_ne_self hbefore, filter_ne_self hafter]

/-- A gap among siblings is the same gap without one of them, but for its index. -/
theorem spliced_filter (hnodup : items.Nodup) (h : items[i]? = some id) (index : Nat) :
    spliced (items.filter (· ≠ id)) (if i < index then index - 1 else index) id =
      (items.take index).filter (· ≠ id) ++ id :: (items.drop index).filter (· ≠ id) := by
  obtain ⟨before, after, rfl, hlength, hbefore, hafter, hall⟩ := split_at hnodup h
  rw [hall, spliced]
  by_cases hi : i < index
  · obtain ⟨k, rfl⟩ : ∃ k, index = before.length + (k + 1) := ⟨index - i - 1, by omega⟩
    have htake : (after.take k).filter (· ≠ id) = after.take k := filter_ne_self fun hin => hafter (List.mem_of_mem_take hin)
    have hdrop : (after.drop k).filter (· ≠ id) = after.drop k := filter_ne_self fun hin => hafter (List.mem_of_mem_drop hin)
    have hslot : before.length + (k + 1) - 1 = before.length + k := rfl
    rw [if_pos hi, hslot, List.take_length_add_append, List.drop_length_add_append, List.take_length_add_append,
      List.drop_length_add_append, List.take_succ_cons, List.drop_succ_cons, List.filter_append, filter_ne_self hbefore,
      List.filter_cons_of_neg (by simp), htake, hdrop]
  · have hle : index ≤ before.length := by omega
    have htake : (before.take index).filter (· ≠ id) = before.take index :=
      filter_ne_self fun hin => hbefore (List.mem_of_mem_take hin)
    have hdrop : (before.drop index).filter (· ≠ id) = before.drop index :=
      filter_ne_self fun hin => hbefore (List.mem_of_mem_drop hin)
    rw [if_neg hi, List.take_append_of_le_length hle, List.drop_append_of_le_length hle, List.take_append_of_le_length hle,
      List.drop_append_of_le_length hle, List.filter_append, List.filter_cons_of_neg (by simp), htake, hdrop,
      filter_ne_self hafter]

end Gaps

section Move

variable {parent : Option String} {index : Nat} {moved : List (BuilderToken O)}

/-- The moves that do nothing: of nothing, to what is no combination, and into what is moved. -/
def Refused (nodes : List (BuilderToken O)) (id : String) (parent : Option String) : Prop :=
  id ∉ ids nodes ∨ (∃ p ∈ parent, ∀ node, findExpression nodes p = some node → node.combines = false) ∨
    ∃ p ∈ parent, ∃ x, findExpression nodes id = some x ∧ p ∈ ids [x]

/-- A forest and what it is after a move: the same nodes under the same parents in the same order, but for the
moved one. -/
structure Moved (nodes moved : List (BuilderToken O)) (id : String) (parent : Option String) (index : Nat) : Prop where
  once : (ids moved).Nodup
  same : (bares moved).Perm (bares nodes)
  subtree : findExpression moved id = findExpression nodes id
  others : ∀ q, q ≠ parent → siblings moved q = (siblings nodes q).filter (· ≠ id)
  placed : siblings moved parent = ((siblings nodes parent).take index).filter (· ≠ id) ++
    id :: ((siblings nodes parent).drop index).filter (· ≠ id)

theorem move_refused (h : Refused nodes id parent) : moveExpression nodes id parent index = nodes := by
  rw [moveExpression]
  rcases h with hid | ⟨p, rfl, hnode⟩ | ⟨p, rfl, x, hx, hp⟩
  · rw [findExpression_none.mpr hid]
    simp
  · rw [if_pos]
    cases hfind : findExpression nodes p with
    | none => simp [hfind]
    | some node => simp [hfind, hnode node hfind]
  · have hinside : (some p).any (fun p => (findExpression [x] p).isSome) = true := by
      rw [Option.any_some, Option.isSome_iff_ne_none, ne_eq, findExpression_none, not_not]
      exact hp
    rw [hx]
    cases expressionLocation nodes id with
    | none => simp
    | some location => simp [hinside]

theorem move_eq (hids : (ids nodes).Nodup) (h : ¬Refused nodes id parent) :
    ∃ x location, findExpression nodes id = some x ∧ expressionLocation nodes id = some location ∧
      (siblings nodes location.1)[location.2]? = some id ∧
      (∀ p ∈ parent, p ∉ ids [x] ∧ ∃ node, findExpression nodes p = some node ∧ node.combines = true) ∧
      moveExpression nodes id parent index = insertExpression (removeExpression nodes id) parent
        (if location.1 = parent ∧ location.2 < index then index - 1 else index) x := by
  rw [Refused] at h
  push Not at h
  obtain ⟨hid, hparent, houtside⟩ := h
  cases hfind : findExpression nodes id with
  | none => exact absurd hid (findExpression_none.mp hfind)
  | some x =>
      obtain ⟨location, hlocation, hsibling⟩ := location_spec hids hfind
      have hgood : ∀ p ∈ parent, p ∉ ids [x] ∧ ∃ node, findExpression nodes p = some node ∧ node.combines = true := by
        intro p hp
        obtain ⟨node, hnode, hcombines⟩ := hparent p hp
        exact ⟨houtside p hp x hfind, node, hnode, by simpa using hcombines⟩
      refine ⟨x, location, rfl, hlocation, hsibling, hgood, ?_⟩
      have hcombines : (parent.any fun p => !(findExpression nodes p).any combines) = false := by
        cases parent with
        | none => rfl
        | some p =>
            obtain ⟨-, node, hnode, hcombines⟩ := hgood p rfl
            simp [hnode, hcombines]
      have hinside : (parent.any fun p => (findExpression [x] p).isSome) = false := by
        cases parent with
        | none => rfl
        | some p =>
            rw [Option.any_some, findExpression_none.mpr (hgood p rfl).1]
            rfl
      simp only [moveExpression, hcombines, hfind, hlocation, hinside]
      rfl

theorem ids_perm {others : List (BuilderToken O)} (h : (bares nodes).Perm (bares others)) : (ids nodes).Perm (ids others) := by
  rw [ids_eq_bares, ids_eq_bares]
  exact h.map _

theorem siblings_nodup (hids : (ids nodes).Nodup) (q : Option String) : (siblings nodes q).Nodup := by
  rw [List.nodup_iff_getElem?_ne_getElem?]
  intro i j hij hj heq
  obtain ⟨id, hid⟩ : ∃ id, (siblings nodes q)[j]? = some id := ⟨_, List.getElem?_eq_getElem hj⟩
  exact Nat.ne_of_lt hij (sibling_unique hids (heq.trans hid) hid).2

/-- A node is not below itself. -/
theorem below_ne (hids : (ids [x]).Nodup) (h : node ∈ nodesOf [x]) : x.id ∉ siblings [x] (some node.id) := by
  have hself : x.id ∉ ids x.children := by
    rw [ids_cons, List.nodup_cons, List.mem_append, not_or] at hids
    exact hids.1.1
  rw [siblings, childrenOf, findExpression_mem hids h, Option.map_some, Option.getD_some, List.mem_map]
  rintro ⟨child, hchild, heq⟩
  have hbelow : child ∈ nodesOf x.children := by
    rw [nodesOf_cons, List.mem_cons, List.mem_append] at h
    rcases h with rfl | h | h
    · exact mem_nodesOf_self hchild
    · exact nodesOf_children h (mem_nodesOf_self hchild)
    · cases h
  exact hself (heq ▸ List.mem_map_of_mem hbelow)

/-- The nodes below a node of a forest have in the forest the children they have below it. -/
theorem siblings_below (hids : (ids nodes).Nodup) (hx : x ∈ nodesOf nodes) (hnode : node ∈ nodesOf [x]) :
    siblings nodes (some node.id) = node.children.map BuilderToken.id := by
  have hmem : node ∈ nodesOf nodes := by
    rw [nodesOf_cons, List.mem_cons, List.mem_append] at hnode
    rcases hnode with rfl | hnode | hnode
    · exact hx
    · exact nodesOf_children hx hnode
    · cases hnode
  rw [siblings, childrenOf, findExpression_mem hids hmem, Option.map_some, Option.getD_some]

theorem move_moved (hids : (ids nodes).Nodup) (h : ¬Refused nodes id parent) :
    Moved nodes (moveExpression nodes id parent index) id parent index := by
  obtain ⟨x, location, hfind, -, hsibling, hparent, hmove⟩ := @move_eq O nodes id parent index hids h
  obtain ⟨hx, rfl⟩ := findExpression_spec hfind
  have hremoved := bares_remove hids hfind
  have hnodup : (ids [x] ++ ids (removeExpression nodes x.id)).Nodup := by
    rw [ids_eq_bares, ids_eq_bares, ← List.map_append, ← (hremoved.map BuilderToken.id).nodup_iff, ← ids_eq_bares]
    exact hids
  obtain ⟨hown, hkept, -⟩ := List.nodup_append'.mp hnodup
  have hout : ∀ q, q ∉ ids [x] → ∀ y ∈ nodesOf nodes, y.id = x.id → q ∉ ids [y] := by
    intro q hq y hy hid
    rwa [List.inj_on_of_nodup_map hids hy hx hid]
  have hstays : ∀ p ∈ parent, p ∉ ids [x] ∧
      ∃ node, findExpression (removeExpression nodes x.id) p = some node ∧ node.combines = true := by
    intro p hp
    obtain ⟨hpout, node, hnode, hcombines⟩ := hparent p hp
    refine ⟨hpout, node.withChildren (removeExpression node.children x.id), ?_, ?_⟩
    · rw [find_remove (hout p hpout), hnode, Option.map_some]
    · rw [withChildren_combines, hcombines]
  have hinserted : ∀ slot, (bares (insertExpression (removeExpression nodes x.id) parent slot x)).Perm (bares nodes) := by
    intro slot
    refine .trans ?_ hremoved.symm
    cases parent with
    | none => exact bares_spliced _ _ _
    | some p =>
        obtain ⟨-, node, hnode, hcombines⟩ := hstays p rfl
        rw [insert_some]
        exact bares_update hkept hnode hcombines
  rw [hmove]
  generalize hslot : (if location.1 = parent ∧ location.2 < index then index - 1 else index) = slot
  have honce := (ids_perm (hinserted slot)).nodup_iff.mpr hids
  have hmem := @insert_mem O (removeExpression nodes x.id) x slot parent hkept hstays
  have hsiblings : ∀ q : Option String, (∀ s ∈ q, s ∉ ids [x]) →
      siblings (insertExpression (removeExpression nodes x.id) parent slot x) q =
        if q = parent then spliced ((siblings nodes q).filter (· ≠ x.id)) slot x.id
        else (siblings nodes q).filter (· ≠ x.id) := by
    intro q hq
    rw [siblings_insert hkept (fun p hp => (hstays p hp).2) hq, siblings_remove fun s hs => hout s (hq s hs)]
  refine ⟨honce, hinserted slot, (findExpression_mem honce hmem).trans hfind.symm, fun q hq => ?_, ?_⟩
  · by_cases hbelow : ∀ s ∈ q, s ∉ ids [x]
    · rw [hsiblings q hbelow, if_neg hq]
    · -- Below what is moved nothing changes.
      push Not at hbelow
      obtain ⟨s, rfl, hs⟩ := hbelow
      obtain ⟨node, hnode, rfl⟩ := List.mem_map.mp hs
      have hleaves := below_ne hown hnode
      rw [siblings_below hown (mem_nodesOf_self List.mem_cons_self) hnode] at hleaves
      rw [siblings_below honce hmem hnode, siblings_below hids hx hnode, filter_ne_self hleaves]
  · rw [hsiblings parent fun s hs => (hparent s hs).1, if_pos rfl, ← hslot]
    by_cases hsame : location.1 = parent
    · simp only [hsame, true_and]
      exact spliced_filter (siblings_nodup hids parent) (hsame ▸ hsibling) index
    · have habsent : x.id ∉ siblings nodes parent := by
        intro hin
        obtain ⟨i, hi⟩ := List.getElem?_of_mem hin
        exact hsame (sibling_unique hids hsibling hi).1
      rw [if_neg fun h => hsame h.1, filter_ne_self habsent, filter_ne_self fun hin => habsent (List.mem_of_mem_take hin),
        filter_ne_self fun hin => habsent (List.mem_of_mem_drop hin)]
      rfl

end Move

section Back

variable {others xs ys : List (BuilderToken O)} {parent : Option String} {index : Nat}

theorem forest_ext_below (hids : (ids nodes).Nodup) (hids' : (ids others).Nodup) (hbares : ∀ b ∈ bares nodes, b ∈ bares others)
    (hsiblings : ∀ q, siblings nodes q = siblings others q) (hxs : ∀ x ∈ xs, x ∈ nodesOf nodes)
    (hys : ∀ y ∈ ys, y ∈ nodesOf others) (h : xs.map BuilderToken.id = ys.map BuilderToken.id) : xs = ys := by
  induction xs using forest_induction generalizing ys with
  | nil => exact (List.map_eq_nil_iff.mp h.symm).symm
  | cons x xs hbelow hrest =>
      cases ys with
      | nil => cases h
      | cons y ys =>
          obtain ⟨hid, htail⟩ := List.cons.inj h
          obtain ⟨hx, hxs⟩ := List.forall_mem_cons.mp hxs
          obtain ⟨hy, hys⟩ := List.forall_mem_cons.mp hys
          have hbare : bare x = bare y := by
            obtain ⟨z, hz, heq⟩ := List.mem_map.mp (hbares (bare x) (List.mem_map_of_mem hx))
            have hzid : z.id = y.id := by rw [← bare_id z, heq, bare_id, hid]
            rw [← heq, List.inj_on_of_nodup_map hids' hz hy hzid]
          have hchildren : x.children = y.children := by
            apply hbelow (fun z hz => nodesOf_children hx (mem_nodesOf_self hz)) fun z hz => nodesOf_children hy (mem_nodesOf_self hz)
            have hsame := hsiblings (some x.id)
            rwa [siblings_below hids hx (mem_nodesOf_self List.mem_cons_self), hid,
              siblings_below hids' hy (mem_nodesOf_self List.mem_cons_self)] at hsame
          rw [hrest hxs hys htail, ← withChildren_children x, ← withChildren_children y, hchildren,
            ← withChildren_withChildren x [], ← withChildren_withChildren y []]
          congr 2

/-- A forest is its nodes with the order of the ids below each parent. -/
theorem forest_ext (hids : (ids nodes).Nodup) (hbares : (bares nodes).Perm (bares others))
    (hsiblings : ∀ q, siblings nodes q = siblings others q) : nodes = others :=
  forest_ext_below hids ((ids_perm hbares).nodup_iff.mp hids) (fun _ hb => hbares.mem_iff.mp hb) hsiblings
    (fun _ hx => mem_nodesOf_self hx) (fun _ hy => mem_nodesOf_self hy) (hsiblings none)

theorem Moved.filtered {moved : List (BuilderToken O)} (h : Moved nodes moved id parent index) (q : Option String) :
    (siblings moved q).filter (· ≠ id) = (siblings nodes q).filter (· ≠ id) := by
  by_cases hq : q = parent
  · rw [hq, h.placed, List.filter_append, List.filter_cons_of_neg (by simp), List.filter_filter, List.filter_filter]
    simp only [Bool.and_self]
    rw [← List.filter_append, List.take_append_drop]
  · rw [h.others q hq, List.filter_filter]
    simp only [Bool.and_self]

/-- A moved node can be moved back. -/
theorem Moved.movable {moved : List (BuilderToken O)} {location : Option String × Nat} (h : Moved nodes moved id parent index)
    (hids : (ids nodes).Nodup) (hfind : findExpression nodes id = some x)
    (hsibling : (siblings nodes location.1)[location.2]? = some id) : ¬Refused moved id location.1 := by
  obtain ⟨hx, rfl⟩ := findExpression_spec hfind
  have hmoved := h.subtree.trans hfind
  rintro (hid | ⟨p, hp, hnode⟩ | ⟨p, hp, x', hx', hin⟩)
  · rw [findExpression_none.mpr hid] at hmoved
    cases hmoved
  · rw [hp, siblings, childrenOf] at hsibling
    cases hparent : findExpression nodes p with
    | none =>
        rw [hparent] at hsibling
        cases hsibling
    | some m =>
        rw [hparent, Option.map_some, Option.getD_some] at hsibling
        obtain ⟨hm, hmid⟩ := findExpression_spec hparent
        have hbare : bare m ∈ bares moved := h.same.mem_iff.mpr (List.mem_map_of_mem hm)
        obtain ⟨z, hz, hzm⟩ := List.mem_map.mp hbare
        have hzid : z.id = p := by rw [← bare_id z, hzm, bare_id, hmid]
        have hzcombines : z.combines = m.combines := by
          rw [← withChildren_combines z [], ← withChildren_combines m []]
          exact congrArg combines hzm
        rw [hnode z (hzid ▸ findExpression_mem h.once hz)] at hzcombines
        rw [children_of_not_combines hzcombines.symm] at hsibling
        cases hsibling
  · cases hmoved.symm.trans hx'
    obtain ⟨node, hnode, rfl⟩ := List.mem_map.mp hin
    have hown : (ids [x]).Nodup :=
      ((nodesOf_sublist hx).map BuilderToken.id).nodup hids
    have hleaves := below_ne hown hnode
    rw [siblings_below hown (mem_nodesOf_self List.mem_cons_self) hnode] at hleaves
    rw [hp, siblings_below hids hx hnode] at hsibling
    exact hleaves (List.mem_of_getElem? hsibling)

/-- A move back to the gap that a node has left. -/
theorem move_back {moved : List (BuilderToken O)} {location : Option String × Nat} {gap : Nat}
    (h : Moved nodes moved id parent index) (hids : (ids nodes).Nodup) (hfind : findExpression nodes id = some x)
    (hsibling : (siblings nodes location.1)[location.2]? = some id)
    (hgap : ((siblings moved location.1).take gap).filter (· ≠ id) = (siblings nodes location.1).take location.2) :
    moveExpression moved id location.1 gap = nodes := by
  have hback := @move_moved O moved id location.1 gap h.once (h.movable hids hfind hsibling)
  refine forest_ext hback.once (hback.same.trans h.same) fun q => ?_
  by_cases hq : q = location.1
  · obtain ⟨before, after, hsplit, hlength, hbefore, hafter, hall⟩ := split_at (siblings_nodup hids location.1) hsibling
    have hfiltered := h.filtered location.1
    rw [hall] at hfiltered
    rw [hsplit, ← hlength, List.take_left] at hgap
    have hrest : ((siblings moved location.1).drop gap).filter (· ≠ id) = after := by
      rw [← List.take_append_drop gap (siblings moved location.1), List.filter_append, hgap] at hfiltered
      exact List.append_cancel_left hfiltered
    rw [hq, hback.placed, hgap, hrest, hsplit]
  · have habsent : id ∉ siblings nodes q := by
      intro hin
      obtain ⟨i, hi⟩ := List.getElem?_of_mem hin
      exact hq (sibling_unique hids hi hsibling).1
    rw [hback.others q hq, h.filtered q, filter_ne_self habsent]

/-- The gap that a node has left is there. -/
theorem exists_gap {moved : List (BuilderToken O)} {location : Option String × Nat} (h : Moved nodes moved id parent index)
    (hids : (ids nodes).Nodup) (hsibling : (siblings nodes location.1)[location.2]? = some id) :
    ∃ gap ≤ (siblings moved location.1).length,
      ((siblings moved location.1).take gap).filter (· ≠ id) = (siblings nodes location.1).take location.2 := by
  obtain ⟨before, after, hsplit, hlength, -, -, hall⟩ := split_at (siblings_nodup hids location.1) hsibling
  have hfiltered := h.filtered location.1
  rw [hall] at hfiltered
  obtain ⟨first, last, hmoved, hfirst, -⟩ := List.filter_eq_append_iff.mp hfiltered
  refine ⟨first.length, ?_, ?_⟩
  · rw [hmoved, List.length_append]
    exact Nat.le_add_right _ _
  · rw [hmoved, List.take_left, hfirst, hsplit, ← hlength, List.take_left]

/-- A move of an expression moves it and nothing else, and can be taken back. -/
theorem move_moves_one (nodes : List (BuilderToken O)) (hids : (ids nodes).Nodup) (id : String) (parent : Option String)
    (index : Nat) :
    (Refused nodes id parent → moveExpression nodes id parent index = nodes) ∧
      (¬Refused nodes id parent → Moved nodes (moveExpression nodes id parent index) id parent index ∧
        ∃ location, expressionLocation nodes id = some location ∧ (siblings nodes location.1)[location.2]? = some id ∧
          (∃ gap ≤ (siblings (moveExpression nodes id parent index) location.1).length,
            ((siblings (moveExpression nodes id parent index) location.1).take gap).filter (· ≠ id) =
              (siblings nodes location.1).take location.2) ∧
          ∀ gap, ((siblings (moveExpression nodes id parent index) location.1).take gap).filter (· ≠ id) =
              (siblings nodes location.1).take location.2 →
            moveExpression (moveExpression nodes id parent index) id location.1 gap = nodes) := by
  refine ⟨move_refused, fun h => ?_⟩
  have hmoved := @move_moved O nodes id parent index hids h
  obtain ⟨x, location, hfind, hlocation, hsibling, -⟩ := @move_eq O nodes id parent index hids h
  exact ⟨hmoved, location, hlocation, hsibling, exists_gap hmoved hids hsibling,
    fun gap hgap => move_back hmoved hids hfind hsibling hgap⟩

/-- From the second place of a combination to the root, and back. -/
def bubbles : List (BuilderToken Unit) :=
  [.column "a" [] "text", .combination "b" [] none [.column "c" [] "text", .literal "d" [] .null ""]]

theorem bubble_moves_one : Moved bubbles (moveExpression bubbles "d" none 1) "d" none 1 ∧
    moveExpression (moveExpression bubbles "d" none 1) "d" (some "b") 1 = bubbles := by
  have hfree : ¬Refused bubbles "d" none := by
    rintro (hid | ⟨p, hp, -⟩ | ⟨p, hp, -⟩)
    · exact hid (by decide)
    · cases hp
    · cases hp
  obtain ⟨hmoved, location, hlocation, -, -, hback⟩ := (move_moves_one bubbles (by decide) "d" none 1).2 hfree
  cases hlocation
  exact ⟨hmoved, hback 1 (by decide)⟩

end Back

end Wordflow.Build
