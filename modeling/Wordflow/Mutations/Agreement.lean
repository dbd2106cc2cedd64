import Mathlib.Data.List.Nodup
import Wordflow.Mutations.Names

namespace Wordflow.Mutations

open Library Library.Fallible Library.Identifier Objects Query

variable {V : Type}

/-- What the checks on the requested columns ensure. -/
structure Resolved (source : Source) (items : List Item) : Prop where
  distinct : (items.map fun i => asciiLower i.name).Nodup
  replaced : ∀ i ∈ items, i.replace = true → i.name ∈ source.fields.map Prod.fst
  added : ∀ i ∈ items, i.replace = false → ∀ f ∈ source.fields, asciiLower f.1 ≠ asciiLower i.name

section Items

variable {db : Engine V} {source : Source}

theorem resolveColumn_spec {item : ColumnExpression} {name : String}
    (h : resolveColumn source.fields item = .ok name) :
    (item.replace = true → name ∈ source.fields.map Prod.fst) ∧
      (item.replace = false → ∀ f ∈ source.fields, asciiLower f.1 ≠ asciiLower name) := by
  simp only [resolveColumn] at h
  split at h
  · rename_i hreplace
    split at h
    · rename_i f hfind
      cases h
      exact ⟨fun _ => List.mem_map_of_mem (List.mem_of_find?_eq_some hfind), fun hadd => by simp [hreplace] at hadd⟩
    · cases h
  · rename_i hreplace
    obtain ⟨-, h⟩ := guard_eq_ok.mp h
    obtain ⟨hfree, h⟩ := guard_eq_ok.mp h
    cases h
    refine ⟨fun hrep => absurd hrep hreplace, fun _ f hf heq => hfree ?_⟩
    exact List.any_eq_true.mpr ⟨f, hf, eqIgnoreAsciiCase_iff.mpr heq⟩

theorem resolveItems_spec {resolved items : List Item} {requested : List ColumnExpression}
    (hr : Resolved source resolved) (h : resolveItems db source.fields resolved requested = .ok items) :
    Resolved source items := by
  induction requested generalizing resolved with
  | nil =>
      cases h
      exact hr
  | cons item rest ih =>
      obtain ⟨name, hname, h⟩ := bind_eq_ok.mp h
      obtain ⟨hfree, h⟩ := guard_eq_ok.mp h
      obtain ⟨e, -, h⟩ := bind_eq_ok.mp h
      obtain ⟨hreplaced, hadded⟩ := resolveColumn_spec hname
      refine ih ⟨?_, ?_, ?_⟩ h
      · rw [List.map_append, List.nodup_append]
        refine ⟨hr.distinct, List.nodup_singleton _, ?_⟩
        rintro a ha b hb rfl
        obtain ⟨r, hr', rfl⟩ := List.mem_map.mp ha
        refine hfree (List.any_eq_true.mpr ⟨r, hr', eqIgnoreAsciiCase_iff.mpr ?_⟩)
        simpa using hb
      · exact List.forall_mem_append.mpr ⟨hr.replaced, List.forall_mem_singleton.mpr hreplaced⟩
      · exact List.forall_mem_append.mpr ⟨hr.added, List.forall_mem_singleton.mpr hadded⟩

theorem prepare_spec {requested : List ColumnExpression} {items : List Item} {types : Cells String}
    (h : prepare db source requested = .ok (items, types)) :
    Resolved source items ∧ describe db source items = some types := by
  obtain ⟨-, h⟩ := guard_eq_ok.mp h
  obtain ⟨found, hfound, h⟩ := bind_eq_ok.mp h
  split at h
  · rename_i described hdescribed
    cases h
    exact ⟨resolveItems_spec ⟨by simp, by simp, by simp⟩ hfound, hdescribed⟩
  · cases h

theorem tableColumns_eq (items : List Item) (types : Cells String) : tableColumns source items types =
    source.fields ++ (additions items).map fun i => (i.name, (value types i.name).getD "") := by
  have hfold : ∀ (is : List Item) (columns : List (String × String)),
      is.foldl (fun columns i => columns ++ [(i.name, (value types i.name).getD "")]) columns =
        columns ++ is.map fun i => (i.name, (value types i.name).getD "") := by
    intro is
    induction is with
    | nil => simp
    | cons i is ih => simp [ih]
  exact hfold _ _

theorem find_congr {α : Type*} {p q : α → Bool} {items : List α} (h : ∀ a ∈ items, p a = q a) :
    items.find? p = items.find? q := by
  induction items with
  | nil => rfl
  | cons a items ih =>
      rw [List.find?_cons, List.find?_cons, h a List.mem_cons_self, ih fun b hb => h b (List.mem_cons_of_mem _ hb)]

theorem Resolved.find_self {items : List Item} (h : Resolved source items) {i : Item} (hi : i ∈ items) :
    items.find? (fun j => j.name = i.name) = some i := by
  cases hfind : items.find? (fun j => j.name = i.name) with
  | none => simpa using List.find?_eq_none.mp hfind i hi
  | some j =>
      have hname : j.name = i.name := by simpa using List.find?_some hfind
      rw [List.inj_on_of_nodup_map h.distinct (List.mem_of_find?_eq_some hfind) hi (by rw [hname])]

/-- Both paths make the same columns in the same order. -/
theorem outputs_eq {items : List Item} (types : Cells String) (h : Resolved source items) :
    tableOutputs (tableColumns source items types) items = viewOutputs source items := by
  rw [tableColumns_eq, tableOutputs, viewOutputs, List.map_append, List.map_map]
  congr 1
  · apply List.map_congr_left
    intro f hf
    have hfind : items.find? (fun i => i.name = f.1) = items.find? (fun i => i.replace && i.name = f.1) := by
      apply find_congr
      intro i hi
      cases hreplace : i.replace with
      | true => simp
      | false =>
          have hne : i.name ≠ f.1 := fun heq => h.added i hi hreplace f hf (by rw [heq])
          simp [hne]
    rw [hfind]
  · apply List.map_congr_left
    intro i hi
    simp [h.find_self (List.mem_of_mem_filter hi)]

end Items

section Plan

variable {db : Engine V} {source : Source} {items : List Item}

theorem value_append (a b : Cells V) (name : String) : value (a ++ b) name = (value a name).or (value b name) := by
  simp only [value, List.find?_append]
  cases a.find? fun c => c.1 = name <;> simp

theorem value_of_mem {row : Cells V} {name : String} (h : name ∈ row.map Prod.fst) : ∃ v, value row name = some v := by
  obtain ⟨c, hc, rfl⟩ := List.mem_map.mp h
  rw [← Option.isSome_iff_exists, value, Option.isSome_map, List.find?_isSome]
  exact ⟨c, hc, by simp⟩

theorem mem_of_value {row : Cells V} {name : String} {v : V} (h : value row name = some v) : (name, v) ∈ row := by
  obtain ⟨c, hfind, rfl⟩ := Option.map_eq_some_iff.mp h
  have hname : c.1 = name := by simpa using List.find?_some hfind
  exact hname ▸ List.mem_of_find?_eq_some hfind

/-- A column of a bound plan: copied, or a requested one whose expression reads
the original columns. -/
inductive Planned (source : Source) (items : List Item) : Output × Reading → Prop
  | copied (name : String) (h : name ∈ source.fields.map Prod.fst) :
      Planned source items (⟨name, none⟩, .ref (.column name))
  | computed (i : Item) (b : Reading) (hi : i ∈ items) (hb : i.expression.bind (columnRef source.scope) = some b) :
      Planned source items (⟨i.name, some i.expression⟩, b)

theorem mem_viewOutputs {o : Output} (h : o ∈ viewOutputs source items) :
    (o.expression = none ∧ o.name ∈ source.fields.map Prod.fst) ∨
      ∃ i ∈ items, o = ⟨i.name, some i.expression⟩ := by
  rcases List.mem_append.mp h with h | h
  · obtain ⟨f, hf, rfl⟩ := List.mem_map.mp h
    cases hfind : items.find? fun i => i.replace && i.name = f.1 with
    | none => exact .inl ⟨rfl, List.mem_map_of_mem hf⟩
    | some i =>
        have hname := List.find?_some hfind
        rw [Bool.and_eq_true, decide_eq_true_eq] at hname
        exact .inr ⟨i, List.mem_of_find?_eq_some hfind, by simp [hname.2]⟩
  · obtain ⟨i, hi, rfl⟩ := List.mem_map.mp h
    exact .inr ⟨i, List.mem_of_mem_filter hi, rfl⟩

theorem planned {plan : List (Output × Reading)} (h : bindEach source.scope (viewOutputs source items) = some plan) :
    ∀ p ∈ plan, Planned source items p := by
  intro p hp
  obtain ⟨o, ho, hbind⟩ := mem_of_mapM h hp
  obtain ⟨b, hb, rfl⟩ := Option.map_eq_some_iff.mp hbind
  rcases mem_viewOutputs ho with ⟨hnone, hname⟩ | ⟨i, hi, rfl⟩
  · rcases o with ⟨name, expression⟩
    obtain rfl : expression = none := hnone
    obtain rfl := Option.some.inj hb
    exact .copied name hname
  · exact .computed i b hi hb

theorem Planned.leaves {p : Output × Reading} (h : Planned source items p) :
    ∀ l ∈ p.2.refs, ∃ c ∈ source.fields.map Prod.fst, l = .column c := by
  cases h with
  | copied name hname =>
      intro l hl
      exact ⟨name, hname, List.mem_singleton.mp hl⟩
  | computed i b hi hb =>
      intro l hl
      obtain ⟨r, -, c, hc, hmem⟩ := Expr.refs_of_bind i.expression b hb l hl
      obtain ⟨column, hcolumn, rfl⟩ := columnRef_eq_some.mp hc
      refine ⟨column, ?_, List.mem_singleton.mp hmem⟩
      simp only [Scope.resolve] at hcolumn
      split at hcolumn
      · cases hcolumn
      · exact (find_column (Option.ite_none_right_eq_some.mp hcolumn).2).1

/-- A SELECT list that reads columns only gives every cell by itself. -/
theorem selectRow_direct {apply : String → List V → Option V} {row : Cells V} {done : Cells V}
    {plan : List (Output × Reading)} (h : ∀ p ∈ plan, ∀ l ∈ p.2.refs, ∃ c, l = Leaf.column c) :
    selectRow apply row done plan =
      plan.mapM fun p => (p.2.eval apply (leaf row [])).map fun v => (p.1.name, v) := by
  induction plan generalizing done with
  | nil => rfl
  | cons p rest ih =>
      obtain ⟨hhead, htail⟩ := List.forall_mem_cons.mp h
      have heval : p.2.eval apply (leaf row done) = p.2.eval apply (leaf row []) := by
        apply Expr.eval_congr
        intro l hl
        obtain ⟨c, rfl⟩ := hhead l hl
        rfl
      rw [selectRow, heval, List.mapM_cons]
      cases p.2.eval apply (leaf row []) with
      | none => rfl
      | some v =>
          simp only [Option.map_some, ih htail]
          cases rest.mapM fun p => (p.2.eval apply (leaf row [])).map fun v => (p.1.name, v) <;> rfl

theorem eval_extended {apply : String → List V → Option V} {row extra : Cells V} {p : Output × Reading}
    (hp : Planned source items p) (hrow : ∀ c ∈ source.fields.map Prod.fst, ∃ v, value row c = some v) :
    p.2.eval apply (leaf (row ++ extra) []) = p.2.eval apply (leaf row []) := by
  apply Expr.eval_congr
  intro l hl
  obtain ⟨c, hc, rfl⟩ := hp.leaves l hl
  obtain ⟨v, hv⟩ := hrow c hc
  simp [leaf, value_append, hv]

end Plan

section Described

variable {db : Engine V} {source : Source} {items : List Item}

theorem value_of_nodup {row : Cells V} (h : (row.map Prod.fst).Nodup) {c : String × V} (hc : c ∈ row) :
    value row c.1 = some c.2 := by
  obtain ⟨v, hv⟩ := value_of_mem (List.mem_map_of_mem hc)
  have heq := List.inj_on_of_nodup_map h (mem_of_value hv) hc rfl
  rw [hv, ← heq]

theorem Resolved.nodup (h : Resolved source items) : (items.map Item.name).Nodup := by
  have hdistinct : ((items.map Item.name).map asciiLower).Nodup := by
    rw [List.map_map]
    exact h.distinct
  exact hdistinct.of_map

/-- DESCRIBE gives every requested column the type of its expression over the
relation. -/
theorem described {types : Cells String} (hitems : Resolved source items)
    (hbound : ∀ i ∈ items, ∀ r ∈ i.expression.refs, ∃ c, source.scope.resolve r = some c)
    (h : describe db source items = some types) : ∀ i ∈ items, ∃ b ty,
      i.expression.bind (columnRef source.scope) = some b ∧
        b.eval db.resultType (leaf source.fields []) = some ty ∧ value types i.name = some ty := by
  obtain ⟨read, hread, htypes⟩ := Option.bind_eq_some_iff.mp h
  obtain ⟨plan, hplan⟩ : ∃ plan, bindEach source.scope (items.map fun i => ⟨i.name, some i.expression⟩) = some plan := by
    apply bindEach_of_resolved
    intro o ho
    obtain ⟨i, hi, rfl⟩ := List.mem_map.mp ho
    exact hbound i hi
  have hsame := (@bindSelect_iff source.scope _ id [] _ _ hplan).mpr fun _ _ _ _ => rfl
  obtain rfl : plan = read := Option.some.inj (hsame.symm.trans hread)
  have hplanned : ∀ p ∈ plan, ∃ i ∈ items, p.1 = ⟨i.name, some i.expression⟩ ∧
      i.expression.bind (columnRef source.scope) = some p.2 := by
    intro p hp
    obtain ⟨o, ho, hbind⟩ := mem_of_mapM hplan hp
    obtain ⟨b, hb, rfl⟩ := Option.map_eq_some_iff.mp hbind
    obtain ⟨i, hi, rfl⟩ := List.mem_map.mp ho
    exact ⟨i, hi, rfl, hb⟩
  rw [selectRow_direct] at htypes
  · have hnames : types.map Prod.fst = items.map Item.name := by
      have hcells : types.map Prod.fst = plan.map fun p => p.1.name := by
        refine mapM_map_eq htypes fun p c hc => ?_
        obtain ⟨v, -, rfl⟩ := Option.map_eq_some_iff.mp hc
        rfl
      have houtputs : plan.map Prod.fst = items.map fun i => ⟨i.name, some i.expression⟩ := by
        have hid : plan.map Prod.fst = List.map id _ := mapM_map_eq hplan fun o p hp => by
          obtain ⟨b, -, rfl⟩ := Option.map_eq_some_iff.mp hp
          rfl
        simpa using hid
      calc types.map Prod.fst = (plan.map Prod.fst).map Output.name := by rw [hcells, List.map_map]; rfl
        _ = items.map Item.name := by rw [houtputs, List.map_map]; rfl
    intro i hi
    obtain ⟨p, hp, hbind⟩ := mapM_mem hplan (List.mem_map_of_mem hi)
    obtain ⟨b, hb, rfl⟩ := Option.map_eq_some_iff.mp hbind
    obtain ⟨cell, hcell, hty⟩ := mapM_mem htypes hp
    obtain ⟨ty, heval, rfl⟩ := Option.map_eq_some_iff.mp hty
    refine ⟨b, ty, hb, heval, value_of_nodup ?_ hcell⟩
    rw [hnames]
    exact hitems.nodup
  · intro p hp l hl
    obtain ⟨i, -, -, hb⟩ := hplanned p hp
    obtain ⟨r, -, c, hc, hmem⟩ := Expr.refs_of_bind i.expression p.2 hb l hl
    obtain ⟨column, -, rfl⟩ := columnRef_eq_some.mp hc
    exact ⟨column, List.mem_singleton.mp hmem⟩

end Described

/-- Rows carry values of the types of their columns. -/
def Typed (db : Engine V) (fields : List (String × String)) (row : Cells V) : Prop :=
  ∀ f ∈ fields, ∃ v, value row f.1 = some v ∧ db.cast f.2 v = some v

/-- The columns of the relation after the change, every expression bound over
the relation before it. -/
def originalPlan (source : Source) (items : List Item) : Option (List (Output × Reading)) :=
  bindEach source.scope (viewOutputs source items)

/-- The cells that the row before the change gives. -/
def originalRow (db : Engine V) (plan : List (Output × Reading)) (row : Cells V) : Option (Cells V) :=
  plan.mapM fun p => (p.2.eval db.apply (leaf row [])).map fun v => (p.1.name, v)

/-- A replaced column is cast to the type it is declared with. -/
def declared (db : Engine V) (fields : List (String × String)) (items : List Item) (cell : String × V) :
    Option (String × V) :=
  match value fields cell.1 with
  | none => some cell
  | some type =>
      if items.any fun i => i.replace && i.name = cell.1 then (db.cast type cell.2).map fun v => (cell.1, v)
      else some cell

/-- Both paths take the change, make the same columns, and give every row the
cells that the row before the change gives. -/
def SameMeaning (db : Engine V) (source : Source) (items : List Item) (types : Cells String) : Prop :=
  ∃ plan, originalPlan source items = some plan ∧ viewPlan db source items = some plan ∧
    tablePlan db source items types = some plan ∧ ∀ row, Typed db source.fields row →
      viewRow db plan row = originalRow db plan row ∧
        tableRow db source items types plan row =
          (originalRow db plan row).bind (List.mapM (declared db source.fields items))

section Meaning

variable {db : Engine V} {source : Source} {items : List Item} {types : Cells String}

theorem Typed.value {fields : List (String × String)} {row : Cells V} (h : Typed db fields row) {c : String}
    (hc : c ∈ fields.map Prod.fst) : ∃ v, value row c = some v := by
  obtain ⟨f, hf, rfl⟩ := List.mem_map.mp hc
  obtain ⟨v, hv, -⟩ := h f hf
  exact ⟨v, hv⟩

theorem Typed.cast {fields : List (String × String)} {row : Cells V} (h : Typed db fields row) {c type : String} {v : V}
    (htype : Mutations.value fields c = some type) (hv : Mutations.value row c = some v) : db.cast type v = some v := by
  obtain ⟨v', hv', hcast⟩ := h (c, type) (mem_of_value htype)
  obtain rfl : v' = v := Option.some.inj (hv'.symm.trans hv)
  exact hcast

/-- The value of a bound expression has the type that DESCRIBE gave it. -/
theorem Typed.eval (hsound : db.Sound) {row : Cells V} (h : Typed db source.fields row) {p : Output × Reading}
    (hp : Planned source items p) {type : String} {v : V}
    (htype : p.2.eval db.resultType (leaf source.fields []) = some type)
    (hv : p.2.eval db.apply (leaf row []) = some v) : db.cast type v = some v := by
  refine @Expr.eval_relates _ _ _ db.apply db.resultType (fun type v => db.cast type v = some v)
    hsound.typed _ _ p.2 ?_ type v htype hv
  intro l hl type v htype hv
  obtain ⟨c, -, rfl⟩ := hp.leaves l hl
  exact h.cast htype hv

theorem value_tableColumns {c : String} (hc : c ∈ source.fields.map Prod.fst) :
    value (tableColumns source items types) c = value source.fields c := by
  obtain ⟨type, htype⟩ := value_of_mem hc
  rw [tableColumns_eq, value_append, htype, Option.some_or]

theorem value_added (hitems : Resolved source items) {i : Item} (hi : i ∈ items) (hadd : i.replace = false) :
    value source.fields i.name = none ∧
      value (tableColumns source items types) i.name = some ((value types i.name).getD "") := by
  have hnone : value source.fields i.name = none := by
    rw [value, Option.map_eq_none_iff, List.find?_eq_none]
    intro f hf heq
    rw [decide_eq_true_eq] at heq
    exact hitems.added i hi hadd f hf (by rw [heq])
  have hmem : i ∈ additions items := List.mem_filter.mpr ⟨hi, by simp [hadd]⟩
  obtain ⟨type, htype⟩ : ∃ type, value ((additions items).map fun i => (i.name, (value types i.name).getD ""))
      i.name = some type := value_of_mem (List.mem_map.mpr ⟨_, List.mem_map_of_mem hmem, rfl⟩)
  refine ⟨hnone, ?_⟩
  rw [tableColumns_eq, value_append, hnone, Option.none_or, htype]
  obtain ⟨j, -, hj⟩ := List.mem_map.mp (mem_of_value htype)
  obtain ⟨hname, rfl⟩ := Prod.mk.inj hj
  rw [hname]

/-- One cell after the UPDATE. -/
theorem updated_cell (hsound : db.Sound) (hitems : Resolved source items)
    (htypes : ∀ i ∈ items, ∃ b ty, i.expression.bind (columnRef source.scope) = some b ∧
      b.eval db.resultType (leaf source.fields []) = some ty ∧ value types i.name = some ty)
    {row extra : Cells V} (hrow : Typed db source.fields row) {p : Output × Reading} (hp : Planned source items p) :
    (match p.1.expression with
      | none => (value (row ++ extra) p.1.name).map fun v => (p.1.name, v)
      | some _ => do
          let v ← p.2.eval db.apply (leaf (row ++ extra) [])
          let type ← value (tableColumns source items types) p.1.name
          (db.cast type v).map fun v => (p.1.name, v)) =
      ((p.2.eval db.apply (leaf row [])).map fun v => (p.1.name, v)).bind (declared db source.fields items) := by
  have heval : p.2.eval db.apply (leaf (row ++ extra) []) = p.2.eval db.apply (leaf row []) :=
    eval_extended hp fun c hc => hrow.value hc
  cases hp with
  | copied name hname =>
      obtain ⟨v, hv⟩ := hrow.value hname
      obtain ⟨type, htype⟩ := value_of_mem hname
      have hcast := hrow.cast htype hv
      simp [value_append, Expr.eval, leaf, hv, declared, htype, hcast]
  | computed i b hi hb =>
      simp only at heval ⊢
      rw [heval]
      cases hv : b.eval db.apply (leaf row []) with
      | none => rfl
      | some v =>
          cases hreplace : i.replace with
          | true =>
              have hname := hitems.replaced i hi hreplace
              obtain ⟨type, htype⟩ := value_of_mem hname
              have hany : (items.any fun j => j.replace && decide (j.name = i.name)) = true :=
                List.any_eq_true.mpr ⟨i, hi, by simp [hreplace]⟩
              simp [value_tableColumns hname, htype, declared, hany]
          | false =>
              obtain ⟨b', type, hb', htype, hdescribed⟩ := htypes i hi
              obtain rfl : b = b' := Option.some.inj (hb.symm.trans hb')
              have hcast : db.cast type v = some v := hrow.eval hsound (.computed i b hi hb) htype hv
              obtain ⟨hnone, hcolumn⟩ := @value_added _ _ types hitems i hi hreplace
              simp [hcolumn, hdescribed, hcast, declared, hnone]

theorem item_viewOutputs (hitems : Resolved source items) {i : Item} (hi : i ∈ items) :
    ⟨i.name, some i.expression⟩ ∈ viewOutputs source items := by
  cases hreplace : i.replace with
  | true =>
      obtain ⟨f, hf, hname⟩ := List.mem_map.mp (hitems.replaced i hi hreplace)
      refine List.mem_append_left _ (List.mem_map.mpr ⟨f, hf, ?_⟩)
      have hfind : items.find? (fun j => j.replace && j.name = f.1) = some i := by
        rw [hname, ← hitems.find_self hi]
        apply find_congr
        intro j hj
        by_cases heq : j.name = i.name
        · obtain rfl := List.inj_on_of_nodup_map hitems.nodup hj hi heq
          simp [hreplace]
        · simp [heq]
      rw [hfind, hname, Option.map_some]
  | false => exact List.mem_append_right _ (List.mem_map_of_mem (List.mem_filter.mpr ⟨hi, by simp [hreplace]⟩))

theorem viewOutputs_refs {P : Reference → Prop} (h : ∀ i ∈ items, ∀ r ∈ i.expression.refs, P r) :
    ∀ o ∈ viewOutputs source items, ∀ r ∈ o.refs, P r := by
  intro o ho r hr
  rcases mem_viewOutputs ho with ⟨hnone, -⟩ | ⟨i, hi, rfl⟩
  · simp [Output.refs, hnone] at hr
  · exact h i hi r hr

/-- Over plain references every column of the plan has a type. -/
theorem plan_typed {plan : List (Output × Reading)} (hplan : originalPlan source items = some plan)
    (htypes : ∀ i ∈ items, ∃ b ty, i.expression.bind (columnRef source.scope) = some b ∧
      b.eval db.resultType (leaf source.fields []) = some ty ∧ value types i.name = some ty) :
    ∀ p ∈ plan, ∃ ty, p.2.eval db.resultType (leaf source.fields []) = some ty := by
  intro p hp
  cases planned hplan p hp with
  | copied name hname => exact value_of_mem hname
  | computed i b hi hb =>
      obtain ⟨b', ty, hb', hty, -⟩ := htypes i hi
      obtain rfl : b = b' := Option.some.inj (hb.symm.trans hb')
      exact ⟨ty, hty⟩

/-- Binding the SELECT list over the wrapper, and checking its types, gives the
plan over the relation. -/
theorem viewPlan_eq {plan : List (Output × Reading)} (hplan : originalPlan source items = some plan)
    (htyped : ∀ p ∈ plan, ∃ ty, p.2.eval db.resultType (leaf source.fields []) = some ty)
    (hnames : ∀ i ∈ items, i.name ≠ INPUT ∧ i.name ≠ PREVIOUS)
    (hplain : ∀ i ∈ items, ∀ r ∈ i.expression.refs, Plain source r) : viewPlan db source items = some plan := by
  have hread : bindSelect source.wrapped renameInput [] (viewOutputs source items) = some plan := by
    refine (bindSelect_iff hplan).mpr (viewOutputs_refs fun i hi r hr => ?_)
    obtain ⟨c, hc, hwrapped⟩ := plain_iff.mp (hplain i hi r hr)
    rw [hc, hwrapped]
  have hleaves : ∀ p ∈ plan, ∀ l ∈ p.2.refs, ∃ c, l = Leaf.column c := fun p hp l hl => by
    obtain ⟨c, -, hc⟩ := (planned hplan p hp).leaves l hl
    exact ⟨c, hc⟩
  have hfree : ¬(items.any fun i => i.name = INPUT || i.name = PREVIOUS) = true := by
    simpa [List.any_eq_true, not_or] using hnames
  obtain ⟨cells, hcells⟩ : ∃ cells, selectRow db.resultType source.fields [] plan = some cells := by
    rw [selectRow_direct hleaves]
    refine mapM_exists fun p hp => ?_
    obtain ⟨ty, hty⟩ := htyped p hp
    exact ⟨_, by rw [hty, Option.map_some]⟩
  rw [viewPlan, if_neg hfree, hread]
  simp [hcells]

/-- The columns that the UPDATE may see besides those of the relation are not
read. -/
theorem tablePlan_eq {plan : List (Output × Reading)} (hitems : Resolved source items)
    (hplan : originalPlan source items = some plan)
    (htyped : ∀ p ∈ plan, ∃ ty, p.2.eval db.resultType (leaf source.fields []) = some ty) :
    tablePlan db source items types = some plan := by
  have hread : bindEach { source.scope with columns := (tableColumns source items types).map Prod.fst }
      (tableOutputs (tableColumns source items types) items) = some plan := by
    rw [outputs_eq types hitems]
    refine (bindEach_iff hplan).mpr fun o ho r hr => ?_
    obtain ⟨p, -, hbind⟩ := mapM_mem hplan ho
    obtain ⟨b, hb, -⟩ := Option.map_eq_some_iff.mp hbind
    obtain ⟨c, hc⟩ := Output.resolved hb r hr
    rw [hc]
    simp only [Scope.resolve] at hc ⊢
    split at hc
    · cases hc
    · obtain ⟨hqualifier, hfind⟩ := Option.ite_none_right_eq_some.mp hc
      rw [if_pos hqualifier, tableColumns_eq, List.map_append, List.find?_append]
      simp only [Source.scope] at hfind
      rw [hfind, Option.some_or]
  have hleaves : ∀ p ∈ plan, ∀ l ∈ p.2.refs, ∃ c, l = Leaf.column c := fun p hp l hl => by
    obtain ⟨c, -, hc⟩ := (planned hplan p hp).leaves l hl
    exact ⟨c, hc⟩
  obtain ⟨cells, hcells⟩ : ∃ cells, selectRow db.resultType (tableColumns source items types) [] plan = some cells := by
    rw [selectRow_direct hleaves]
    refine mapM_exists fun p hp => ?_
    obtain ⟨ty, hty⟩ := htyped p hp
    rw [tableColumns_eq, eval_extended (planned hplan p hp) fun c hc => value_of_mem hc, hty]
    exact ⟨_, rfl⟩
  simp only [tablePlan, hread, bind, Option.bind, hcells]

end Meaning

/-- Expressions that are column names. -/
def namesOnly : Engine (Option String) where
  parse text := .ok (.ref [text])
  apply _ _ := none
  resultType _ _ := none
  null := none
  cast _ v := some v

def docs : Source where
  database := "project"
  relation := ⟨"data", "docs"⟩
  fields := [("a", "VARCHAR"), ("b", "VARCHAR")]
  distinct := by decide

end Wordflow.Mutations
