import Wordflow.Crates.Paths

namespace Wordflow.Crates

open Library Library.Fallible Library.Fresh Library.OrderedMap

variable {krate : RoCrate} {config : TableConfig} {wide : List String}

theorem columnName_injective (name : String) : Function.Injective (columnName name) := by
  have hdigits : ∀ m n : Nat, toString m = toString n → m = n := by
    intro m n h
    simp only [Nat.toString_eq_repr] at h
    have hvalue := congrArg (fun s : String => Nat.ofDigitChars 10 s.toList 0) h
    simpa using hvalue
  have hlonger : ∀ n : Nat, name ++ "_" ++ toString n ≠ name := by
    intro n h
    have hlength := congrArg (fun s : String => s.toList.length) h
    simp [String.toList_append] at hlength
  intro m n h
  simp only [columnName] at h
  by_cases hm : m = 0
  · by_cases hn : n = 0
    · rw [hm, hn]
    · rw [if_pos hm, if_neg hn] at h
      exact absurd h.symm (hlonger n)
  · by_cases hn : n = 0
    · rw [if_neg hm, if_pos hn] at h
      exact absurd h (hlonger m)
    · rw [if_neg hm, if_neg hn] at h
      exact hdigits m n ((String.append_right_inj _).mp h)

theorem columnName_eq (name : String) (suffix : Nat) : ∃ rest, columnName name suffix = name ++ rest := by
  by_cases h : suffix = 0
  · exact ⟨"", by simp [columnName, h]⟩
  · exact ⟨"_" ++ toString suffix, by simp [columnName, h, String.append_assoc]⟩

/-- A cell holds a value in a column of the value's origin. -/
def Holds (origins : Map String String) (cell : String × Json) (v : Origin × Json) : Prop :=
  cell.2 = v.2 ∧ origins.get? cell.1 = some v.1.text ∧ ∃ suffix, cell.1 = columnName v.1.base suffix

/-- A row holds values in order, each in a column of its own. -/
def RowHolds (origins : Map String String) (row : Row) (values : List (Origin × Json)) : Prop :=
  (row.map Prod.fst).Nodup ∧ List.Forall₂ (Holds origins) row values

/-- Columns keep their origin. -/
def Grows (origins later : Map String String) : Prop :=
  ∀ column text, origins.get? column = some text → later.get? column = some text

theorem Grows.refl (origins : Map String String) : Grows origins origins := fun _ _ h => h

theorem Grows.trans {a b c : Map String String} (hab : Grows a b) (hbc : Grows b c) : Grows a c :=
  fun column text h => hbc column text (hab column text h)

theorem RowHolds.grows {a b : Map String String} {row : Row} {values : List (Origin × Json)} (h : RowHolds a row values)
    (hgrows : Grows a b) : RowHolds b row values := by
  refine ⟨h.1, h.2.imp ?_⟩
  rintro cell v ⟨hvalue, horigin, hname⟩
  exact ⟨hvalue, hgrows _ _ horigin, hname⟩

/-- Putting a value extends the row and leaves the companion tables alone. -/
theorem put_holds {b b' : Builder} {row row' : Row} {o : Origin} {value : Json} {values : List (Origin × Json)}
    (h : put false b row o.base value o.text = .ok (b', row')) (hrow : RowHolds b.origins row values) :
    RowHolds b'.origins row' (values ++ [(o, value)]) ∧ Grows b.origins b'.origins ∧ b'.companions = b.companions := by
  have hfree := @firstFree_free _ _ (row.map Prod.fst) _ (columnName_injective o.base) 0
  simp only [put, guard_eq_ok] at h
  obtain ⟨-, -, h⟩ := h
  rw [if_neg (by decide), guard_eq_ok] at h
  obtain ⟨hsame, h⟩ := h
  generalize hsuffix : firstFree (row.map Prod.fst) (columnName o.base) (row.map Prod.fst).length 0 = suffix at h hsame hfree
  cases h
  have hgrows : Grows b.origins (b.origins.insert (columnName o.base suffix) o.text) := by
    intro column text hcolumn
    rw [Map.get?_insert]
    split
    · rename_i heq
      rw [← heq, hcolumn] at hsame
      have htext : text = o.text := by simpa using hsame
      rw [htext]
    · exact hcolumn
  refine ⟨⟨?_, ?_⟩, hgrows, rfl⟩
  · rw [List.map_append]
    refine List.nodup_append.mpr ⟨hrow.1, List.nodup_singleton _, ?_⟩
    rintro c hc d hd rfl
    have heq : c = columnName o.base suffix := List.mem_singleton.mp hd
    exact hfree (heq ▸ hc)
  · exact List.rel_append (hrow.grows hgrows).2 (.cons ⟨rfl, Map.get?_insert_self, suffix, rfl⟩ .nil)

section Values

variable (krate config wide)

/-- The cells of a value that goes to the main table. -/
def cells (x : Path × Json) : List (Origin × Json) :=
  match bareReference x.2 with
  | some id => [(.value x.1, .str (targetName krate (some id))), (.target x.1, .str id)]
  | none => [(.value x.1, scalar false x.2)]

/-- The companion rows of the values of an entity, with ordinals from 0. -/
def numbered (id : String) (values : List (Path × Json)) : List CompanionRow :=
  values.mapIdx fun i x => companionRow krate false id i (bareReference x.2) x.2

/-- The values of the entity that a value refers to. -/
def targetValues (name : String) (value : Json) : List (Path × Json) :=
  (((reference value).bind krate.entity).getD []).flatMap fun property =>
    if property.1 = "@id" ∨ name ++ "_" ++ property.1 ∈ config.ignoreProps then []
    else (asList property.2).map fun v => (.nested name property.1, v)

/-- The values of a property that are written, each with the path it is found under. -/
def kept (property : String × Json) : List (Path × Json) :=
  if property.1 = "@id" ∨ property.1 ∈ config.ignoreProps then []
  else if isJunction config wide property.1 = false ∧ property.1 ∈ config.expandProps then
    (asList property.2).flatMap (targetValues krate config property.1)
  else (asList property.2).map fun v => (.direct property.1, v)

def write (id : String) (state : Builder × Row) (x : Path × Json) : Except Error (Builder × Row) :=
  appendValue krate config false wide id x.1.name x.1.origin state x.2

end Values

theorem append_eq (id : String) (p : Path) (raw : Json) (state : Builder × Row) :
    append krate config false wide id p.name raw p.origin state =
      ((asList raw).map fun v => (p, v)).foldlM (write krate config wide id) state := by
  rw [List.foldlM_map]
  rfl

theorem expandValue_eq (id name : String) (state : Builder × Row) (value : Json) :
    expandValue krate config false wide id name state value =
      (targetValues krate config name value).foldlM (write krate config wide id) state := by
  rw [expandValue, targetValues]
  cases (reference value).bind krate.entity with
  | none => rfl
  | some target =>
      rw [Option.getD_some, foldlM_flatMap]
      refine congrArg (fun f => List.foldlM f state target) ?_
      funext state property
      by_cases h : property.1 = "@id" ∨ name ++ "_" ++ property.1 ∈ config.ignoreProps
      · simp only [if_pos h]
        rfl
      · simp only [if_neg h]
        exact append_eq id (.nested name property.1) property.2 state

/-- Reading a property is writing its values one after the other. -/
theorem addProperty_eq (id : String) (state : Builder × Row) (property : String × Json) :
    addProperty krate config false wide id state property =
      (kept krate config wide property).foldlM (write krate config wide id) state := by
  rcases property with ⟨name, value⟩
  have hdirect : append krate config false wide id name value name state =
      ((asList value).map fun v => (Path.direct name, v)).foldlM (write krate config wide id) state :=
    append_eq id (.direct name) value state
  simp only [addProperty, kept]
  by_cases hid : name = "@id"
  · rw [if_pos hid, if_pos (.inl hid)]
    rfl
  · by_cases hignore : name ∈ config.ignoreProps
    · have hskip : name = "@id" ∨ name ∈ config.ignoreProps := .inr hignore
      rw [if_neg hid, if_pos hskip]
      simp [hignore]
      rfl
    · rw [if_neg hid, if_neg (not_or.mpr ⟨hid, hignore⟩)]
      cases hjunction : isJunction config wide name with
      | true => simpa [hignore] using hdirect
      | false =>
          by_cases hexpand : name ∈ config.expandProps
          · have hsteps : expandValue krate config false wide id name =
                fun state v => (targetValues krate config name v).foldlM (write krate config wide id) state := by
              funext state v
              exact expandValue_eq id name state v
            simp [hignore, hexpand, hsteps, foldlM_flatMap]
          · simpa [hignore, hexpand] using hdirect

theorem numbered_concat (id : String) (values : List (Path × Json)) (x : Path × Json) :
    numbered krate id (values ++ [x]) =
      numbered krate id values ++ [companionRow krate false id values.length (bareReference x.2) x.2] :=
  List.mapIdx_concat

@[simp]
theorem length_numbered (id : String) (values : List (Path × Json)) : (numbered krate id values).length = values.length :=
  List.length_mapIdx

/-- After the rows of an entity the next ordinal is their number. -/
theorem nextOrdinal_numbered {before : List CompanionRow} {id : String} (hfresh : ∀ r ∈ before, r.sourceId ≠ id)
    (values : List (Path × Json)) : nextOrdinal (before ++ numbered krate id values) id = values.length := by
  induction values using List.reverseRecOn with
  | nil =>
      rw [nextOrdinal, numbered, List.mapIdx_nil, List.append_nil]
      cases hlast : before.getLast? with
      | none => rfl
      | some last => exact if_neg (hfresh last (List.mem_of_getLast? hlast))
  | append_singleton values x _ =>
      rw [numbered_concat, ← List.append_assoc, nextOrdinal, List.getLast?_concat]
      simp [companionRow]

section Run

variable (krate config wide)

/-- The values for the companion table of a name. -/
def companionValues (name : String) (values : List (Path × Json)) : List (Path × Json) :=
  values.filter fun x => isJunction config wide x.1.name ∧ x.1.name = name

def mainValues (values : List (Path × Json)) : List (Path × Json) := values.filter fun x => !isJunction config wide x.1.name

/-- What an entity's values, so far as they are read, have done to the tables. -/
structure Written (id : String) (start : Builder) (done : List (Path × Json)) (state : Builder × Row) : Prop where
  row : RowHolds state.1.origins state.2 ((.identifier, .str id) :: (mainValues config wide done).flatMap (cells krate))
  companion : ∀ name, Entries.value [] state.1.companions name =
    Entries.value [] start.companions name ++ numbered krate id (companionValues config wide name done)
  grows : Grows start.origins state.1.origins
  keys : (state.1.companions.map Prod.fst).Nodup
  filled : ∀ c ∈ state.1.companions, c.2 ≠ []

end Run

variable {id : String} {start : Builder} {done : List (Path × Json)} {state state' : Builder × Row} {x : Path × Json}

theorem mainValues_concat : mainValues config wide (done ++ [x]) =
    mainValues config wide done ++ if isJunction config wide x.1.name then [] else [x] := by
  rw [mainValues, List.filter_append, mainValues]
  cases h : isJunction config wide x.1.name <;> simp [h]

theorem companionValues_concat (name : String) : companionValues config wide name (done ++ [x]) =
    companionValues config wide name done ++ if isJunction config wide x.1.name ∧ x.1.name = name then [x] else [] := by
  rw [companionValues, List.filter_append, companionValues]
  simp only [List.filter_cons, List.filter_nil, decide_eq_true_eq]

/-- The cells of a value extend the row. -/
theorem putCells_holds {b b' : Builder} {row row' : Row} {values : List (Origin × Json)}
    (hjunction : isJunction config wide x.1.name = false)
    (h : write krate config wide id (b, row) x = .ok (b', row')) (hrow : RowHolds b.origins row values) :
    RowHolds b'.origins row' (values ++ cells krate x) ∧ Grows b.origins b'.origins ∧ b'.companions = b.companions := by
  simp only [write, appendValue, hjunction] at h
  rw [cells]
  cases htarget : bareReference x.2 with
  | none =>
      rw [htarget] at h
      exact put_holds (o := .value x.1) h hrow
  | some target =>
      rw [htarget] at h
      obtain ⟨⟨b₁, row₁⟩, hfirst, hsecond⟩ := bind_eq_ok.mp h
      obtain ⟨hrow₁, hgrows₁, hcompanions₁⟩ := put_holds (o := .value x.1) hfirst hrow
      obtain ⟨hrow₂, hgrows₂, hcompanions₂⟩ := put_holds (o := .target x.1) hsecond hrow₁
      rw [List.append_assoc] at hrow₂
      exact ⟨hrow₂, hgrows₁.trans hgrows₂, hcompanions₂.trans hcompanions₁⟩

theorem Written.write (hfresh : ∀ name, ∀ r ∈ Entries.value [] start.companions name, r.sourceId ≠ id)
    (h : Written krate config wide id start done state) (hwrite : write krate config wide id state x = .ok state') :
    Written krate config wide id start (done ++ [x]) state' := by
  rcases state with ⟨b, row⟩
  rcases state' with ⟨b', row'⟩
  cases hjunction : isJunction config wide x.1.name with
  | false =>
      obtain ⟨hrow, hgrows, hcompanions⟩ := putCells_holds hjunction hwrite h.row
      refine ⟨?_, fun name => ?_, h.grows.trans hgrows, ?_, ?_⟩
      · simpa [mainValues_concat, hjunction] using hrow
      · simpa [companionValues_concat, hjunction, hcompanions] using h.companion name
      · simpa [hcompanions] using h.keys
      · simpa [hcompanions] using h.filled
  | true =>
      simp only [Crates.write, appendValue, hjunction, Bool.not_false, Bool.true_and, if_true, Bool.false_eq_true, if_false] at hwrite
      cases hwrite
      refine ⟨?_, fun name => ?_, h.grows, Entries.nodup_change h.keys, fun c hc => ?_⟩
      · simpa [mainValues_concat, hjunction] using h.row
      · by_cases hname : x.1.name = name
        · subst hname
          have hordinal := @nextOrdinal_numbered krate _ _ (hfresh x.1.name) (companionValues config wide x.1.name done)
          rw [companionValues_concat, if_pos ⟨hjunction, rfl⟩, numbered_concat, Entries.value_change_self]
          rw [h.companion, hordinal, List.append_assoc]
        · rw [companionValues_concat, if_neg (fun hboth => hname hboth.2), List.append_nil,
            Entries.value_change_of_ne (Ne.symm hname)]
          exact h.companion name
      · rcases Entries.mem_change hc with hc | ⟨rows, hrows⟩
        · exact h.filled c hc
        · rw [hrows]
          exact List.append_ne_nil_of_right_ne_nil _ (List.cons_ne_nil _ _)

/-- The values of an entity that are written. -/
def keptOf (krate : RoCrate) (config : TableConfig) (wide : List String) (entity : Entity) : List (Path × Json) :=
  entity.flatMap (kept krate config wide)

theorem entityRow_written {b : Builder} {entity : Entity} (hid : Json.lookup entity "@id" = some (.str id))
    (hfresh : ∀ name, ∀ r ∈ Entries.value [] b.companions name, r.sourceId ≠ id)
    (hkeys : (b.companions.map Prod.fst).Nodup) (hfilled : ∀ c ∈ b.companions, c.2 ≠ [])
    (h : entityRow krate config false wide b entity = .ok state) :
    Written krate config wide id b (keptOf krate config wide entity) state := by
  simp only [entityRow, hid] at h
  obtain ⟨⟨b₀, row₀⟩, hput, h⟩ := bind_eq_ok.mp h
  obtain ⟨hrow, hgrows, hcompanions⟩ := @put_holds _ _ _ _ .identifier _ [] hput ⟨List.nodup_nil, .nil⟩
  have hstart : Written krate config wide id b [] (b₀, row₀) := by
    refine ⟨hrow, fun name => ?_, hgrows, ?_, ?_⟩
    · rw [hcompanions]
      exact (List.append_nil _).symm
    · rw [hcompanions]
      exact hkeys
    · rw [hcompanions]
      exact hfilled
  have hsteps : addProperty krate config false wide id =
      fun state property => (kept krate config wide property).foldlM (Crates.write krate config wide id) state := by
    funext state property
    exact addProperty_eq id state property
  rw [hsteps, ← foldlM_flatMap] at h
  exact foldlM_relates (fun done state => Written krate config wide id b done state) h hstart fun _ hw hwrite =>
    hw.write hfresh hwrite

/-- The rows of the entities of a table, and the companion rows, once the entities are read. -/
structure Filled (krate : RoCrate) (config : TableConfig) (wide : List String) (done : List (String × Entity))
    (state : Builder × List Row) : Prop where
  rows : List.Forall₂ (fun e row => RowHolds state.1.origins row
    ((.identifier, .str e.1) :: (mainValues config wide (keptOf krate config wide e.2)).flatMap (cells krate))) done state.2
  companion : ∀ name, Entries.value [] state.1.companions name =
    done.flatMap fun e => numbered krate e.1 (companionValues config wide name (keptOf krate config wide e.2))
  keys : (state.1.companions.map Prod.fst).Nodup
  filled : ∀ c ∈ state.1.companions, c.2 ≠ []

theorem sourceId_numbered {values : List (Path × Json)} {r : CompanionRow} (h : r ∈ numbered krate id values) :
    r.sourceId = id := by
  obtain ⟨i, hi, rfl⟩ := List.mem_mapIdx.mp h
  rfl

theorem Filled.addRow {before : List (String × Entity)} {e : String × Entity} {s s' : Builder × List Row}
    (hnew : e.1 ∉ before.map Prod.fst) (hid : Json.lookup e.2 "@id" = some (.str e.1))
    (h : Filled krate config wide before s) (hrow : addRow krate config false wide s e.2 = .ok s') :
    Filled krate config wide (before ++ [e]) s' := by
  obtain ⟨⟨b, row⟩, hentity, hrest⟩ := bind_eq_ok.mp hrow
  cases hrest
  have hfresh : ∀ name, ∀ r ∈ Entries.value [] s.1.companions name, r.sourceId ≠ e.1 := by
    intro name r hr heq
    rw [h.companion, List.mem_flatMap] at hr
    obtain ⟨d, hd, hr⟩ := hr
    refine hnew (List.mem_map.mpr ⟨d, hd, ?_⟩)
    rw [← heq, sourceId_numbered hr]
  have hwritten := entityRow_written hid hfresh h.keys h.filled hentity
  refine ⟨?_, fun name => ?_, hwritten.keys, hwritten.filled⟩
  · exact List.rel_append (h.rows.imp fun _ _ hholds => hholds.grows hwritten.grows) (.cons hwritten.row .nil)
  · rw [hwritten.companion, h.companion, List.flatMap_append, List.flatMap_singleton]

/-- Reading all entities of distinct identifiers fills the tables with their values. -/
theorem rows_filled {entities : List (String × Entity)} {s : Builder × List Row} (hdistinct : (entities.map Prod.fst).Nodup)
    (hid : ∀ e ∈ entities, Json.lookup e.2 "@id" = some (.str e.1))
    (h : (entities.map Prod.snd).foldlM (addRow krate config false wide) (⟨.empty, []⟩, []) = .ok s) :
    Filled krate config wide entities s := by
  rw [List.foldlM_map] at h
  have hstart : Filled krate config wide [] ((⟨.empty, []⟩ : Builder), ([] : List Row)) :=
    ⟨.nil, fun _ => rfl, List.nodup_nil, fun _ hc => nomatch hc⟩
  suffices ∀ before, (before.map Prod.fst ++ entities.map Prod.fst).Nodup → ∀ s₀, Filled krate config wide before s₀ →
      entities.foldlM (fun s e => addRow krate config false wide s e.2) s₀ = .ok s →
      Filled krate config wide (before ++ entities) s from this [] hdistinct _ hstart h
  clear h hstart hdistinct
  induction entities with
  | nil =>
      intro before _ s₀ hs₀ h
      cases h
      simpa using hs₀
  | cons e entities ih =>
      intro before hnodup s₀ hs₀ h
      rw [List.foldlM_cons] at h
      obtain ⟨s₁, hfirst, hrest⟩ := bind_eq_ok.mp h
      obtain ⟨hide, hids⟩ := List.forall_mem_cons.mp hid
      have hnew : e.1 ∉ before.map Prod.fst := by
        intro hmem
        exact (List.nodup_append.mp hnodup).2.2 _ hmem _ List.mem_cons_self rfl
      have hnext := ih hids (before ++ [e]) (by simpa using hnodup) s₁ (hs₀.addRow hnew hide hfirst) hrest
      simpa using hnext

end Wordflow.Crates
