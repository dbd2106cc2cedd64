import Wordflow.Crates.Rows

namespace Wordflow.Crates

open Library Library.Fallible Library.OrderedMap

section Due

variable (krate : RoCrate) (config : TableConfig) (wide : List String)

/-- A value that says no more than which entity of the crate it refers to. -/
def carried (value : Json) : Bool := ((bareReference value).bind krate.entity).isSome

/-- What a value of an expanded property asks for: the values of the entity it refers to, and a place of its own unless
they carry all it says. -/
def expandedDue (name : String) (value : Json) : List (Path × Json) :=
  targetValues krate config name value ++ if carried krate value then [] else [(.direct name, value)]

/-- The values of a property that a place in the tables is due to, each with the path it is found under. -/
def due (property : String × Json) : List (Path × Json) :=
  if property.1 = "@id" ∨ property.1 ∈ config.ignoreProps then []
  else if isJunction config wide property.1 = false ∧ property.1 ∈ config.expandProps then
    (asList property.2).flatMap (expandedDue krate config property.1)
  else (asList property.2).map fun v => (.direct property.1, v)

def dueOf (entity : Entity) : List (Path × Json) := entity.flatMap (due krate config wide)

def mainCells (values : List (Path × Json)) : List (Origin × Json) := (mainValues config wide values).flatMap (cells krate)

/-- The companion rows of a path for one entity. -/
def pathRows (p : Path) (e : String × Entity) : List CompanionRow :=
  numbered krate e.1 ((dueOf krate config wide e.2).filter fun x => x.1 = p)

/-- A row has every value that is due in one cell, the identifier among them, in columns that each have one origin. -/
structure RowLossless (origins : Map String String) (origin : String → Origin) (columns : List String)
    (e : String × Entity) (row : Row) : Prop where
  distinct : (row.map Prod.fst).Nodup
  columns : ∀ c ∈ row, c.1 ∈ columns
  recorded : ∀ c ∈ row, origins.get? c.1 = some (origin c.1).text
  cells : (row.map fun c => (origin c.1, c.2)).Perm
    ((.identifier, .str e.1) :: mainCells krate config wide (dueOf krate config wide e.2))

end Due

section Statement

variable (krate : RoCrate) (config : TableConfig) (kind : String)

def wideOf : List String := scanWide krate config false ((tabulated krate kind).map Prod.snd)

/-- The rows of a path for all entities of a table. -/
def companionOf (p : Path) : List Row :=
  ((tabulated krate kind).flatMap (pathRows krate config (wideOf krate config kind) p)).map CompanionRow.toRow

/-- The tables of a type lose no value of its entities, and mix no two paths. -/
structure Lossless (output : List Table) : Prop where
  main : ∃ t ∈ output, t.entityType = kind ∧ ∃ origins, t.kind = .entity origins ∧ ∃ origin : String → Origin,
    List.Forall₂ (RowLossless krate config (wideOf krate config kind) origins origin t.columns) (tabulated krate kind) t.rows
  unmixed : ∀ t ∈ output, t.entityType = kind → ∀ property, t.kind = .relationshipOrValue property →
    ∃ p : Path, p.name = property ∧ t.rows = companionOf krate config kind p
  complete : ∀ e ∈ tabulated krate kind, ∀ x ∈ dueOf krate config (wideOf krate config kind) e.2,
    isJunction config (wideOf krate config kind) x.1.name = true →
      ∃ t ∈ output, t.entityType = kind ∧ t.kind = .relationshipOrValue x.1.name ∧ t.rows = companionOf krate config kind x.1

/-- The values of expanded properties do no more than refer to entities of the crate. -/
def Expandable : Prop := ∀ e ∈ tabulated krate kind, ∀ property ∈ e.2, property.1 ≠ "@id" → property.1 ∉ config.ignoreProps →
  isJunction config (wideOf krate config kind) property.1 = false → property.1 ∈ config.expandProps →
    ∀ v ∈ asList property.2, carried krate v = true

/-- No two paths with values have the companion table of one name. -/
def Separate : Prop :=
  ∀ e ∈ tabulated krate kind, ∀ x ∈ dueOf krate config (wideOf krate config kind) e.2,
    ∀ e' ∈ tabulated krate kind, ∀ x' ∈ dueOf krate config (wideOf krate config kind) e'.2,
      isJunction config (wideOf krate config kind) x.1.name = true → x.1.name = x'.1.name → x.1 = x'.1

end Statement

section Lists

variable {α β : Type*} {g h : α → List β} {items : List α}

theorem length_flatMap_le (hle : ∀ a, (g a).length ≤ (h a).length) : (items.flatMap g).length ≤ (items.flatMap h).length := by
  induction items with
  | nil => exact Nat.le_refl _
  | cons a items ih =>
      have ha := hle a
      simp only [List.flatMap_cons, List.length_append]
      omega

/-- Lists that are no longer at any place are no shorter at any, if they are no shorter in all. -/
theorem length_le_of_flatMap (hle : ∀ a, (g a).length ≤ (h a).length)
    (hall : (items.flatMap h).length ≤ (items.flatMap g).length) : ∀ a ∈ items, (h a).length ≤ (g a).length := by
  induction items with
  | nil => exact fun _ ha => nomatch ha
  | cons a items ih =>
      have ha := hle a
      have hrest := @length_flatMap_le _ _ _ _ items hle
      simp only [List.flatMap_cons, List.length_append] at hall
      rw [List.forall_mem_cons]
      exact ⟨by omega, ih (by omega)⟩

end Lists

variable {krate : RoCrate} {config : TableConfig} {wide : List String} {kind : String}

theorem mainCells_append (values more : List (Path × Json)) :
    mainCells krate config wide (values ++ more) = mainCells krate config wide values ++ mainCells krate config wide more := by
  rw [mainCells, mainValues, List.filter_append, List.flatMap_append]
  rfl

theorem mainCells_flatMap {α : Type*} (items : List α) (f : α → List (Path × Json)) :
    mainCells krate config wide (items.flatMap f) = items.flatMap fun a => mainCells krate config wide (f a) := by
  induction items with
  | nil => rfl
  | cons a items ih => rw [List.flatMap_cons, mainCells_append, ih, List.flatMap_cons]

section Kept

variable {property : String × Json}

theorem mainCells_expandedDue_le (name : String) (v : Json) :
    (mainCells krate config wide (targetValues krate config name v)).length ≤
      (mainCells krate config wide (expandedDue krate config name v)).length := by
  rw [expandedDue, mainCells_append, List.length_append]
  exact Nat.le_add_right _ _

/-- No more cells are written than are due. -/
theorem mainCells_kept_le (property : String × Json) :
    (mainCells krate config wide (kept krate config wide property)).length ≤
      (mainCells krate config wide (due krate config wide property)).length := by
  rw [kept, due]
  split
  · exact Nat.le_refl _
  · split
    · rw [mainCells_flatMap, mainCells_flatMap]
      exact length_flatMap_le fun v => mainCells_expandedDue_le property.1 v
    · exact Nat.le_refl _

/-- Where all cells that are due are written, the values of an expanded property are carried by what they refer to. -/
theorem carried_of_length (h : (mainCells krate config wide (due krate config wide property)).length ≤
      (mainCells krate config wide (kept krate config wide property)).length)
    (hid : property.1 ≠ "@id") (hignore : property.1 ∉ config.ignoreProps)
    (hjunction : isJunction config wide property.1 = false) (hexpand : property.1 ∈ config.expandProps) :
    ∀ v ∈ asList property.2, carried krate v = true := by
  rw [kept, due, if_neg (not_or.mpr ⟨hid, hignore⟩), if_neg (not_or.mpr ⟨hid, hignore⟩), if_pos ⟨hjunction, hexpand⟩,
    if_pos ⟨hjunction, hexpand⟩, mainCells_flatMap, mainCells_flatMap] at h
  intro v hv
  have hlength := length_le_of_flatMap (mainCells_expandedDue_le property.1) h v hv
  rw [expandedDue, mainCells_append, List.length_append] at hlength
  by_contra hcarried
  have hcells : 0 < (cells krate (.direct property.1, v)).length := by
    rw [cells]
    cases bareReference v <;> simp
  have hmain : mainCells krate config wide [(.direct property.1, v)] = cells krate (.direct property.1, v) := by
    simp [mainCells, mainValues, Path.name, hjunction]
  rw [if_neg hcarried, hmain] at hlength
  omega

theorem due_eq_kept (h : property.1 ≠ "@id" → property.1 ∉ config.ignoreProps → isJunction config wide property.1 = false →
    property.1 ∈ config.expandProps → ∀ v ∈ asList property.2, carried krate v = true) :
    due krate config wide property = kept krate config wide property := by
  rw [due, kept]
  split
  · rfl
  · rename_i hskip
    obtain ⟨hid, hignore⟩ := not_or.mp hskip
    split
    · rename_i hexpand
      apply List.flatMap_congr
      intro v hv
      rw [expandedDue, if_pos (h hid hignore hexpand.1 hexpand.2 v hv), List.append_nil]
    · rfl

/-- The values for companion tables are written in any case. -/
theorem companionValues_due (name : String) (entity : Entity) :
    companionValues config wide name (dueOf krate config wide entity) =
      companionValues config wide name (keptOf krate config wide entity) := by
  rw [companionValues, companionValues, dueOf, keptOf, List.filter_flatMap, List.filter_flatMap]
  apply List.flatMap_congr
  intro property _
  rw [due, kept]
  split
  · rfl
  · split
    · rename_i hexpand
      rw [List.filter_flatMap, List.filter_flatMap]
      apply List.flatMap_congr
      intro v _
      rw [expandedDue, List.filter_append]
      cases carried krate v with
      | true => exact List.append_nil _
      | false => simp [Path.name, hexpand.1]
    · rfl

theorem proper_of_kept {x : Path × Json} (h : x ∈ kept krate config wide property) : x.1.Proper := by
  rw [kept] at h
  split at h
  · cases h
  · rename_i hskip
    obtain ⟨hid, -⟩ := not_or.mp hskip
    split at h
    · obtain ⟨v, -, hx⟩ := List.mem_flatMap.mp h
      obtain ⟨t, -, hx⟩ := List.mem_flatMap.mp hx
      split at hx
      · cases hx
      · rename_i htarget
        obtain ⟨w, -, rfl⟩ := List.mem_map.mp hx
        exact ⟨hid, (not_or.mp htarget).1⟩
    · obtain ⟨w, -, rfl⟩ := List.mem_map.mp h
      exact hid

end Kept

section Rows

open Classical in
/-- The origin of a column, told by the text that is recorded for it. -/
noncomputable def originOf (origins : Map String String) (column : String) : Origin :=
  if h : ∃ o : Origin, o.Proper ∧ origins.get? column = some o.text ∧ ∃ suffix, column = columnName o.base suffix then h.choose
  else .identifier

theorem originOf_eq {origins : Map String String} {cell : String × Json} {v : Origin × Json} (h : Holds origins cell v)
    (hproper : v.1.Proper) : originOf origins cell.1 = v.1 := by
  obtain ⟨-, hrecorded, hname⟩ := h
  have hex : ∃ o : Origin, o.Proper ∧ origins.get? cell.1 = some o.text ∧ ∃ suffix, cell.1 = columnName o.base suffix :=
    ⟨v.1, hproper, hrecorded, hname⟩
  rw [originOf, dif_pos hex]
  obtain ⟨hchosen, htext, suffix, hchosenName⟩ := hex.choose_spec
  obtain ⟨suffix', hname⟩ := hname
  obtain ⟨rest, hrest⟩ := columnName_eq hex.choose.base suffix
  obtain ⟨rest', hrest'⟩ := columnName_eq v.1.base suffix'
  refine Origin.origin_unique hchosen hproper (Option.some.inj (htext.symm.trans hrecorded)) (r := rest) (s := rest') ?_
  rw [← hrest, ← hrest', ← hchosenName, ← hname]

theorem map_originOf {origins : Map String String} {row : Row} {values : List (Origin × Json)}
    (h : List.Forall₂ (Holds origins) row values) (hproper : ∀ v ∈ values, v.1.Proper) :
    row.map (fun c => (originOf origins c.1, c.2)) = values := by
  induction h with
  | nil => rfl
  | cons hcell _ ih =>
      obtain ⟨hv, hvs⟩ := List.forall_mem_cons.mp hproper
      rw [List.map_cons, ih hvs, originOf_eq hcell hv, hcell.1]

theorem recorded_of_holds {origins : Map String String} {row : Row} {values : List (Origin × Json)}
    (h : List.Forall₂ (Holds origins) row values) (hproper : ∀ v ∈ values, v.1.Proper) :
    ∀ c ∈ row, origins.get? c.1 = some (originOf origins c.1).text := by
  intro c hc
  obtain ⟨v, hv, hcell⟩ := forall₂_mem_left h hc
  rw [originOf_eq hcell (hproper v hv)]
  exact hcell.2.1

theorem proper_of_cells {values : List (Path × Json)} (h : ∀ x ∈ values, x.1.Proper) :
    ∀ v ∈ mainCells krate config wide values, v.1.Proper := by
  intro v hv
  obtain ⟨x, hx, hv⟩ := List.mem_flatMap.mp hv
  have hproper := h x (List.mem_of_mem_filter hx)
  rw [cells] at hv
  split at hv
  · simp only [List.mem_cons, List.not_mem_nil, or_false] at hv
    rcases hv with rfl | rfl <;> exact hproper
  · rw [List.mem_singleton.mp hv]
    exact hproper

theorem mem_columns {keys initial : List String} {key : String} (h : key ∈ initial ∨ key ∈ keys) :
    key ∈ keys.foldl (fun columns key => if key ∈ columns then columns else columns ++ [key]) initial := by
  induction keys generalizing initial with
  | nil => exact h.resolve_right (fun hmem => nomatch hmem)
  | cons k keys ih =>
      rw [List.foldl_cons]
      apply ih
      by_cases hk : k ∈ initial
      · rw [if_pos hk]
        rcases h with h | h
        · exact .inl h
        · rcases List.mem_cons.mp h with rfl | h
          · exact .inl hk
          · exact .inr h
      · rw [if_neg hk]
        rcases h with h | h
        · exact .inl (List.mem_append_left _ h)
        · rcases List.mem_cons.mp h with rfl | h
          · exact .inl (List.mem_append_right _ List.mem_cons_self)
          · exact .inr h

theorem rows_lossless {entities : List (String × Entity)} {b : Builder} {rows : List Row}
    (h : Filled krate config wide entities (b, rows))
    (hdue : ∀ e ∈ entities, dueOf krate config wide e.2 = keptOf krate config wide e.2) :
    List.Forall₂ (RowLossless krate config wide b.origins (originOf b.origins) (mainTable kind b rows).columns) entities rows := by
  have hcolumns : ∀ row ∈ rows, ∀ c ∈ row, c.1 ∈ (mainTable kind b rows).columns := by
    intro row hrow c hc
    exact mem_columns (.inr (List.mem_flatMap.mpr ⟨row, hrow, List.mem_map.mpr ⟨c, hc, rfl⟩⟩))
  have hboth := (List.forall₂_and_left _ _).mpr ⟨hcolumns, ((List.forall₂_and_left _ _).mpr ⟨hdue, h.rows⟩).flip⟩
  refine hboth.flip.imp ?_
  rintro e row ⟨hcolumn, hsame, hholds⟩
  have hproper : ∀ v ∈ (Origin.identifier, Json.str e.1) :: mainCells krate config wide (keptOf krate config wide e.2), v.1.Proper := by
    refine List.forall_mem_cons.mpr ⟨trivial, proper_of_cells ?_⟩
    intro x hx
    obtain ⟨property, -, hx⟩ := List.mem_flatMap.mp hx
    exact proper_of_kept hx
  refine ⟨hholds.1, hcolumn, recorded_of_holds hholds.2 hproper, ?_⟩
  rw [map_originOf hholds.2 hproper, hsame]
  exact .refl _

/-- A row that has all that is due in it is as long as what is written. -/
theorem length_of_rows {entities : List (String × Entity)} {b : Builder} {rows : List Row} {origins : Map String String}
    {origin : String → Origin} {columns : List String} (h : Filled krate config wide entities (b, rows))
    (hrows : List.Forall₂ (RowLossless krate config wide origins origin columns) entities rows) :
    ∀ e ∈ entities, (mainCells krate config wide (dueOf krate config wide e.2)).length ≤
      (mainCells krate config wide (keptOf krate config wide e.2)).length := by
  obtain ⟨hholds, -, -, -⟩ := h
  generalize b.origins = recorded at hholds
  induction hrows with
  | nil => exact List.forall_mem_nil _
  | cons hrow _ ih =>
      cases hholds with
      | cons hhead htail =>
          refine List.forall_mem_cons.mpr ⟨?_, ih htail⟩
          have hdue := hrow.cells.length_eq
          have hkept := hhead.2.length_eq
          simp only [List.length_map, List.length_cons] at hdue hkept
          rw [mainCells, mainCells]
          rw [mainCells] at hdue
          omega

end Rows

section Companions

variable {p : Path} {e : String × Entity} {x : Path × Json}

theorem mem_companionValues {name : String} {values : List (Path × Json)} :
    x ∈ companionValues config wide name values ↔ x ∈ values ∧ isJunction config wide x.1.name = true ∧ x.1.name = name := by
  rw [companionValues, List.mem_filter, decide_eq_true_eq]

theorem exists_of_numbered {id : String} {values : List (Path × Json)} {r : CompanionRow} (h : r ∈ numbered krate id values) :
    ∃ x, x ∈ values := by
  obtain ⟨i, hi, -⟩ := List.mem_mapIdx.mp h
  exact ⟨_, List.getElem_mem hi⟩

theorem pathRows_le (hjunction : isJunction config wide p.name = true) (e : String × Entity) :
    (pathRows krate config wide p e).length ≤
      (numbered krate e.1 (companionValues config wide p.name (keptOf krate config wide e.2))).length := by
  rw [← companionValues_due, pathRows, length_numbered, length_numbered]
  refine (List.monotone_filter_right _ fun x hx => ?_).length_le
  obtain rfl := of_decide_eq_true hx
  exact decide_eq_true ⟨hjunction, rfl⟩

theorem pathRows_eq (hjunction : isJunction config wide p.name = true)
    (hone : ∀ x ∈ dueOf krate config wide e.2, x.1.name = p.name → x.1 = p) :
    pathRows krate config wide p e =
      numbered krate e.1 (companionValues config wide p.name (keptOf krate config wide e.2)) := by
  rw [← companionValues_due, pathRows, companionValues]
  refine congrArg (numbered krate e.1) (List.filter_congr fun x hx => ?_)
  apply decide_eq_decide.mpr
  constructor
  · rintro rfl
    exact ⟨hjunction, rfl⟩
  · rintro ⟨-, hname⟩
    exact hone x hx hname

/-- Where a path has as many rows as its name, it is the only path of that name. -/
theorem path_of_length (hjunction : isJunction config wide p.name = true)
    (hlength : (numbered krate e.1 (companionValues config wide p.name (keptOf krate config wide e.2))).length ≤
      (pathRows krate config wide p e).length)
    (hx : x ∈ dueOf krate config wide e.2) (hname : x.1.name = p.name) : x.1 = p := by
  rw [← companionValues_due, pathRows, length_numbered, length_numbered] at hlength
  have hsublist : ((dueOf krate config wide e.2).filter fun x => x.1 = p).Sublist
      (companionValues config wide p.name (dueOf krate config wide e.2)) := by
    refine List.monotone_filter_right _ fun x hx => ?_
    obtain rfl := of_decide_eq_true hx
    exact decide_eq_true ⟨hjunction, rfl⟩
  have hsame := hsublist.eq_of_length_le hlength
  have hmem : x ∈ companionValues config wide p.name (dueOf krate config wide e.2) :=
    mem_companionValues.mpr ⟨hx, hname ▸ hjunction, hname⟩
  rw [← hsame] at hmem
  exact of_decide_eq_true (List.mem_filter.mp hmem).2

end Companions

/-- The tables of one type among all tables that are put out. -/
structure Produced (krate : RoCrate) (config : TableConfig) (kind : String) (output : List Table) (b : Builder)
    (rows : List Row) : Prop where
  filled : Filled krate config (wideOf krate config kind) (tabulated krate kind) (b, rows)
  main : mainTable kind b rows ∈ output
  companions : ∀ c ∈ b.companions, companionTable kind c ∈ output
  only : ∀ t ∈ output, t.entityType = kind → t = mainTable kind b rows ∨ ∃ c ∈ b.companions, t = companionTable kind c

section Produced

variable {output : List Table} {b : Builder} {rows : List Row}

theorem Produced.expandable (h : Produced krate config kind output b rows) (hlossless : Lossless krate config kind output) :
    Expandable krate config kind := by
  obtain ⟨t, ht, htype, origins, hkind, origin, hrows⟩ := hlossless.main
  have hmain : t = mainTable kind b rows := by
    rcases h.only t ht htype with rfl | ⟨c, -, rfl⟩
    · rfl
    · cases hkind
  subst hmain
  intro e he property hproperty hid hignore hjunction hexpand
  have hlength := length_of_rows h.filled hrows e he
  rw [dueOf, keptOf, mainCells_flatMap, mainCells_flatMap] at hlength
  have hle := length_le_of_flatMap mainCells_kept_le hlength property hproperty
  exact carried_of_length hle hid hignore hjunction hexpand

/-- A name with a value for a companion table has one, with the rows of all its values. -/
theorem Produced.companion (h : Produced krate config kind output b rows) {e : String × Entity} (he : e ∈ tabulated krate kind)
    {x : Path × Json} (hx : x ∈ dueOf krate config (wideOf krate config kind) e.2)
    (hjunction : isJunction config (wideOf krate config kind) x.1.name = true) :
    ∃ c ∈ b.companions, c.1 = x.1.name ∧ c.2 = (tabulated krate kind).flatMap fun e =>
      numbered krate e.1 (companionValues config (wideOf krate config kind) x.1.name (keptOf krate config (wideOf krate config kind) e.2)) := by
  have hrows := h.filled.companion x.1.name
  refine ⟨_, @Entries.exists_of_key _ _ _ [] _ _ h.filled.keys ?_, rfl, hrows⟩
  by_contra hkey
  have hempty := hrows.symm.trans (Entries.value_of_not_key hkey)
  have hnumbered := List.flatMap_eq_nil_iff.mp hempty e he
  have hmem : x ∈ companionValues config (wideOf krate config kind) x.1.name (dueOf krate config (wideOf krate config kind) e.2) :=
    mem_companionValues.mpr ⟨hx, hjunction, rfl⟩
  rw [companionValues_due] at hmem
  have hlength := congrArg List.length hnumbered
  rw [length_numbered, List.length_nil, List.length_eq_zero_iff] at hlength
  rw [hlength] at hmem
  cases hmem

theorem Produced.separate (h : Produced krate config kind output b rows) (hlossless : Lossless krate config kind output) :
    Separate krate config kind := by
  intro e he x hx e' he' x' hx' hjunction hname
  obtain ⟨⟨name, companion⟩, hc, hcname, hcrows⟩ := h.companion he hx hjunction
  simp only at hcname hcrows
  subst hcname
  obtain ⟨p, hp, hrows⟩ := hlossless.unmixed _ (h.companions _ hc) rfl x.1.name rfl
  have hlengths := congrArg List.length hrows
  simp only [companionTable, fromRowsWithColumns, companionOf, List.length_map, hcrows, ← hp] at hlengths
  have hpath : ∀ d ∈ tabulated krate kind, ∀ y ∈ dueOf krate config (wideOf krate config kind) d.2, y.1.name = p.name → y.1 = p := by
    intro d hd y hy hyname
    have hpjunction : isJunction config (wideOf krate config kind) p.name = true := hp ▸ hjunction
    exact path_of_length hpjunction (length_le_of_flatMap (pathRows_le hpjunction) hlengths.le d hd) hy hyname
  rw [hpath e he x hx hp.symm, hpath e' he' x' hx' (hname.symm.trans hp.symm)]

theorem Produced.companionOf_eq (h : Separate krate config kind) {e : String × Entity} (he : e ∈ tabulated krate kind)
    {x : Path × Json} (hx : x ∈ dueOf krate config (wideOf krate config kind) e.2)
    (hjunction : isJunction config (wideOf krate config kind) x.1.name = true) :
    companionOf krate config kind x.1 = ((tabulated krate kind).flatMap fun e => numbered krate e.1
      (companionValues config (wideOf krate config kind) x.1.name (keptOf krate config (wideOf krate config kind) e.2))).map
        CompanionRow.toRow := by
  rw [companionOf]
  refine congrArg (List.map CompanionRow.toRow) (List.flatMap_congr fun d hd => ?_)
  exact pathRows_eq hjunction fun y hy hname => (h e he x hx d hd y hy hjunction hname.symm).symm

theorem Produced.lossless (h : Produced krate config kind output b rows) (hexpandable : Expandable krate config kind)
    (hseparate : Separate krate config kind) : Lossless krate config kind output := by
  have hdue : ∀ e ∈ tabulated krate kind,
      dueOf krate config (wideOf krate config kind) e.2 = keptOf krate config (wideOf krate config kind) e.2 := by
    intro e he
    exact List.flatMap_congr fun property hproperty => due_eq_kept (hexpandable e he property hproperty)
  refine ⟨⟨_, h.main, rfl, _, rfl, _, rows_lossless h.filled hdue⟩, ?_, ?_⟩
  · intro t ht htype property hkind
    rcases h.only t ht htype with rfl | ⟨c, hc, rfl⟩
    · cases hkind
    · cases hkind
      have hrows : c.2 = _ := (@Entries.value_of_mem _ _ _ [] _ _ h.filled.keys _ hc).symm.trans (h.filled.companion c.1)
      obtain ⟨r, hr⟩ := List.exists_mem_of_ne_nil _ (h.filled.filled c hc)
      rw [hrows] at hr
      obtain ⟨e, he, hr⟩ := List.mem_flatMap.mp hr
      obtain ⟨x, hmem⟩ := exists_of_numbered hr
      rw [← companionValues_due] at hmem
      obtain ⟨hx, hjunction, hname⟩ := mem_companionValues.mp hmem
      refine ⟨_, hname, ?_⟩
      rw [Produced.companionOf_eq hseparate he hx hjunction, hname, ← hrows]
      rfl
  · intro e he x hx hjunction
    obtain ⟨⟨name, companion⟩, hc, hcname, hcrows⟩ := h.companion he hx hjunction
    simp only at hcname hcrows
    subst hcname
    refine ⟨_, h.companions _ hc, rfl, rfl, ?_⟩
    rw [Produced.companionOf_eq hseparate he hx hjunction, ← hcrows]
    rfl

end Produced

section Convert

variable {config : Config} {output : List Table}

theorem tablesOf_filled {config : TableConfig} {tables : List Table} (h : tablesOf krate config false kind = .ok tables) :
    ∃ b rows, tables = mainTable kind b rows :: b.companions.map (companionTable kind) ∧
      Filled krate config (wideOf krate config kind) (tabulated krate kind) (b, rows) := by
  simp only [tablesOf, Bool.false_and, Bool.false_eq_true, if_false] at h
  obtain ⟨⟨b, rows⟩, hfold, hrest⟩ := bind_eq_ok.mp h
  cases hrest
  refine ⟨b, rows, rfl, rows_filled ?_ ?_ hfold⟩
  · exact krate.distinct.sublist (List.filter_sublist.map _)
  · exact fun e he => krate.identified e (List.mem_of_mem_filter he)

theorem insertTables {before after tables : List Table} (h : tables.foldlM insertTable before = .ok after)
    (hnodup : (before.map Table.name).Nodup) : after = before ++ tables ∧ (after.map Table.name).Nodup := by
  refine foldlM_relates (fun done after => after = before ++ done ∧ (after.map Table.name).Nodup) h ?_ ?_
  · exact ⟨(List.append_nil _).symm, hnodup⟩
  · rintro done table s t - ⟨rfl, hs⟩ hinsert
    obtain ⟨hnew, hinsert⟩ := guard_eq_ok.mp hinsert
    cases hinsert
    refine ⟨List.append_assoc _ _ _, ?_⟩
    rw [List.map_append]
    refine List.nodup_append.mpr ⟨hs, List.nodup_singleton _, ?_⟩
    rintro a ha b hb rfl
    have heq : a = table.name := List.mem_singleton.mp hb
    exact hnew (heq ▸ ha)

/-- The tables of the types of a configuration, one list for each. -/
def Parts (krate : RoCrate) (tables : List (String × TableConfig)) (parts : List (List Table)) : Prop :=
  List.Forall₂ (fun table part => tablesOf krate table.2 false table.1 = .ok part) tables parts

theorem convert_parts (h : convert krate config false = .ok output) :
    ∃ parts, Parts krate config.tables parts ∧ output = parts.flatten ∧ (output.map Table.name).Nodup := by
  rw [convert, guard_eq_ok] at h
  obtain ⟨-, hfold⟩ := h
  refine foldlM_relates (fun done output =>
    ∃ parts, Parts krate done parts ∧ output = parts.flatten ∧ (output.map Table.name).Nodup) hfold ?_ ?_
  · exact ⟨[], .nil, rfl, List.nodup_nil⟩
  · intro done table s t _ hs hstep
    obtain ⟨parts, hparts, hflat, hnodup⟩ := hs
    obtain ⟨part, hpart, hinsert⟩ := bind_eq_ok.mp hstep
    obtain ⟨heq, ht⟩ := insertTables hinsert hnodup
    have hlast : Parts krate [table] [part] := .cons hpart .nil
    have hall : Parts krate (done ++ [table]) (parts ++ [part]) := List.rel_append hparts hlast
    exact ⟨parts ++ [part], hall, by rw [heq, hflat, List.flatten_concat], ht⟩

/-- The main tables alone have the names of the types. -/
theorem kinds_sublist {tables : List (String × TableConfig)} {parts : List (List Table)}
    (h : Parts krate tables parts) :
    (tables.map Prod.fst).Sublist (parts.flatten.map Table.name) := by
  induction h with
  | nil => exact List.nil_sublist _
  | cons hfirst _ ih =>
      obtain ⟨b, rows, rfl, -⟩ := tablesOf_filled hfirst
      rw [List.flatten_cons, List.cons_append, List.map_cons, List.map_cons, List.map_append]
      exact (ih.trans (List.sublist_append_right _ _)).cons_cons _

theorem convert_produced (h : convert krate config false = .ok output) :
    ∀ table ∈ config.tables, ∃ b rows, Produced krate table.2 table.1 output b rows := by
  obtain ⟨parts, hparts, rfl, hnodup⟩ := convert_parts h
  have hkinds := hnodup.sublist (kinds_sublist hparts)
  intro table htable
  obtain ⟨tables, hmem, htables⟩ := forall₂_mem_left hparts htable
  obtain ⟨b, rows, rfl, hfilled⟩ := tablesOf_filled htables
  refine ⟨b, rows, hfilled, ?_, fun c hc => ?_, fun t ht htype => ?_⟩
  · exact List.mem_flatten.mpr ⟨_, hmem, List.mem_cons_self⟩
  · exact List.mem_flatten.mpr ⟨_, hmem, List.mem_cons_of_mem _ (List.mem_map_of_mem hc)⟩
  · obtain ⟨others, hothers, ht⟩ := List.mem_flatten.mp ht
    obtain ⟨other, hother, hproduced⟩ := forall₂_mem_right hparts hothers
    obtain ⟨b', rows', rfl, -⟩ := tablesOf_filled hproduced
    have hkind : t.entityType = other.1 := by
      rcases List.mem_cons.mp ht with rfl | ht
      · rfl
      · obtain ⟨c, -, rfl⟩ := List.mem_map.mp ht
        rfl
    obtain rfl := List.inj_on_of_nodup_map hkinds hother htable (hkind.symm.trans htype)
    have hsame := Except.ok.inj (htables.symm.trans hproduced)
    rw [← hsame] at ht
    rcases List.mem_cons.mp ht with ht | ht
    · exact .inl ht
    · obtain ⟨c, hc, rfl⟩ := List.mem_map.mp ht
      exact .inr ⟨c, hc, rfl⟩

end Convert

section Samples

/-- A work whose author is known by name only, or by an entity and a name. -/
def sample (work : Entity) : RoCrate where
  entities := [("w", ("@id", .str "w") :: work), ("p", [("@id", .str "p"), ("name", .str "Jane")])]
  distinct := by simp
  identified := by
    intro e he
    simp only [List.mem_cons, List.not_mem_nil, or_false] at he
    rcases he with rfl | rfl <;> rfl

def anonymous : RoCrate := sample [("@type", .str "Work"), ("author", .str "Anonymous")]

def credited : RoCrate :=
  sample [("@type", .str "Work"), ("author", .obj [("@id", .str "p")]), ("author_name", .str "J. S.")]

def expanding (junctions : List String) : TableConfig := ⟨[], ["author"], junctions⟩

theorem exists_ok {ε α : Type} {x : Except ε α} (h : x.toOption.isSome = true) : ∃ a, x = .ok a := by
  obtain ⟨a, ha⟩ := Option.isSome_iff_exists.mp h
  exact ⟨a, toOption_eq_some.mp ha⟩

end Samples

end Wordflow.Crates
