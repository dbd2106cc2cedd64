import Mathlib.Data.List.FinRange
import Mathlib.Order.Bounds.Basic
import Mathlib.Order.Lattice
import Wordflow.Library.Fallible
import Wordflow.Sheets.Spreadsheet

namespace Wordflow.Sheets

open Library Library.Binary64 Library.Fallible Library.Identifier Objects Registry

inductive Value
  | date (days : Int)
  | int (v : Int)
  | float (v : F64)
  | bool (v : Bool)
  | timestamp (micros : Int)
  | text (v : String)
  deriving DecidableEq

def Column.values : Column → List (Option Value)
  | .date32 values => values.map (Option.map .date)
  | .int64 values => values.map (Option.map .int)
  | .float64 values => values.map (Option.map .float)
  | .boolean values => values.map (Option.map .bool)
  | .timestamp values => values.map (Option.map .timestamp)
  | .utf8 values => values.map (Option.map .text)

/-- All that is written of a column, over all batches. -/
def Output.written (output : Output) (column : Nat) : List (Option Value) :=
  output.batches.flatMap fun columns => columns[column]?.elim [] Column.values

/-- What a cell stands for; a datetime is known to the microsecond. -/
inductive Own (c : Calamine) : Data → Value → Prop
  | int (v : Int) : Own c (.int v) (.int v)
  | float (v : F64) : Own c (.float v) (.float v)
  | bool (v : Bool) : Own c (.bool v) (.bool v)
  | string (v : String) : Own c (.string v) (.text v)
  | date {v : String} {d : NaiveDate} (hdatetime : c.asDatetime (.dateTimeIso v) = none)
      (hdate : c.asDate (.dateTimeIso v) = some d) : Own c (.dateTimeIso v) (.date d.days)
  | serial {v : ExcelDateTime} {t : NaiveDateTime} {micros : Int} (hduration : v.isDuration = false)
      (hdatetime : c.asDatetime (.dateTime v) = some t) (hlow : micros * 1000 ≤ t.timestamp * 1000000000 + t.nanos)
      (hhigh : t.timestamp * 1000000000 + t.nanos < (micros + 1) * 1000) : Own c (.dateTime v) (.timestamp micros)
  | iso {v : String} {t : NaiveDateTime} {micros : Int} (hdatetime : c.asDatetime (.dateTimeIso v) = some t)
      (hlow : micros * 1000 ≤ t.timestamp * 1000000000 + t.nanos)
      (hhigh : t.timestamp * 1000000000 + t.nanos < (micros + 1) * 1000) : Own c (.dateTimeIso v) (.timestamp micros)
  | other {cell : Data} (hkind : kind c cell = some .utf8) : Own c cell (.text (cellText c cell))

/-- All cells that are not empty have one kind. -/
def OneKind (c : Calamine) (cells : List Data) : Prop := ∃ k, ∀ cell ∈ cells, cell ≠ .empty → kind c cell = some k

/-- Integers and floats, and nothing else. -/
def MixesNumbers (cells : List Data) : Prop :=
  (∀ cell ∈ cells, cell ≠ .empty → (∃ v, cell = .int v) ∨ ∃ v, cell = .float v) ∧
    (∃ v, .int v ∈ cells) ∧ ∃ v, .float v ∈ cells

/-- How a cell is stored in a column. -/
structure Stored (c : Calamine) (cells : List Data) (cell : Data) (value : Option Value) : Prop where
  null : value = none ↔ cell = .empty
  own : OneKind c cells → cell ≠ .empty → ∃ v, value = some v ∧ Own c cell v
  float : MixesNumbers cells → ∀ v, cell = .float v → value = some (.float v)
  int : MixesNumbers cells → ∀ v, cell = .int v → ∃ f, value = some (.float f) ∧
    (v.natAbs ≤ 2 ^ 53 → Binary64.value f = some (v : ℚ))
  text : ¬OneKind c cells → ¬MixesNumbers cells → cell ≠ .empty → value = some (.text (cellText c cell))

section Kinds

instance : Max DataType := ⟨promote⟩

/-- The types ordered by what can be stored in them. -/
instance : SemilatticeSup DataType := SemilatticeSup.mk'
  (fun a b => by cases a <;> cases b <;> rfl)
  (fun a b d => by cases a <;> cases b <;> cases d <;> rfl)
  (fun a => if_pos rfl)

instance : DecidableLE DataType := fun a b => inferInstanceAs (Decidable (promote a b = b))

variable {kinds : List DataType} {t k : DataType}

theorem le_cases (h : k ≤ t) : k = t ∨ t = .utf8 ∨ k = .int64 ∧ t = .float64 := by
  revert h
  cases k <;> cases t <;> decide

theorem isLUB_foldl (k : DataType) (kinds : List DataType) : IsLUB {x | x ∈ k :: kinds} (kinds.foldl promote k) := by
  induction kinds generalizing k with
  | nil =>
      have hset : {x | x ∈ [k]} = {k} := by
        ext x
        exact List.mem_singleton
      rw [hset]
      exact isLUB_singleton
  | cons a kinds ih =>
      refine (isLUB_congr ?_).mp (ih (promote k a))
      ext u
      simp only [mem_upperBounds, Set.mem_ofPred_eq, List.mem_cons, forall_eq_or_imp, ← and_assoc]
      exact and_congr_left fun _ => sup_le_iff

/-- The inferred type is the least one that all kinds of the column can be stored in. -/
theorem exists_reduce (hk : k ∈ kinds) : ∃ t, reduce promote kinds = some t ∧ IsLUB {x | x ∈ kinds} t := by
  cases kinds with
  | nil => cases hk
  | cons a kinds => exact ⟨_, rfl, isLUB_foldl a kinds⟩

theorem reduce_eq (hk : k ∈ kinds) (h : IsLUB {x | x ∈ kinds} t) : reduce promote kinds = some t := by
  obtain ⟨u, hreduce, hlub⟩ := exists_reduce hk
  rw [hreduce, hlub.unique h]

theorem reduce_perm {others : List DataType} (h : kinds.Perm others) : reduce promote kinds = reduce promote others := by
  cases kinds with
  | nil => rw [h.nil_eq]
  | cons k kinds =>
      obtain ⟨t, hreduce, hlub⟩ := @exists_reduce (k :: kinds) k List.mem_cons_self
      have hset : {x | x ∈ k :: kinds} = {x | x ∈ others} := by
        ext x
        exact h.mem_iff
      rw [hset] at hlub
      rw [hreduce, reduce_eq (h.mem_iff.mp List.mem_cons_self) hlub]

theorem reduce_one (hk : k ∈ kinds) (h : ∀ x ∈ kinds, x = k) : reduce promote kinds = some k := by
  apply reduce_eq hk
  have hset : {x | x ∈ kinds} = {k} := by
    ext x
    exact ⟨fun hx => h x hx, fun hx => hx ▸ hk⟩
  rw [hset]
  exact isLUB_singleton

theorem reduce_numbers (hint : .int64 ∈ kinds) (hfloat : .float64 ∈ kinds)
    (h : ∀ x ∈ kinds, x = .int64 ∨ x = .float64) : reduce promote kinds = some .float64 := by
  apply reduce_eq hint
  refine ⟨?_, fun u hu => hu hfloat⟩
  intro x hx
  rcases h x hx with rfl | rfl <;> decide

theorem reduce_mixed (hk : k ∈ kinds) (hone : ¬∃ t, ∀ x ∈ kinds, x = t)
    (hnumbers : ¬((∀ x ∈ kinds, x = .int64 ∨ x = .float64) ∧ .int64 ∈ kinds ∧ .float64 ∈ kinds)) :
    reduce promote kinds = some .utf8 := by
  obtain ⟨t, hreduce, hlub⟩ := exists_reduce hk
  have hcases : ∀ x ∈ kinds, x = t ∨ t = .utf8 ∨ x = .int64 ∧ t = .float64 := fun x hx => le_cases (hlub.1 hx)
  rw [hreduce]
  by_contra hne
  have htext : t ≠ .utf8 := fun heq => hne (heq ▸ rfl)
  by_cases hfloat : t = .float64
  · subst hfloat
    have hall : ∀ x ∈ kinds, x = .int64 ∨ x = .float64 := by
      intro x hx
      rcases hcases x hx with heq | hu | ⟨heq, -⟩
      · exact .inr heq
      · exact absurd hu htext
      · exact .inl heq
    by_cases hint : .int64 ∈ kinds
    · -- Without a float the integers would have sufficed.
      have hmissing : .float64 ∉ kinds := fun hin => hnumbers ⟨hall, hint, hin⟩
      exact hone ⟨.int64, fun x hx => (hall x hx).resolve_right fun heq => hmissing (heq ▸ hx)⟩
    · exact hone ⟨.float64, fun x hx => (hall x hx).resolve_left fun heq => hint (heq ▸ hx)⟩
  · refine hone ⟨t, fun x hx => ?_⟩
    rcases hcases x hx with heq | hu | ⟨-, hf⟩
    · exact heq
    · exact absurd hu htext
    · exact absurd hf hfloat

end Kinds

section Cells

variable {c : Calamine} {cells : List Data} {cell : Data} {k : DataType}

/-- The value of a cell in a column of a type. -/
def store (c : Calamine) (dataType : DataType) (cell : Data) : Option Value :=
  match dataType with
  | .date32 => (c.asDate cell).map fun d => .date d.days
  | .int64 => (int? cell).map .int
  | .float64 => (float? cell).map .float
  | .boolean => (bool? cell).map .bool
  | .timestamp => (datetime c cell).map .timestamp
  | .utf8 => (text? c cell).map .text

theorem toColumn_values (c : Calamine) (dataType : DataType) (cells : List Data) :
    (toColumn c dataType cells).values = cells.map (store c dataType) := by
  cases dataType <;> simp only [toColumn, Column.values, List.map_map] <;> apply List.map_congr_left <;> intro cell _
  case date32 => exact Option.map_map _ _ _
  all_goals rfl

theorem kind_eq_none : kind c cell = none ↔ cell = .empty := by
  cases cell <;> simp only [kind, reduceCtorEq]
  case dateTime => split <;> simp
  case dateTimeIso => split_ifs <;> simp

theorem datetime_empty (c : Calamine) : datetime c .empty = none := by
  rw [datetime, c.asDatetime_empty, Option.map_none]
  · nofun

theorem store_empty (c : Calamine) (dataType : DataType) : store c dataType .empty = none := by
  cases dataType
  case date32 => rw [store, c.asDate_empty, Option.map_none]
  case timestamp => rw [store, datetime_empty, Option.map_none]
  all_goals rfl

theorem store_utf8 (h : cell ≠ .empty) : store c .utf8 cell = some (.text (cellText c cell)) := by
  rw [store, text?, if_neg h, Option.map_some]

theorem timestampMicros_bounds (t : NaiveDateTime) :
    t.timestampMicros * 1000 ≤ t.timestamp * 1000000000 + t.nanos ∧
      t.timestamp * 1000000000 + t.nanos < (t.timestampMicros + 1) * 1000 := by
  rw [NaiveDateTime.timestampMicros]
  omega

/-- A cell is stored in a column of its own kind. -/
theorem store_kind (h : kind c cell = some k) : ∃ v, store c k cell = some v ∧ Own c cell v := by
  cases cell with
  | int v =>
      cases h
      exact ⟨.int v, rfl, .int v⟩
  | float v =>
      cases h
      exact ⟨.float v, rfl, .float v⟩
  | bool v =>
      cases h
      exact ⟨.bool v, rfl, .bool v⟩
  | string v =>
      cases h
      refine ⟨.text v, ?_, .string v⟩
      rw [store_utf8 Data.noConfusion]
      exact congrArg (fun text => some (Value.text text)) (c.toText_string v)
  | dateTime v =>
      have hkind := h
      rw [kind] at h
      split at h
      · rename_i hdatetime
        cases h
        obtain ⟨micros, hmicros⟩ := Option.ne_none_iff_exists'.mp hdatetime
        refine ⟨.timestamp micros, by rw [store, hmicros, Option.map_some], ?_⟩
        rw [datetime] at hmicros
        split at hmicros
        · cases hmicros
        · rename_i hduration
          obtain ⟨t, ht, rfl⟩ := Option.map_eq_some_iff.mp hmicros
          obtain ⟨hlow, hhigh⟩ := timestampMicros_bounds t
          exact .serial (Bool.eq_false_iff.mpr hduration) ht hlow hhigh
      · cases h
        exact ⟨_, store_utf8 Data.noConfusion, .other hkind⟩
  | dateTimeIso v =>
      have hkind := h
      have hread : datetime c (.dateTimeIso v) = (c.asDatetime (.dateTimeIso v)).map NaiveDateTime.timestampMicros := rfl
      rw [kind, hread] at h
      split at h
      · rename_i hdate
        cases h
        obtain ⟨hnone, hdate⟩ := hdate
        obtain ⟨d, hd⟩ := Option.ne_none_iff_exists'.mp hdate
        exact ⟨.date d.days, by rw [store, hd, Option.map_some], .date (Option.map_eq_none_iff.mp hnone) hd⟩
      · split at h
        · rename_i hdatetime
          cases h
          obtain ⟨micros, hmicros⟩ := Option.ne_none_iff_exists'.mp hdatetime
          refine ⟨.timestamp micros, by rw [store, hread, hmicros, Option.map_some], ?_⟩
          obtain ⟨t, ht, rfl⟩ := Option.map_eq_some_iff.mp hmicros
          obtain ⟨hlow, hhigh⟩ := timestampMicros_bounds t
          exact .iso ht hlow hhigh
        · cases h
          exact ⟨_, store_utf8 Data.noConfusion, .other hkind⟩
  | durationIso v =>
      have hkind := h
      cases h
      exact ⟨_, store_utf8 Data.noConfusion, .other hkind⟩
  | error v =>
      have hkind := h
      cases h
      exact ⟨_, store_utf8 Data.noConfusion, .other hkind⟩
  | empty => cases h

theorem kind_int {v : Int} : kind c (.int v) = some .int64 := rfl

theorem kind_float {v : F64} : kind c (.float v) = some .float64 := rfl

theorem kind_eq_int (h : kind c cell = some .int64) : ∃ v, cell = .int v := by
  cases cell <;> simp only [kind, reduceCtorEq, Option.some.injEq] at h
  case int v => exact ⟨v, rfl⟩
  case dateTime => split at h <;> cases h
  case dateTimeIso => split_ifs at h <;> cases h

theorem kind_eq_float (h : kind c cell = some .float64) : ∃ v, cell = .float v := by
  cases cell <;> simp only [kind, reduceCtorEq, Option.some.injEq] at h
  case float v => exact ⟨v, rfl⟩
  case dateTime => split at h <;> cases h
  case dateTimeIso => split_ifs at h <;> cases h

theorem mem_kinds : k ∈ cells.filterMap (kind c) ↔ ∃ cell ∈ cells, kind c cell = some k := List.mem_filterMap

/-- The kinds of a column that mixes numbers. -/
theorem mixesNumbers_kinds : MixesNumbers cells ↔
    (∀ k ∈ cells.filterMap (kind c), k = .int64 ∨ k = .float64) ∧ .int64 ∈ cells.filterMap (kind c) ∧
      .float64 ∈ cells.filterMap (kind c) := by
  simp only [mem_kinds]
  constructor
  · rintro ⟨hall, ⟨i, hi⟩, f, hf⟩
    refine ⟨?_, ⟨_, hi, kind_int⟩, _, hf, kind_float⟩
    rintro k ⟨cell, hcell, hkind⟩
    have hne : cell ≠ .empty := fun heq => by rw [kind_eq_none.mpr heq] at hkind; cases hkind
    rcases hall cell hcell hne with ⟨v, rfl⟩ | ⟨v, rfl⟩
    · cases hkind
      exact .inl rfl
    · cases hkind
      exact .inr rfl
  · rintro ⟨hall, ⟨x, hx, hi⟩, y, hy, hf⟩
    obtain ⟨i, rfl⟩ := kind_eq_int hi
    obtain ⟨f, rfl⟩ := kind_eq_float hf
    refine ⟨?_, ⟨i, hx⟩, f, hy⟩
    intro cell hcell hne
    obtain ⟨k, hk⟩ := Option.ne_none_iff_exists'.mp fun hnone => hne (kind_eq_none.mp hnone)
    rcases hall k ⟨cell, hcell, hk⟩ with rfl | rfl
    · exact .inl (kind_eq_int hk)
    · exact .inr (kind_eq_float hk)

theorem oneKind_kinds : OneKind c cells ↔ ∃ k, ∀ x ∈ cells.filterMap (kind c), x = k := by
  simp only [mem_kinds]
  constructor
  · rintro ⟨k, hk⟩
    refine ⟨k, ?_⟩
    rintro x ⟨cell, hcell, hkind⟩
    have hne : cell ≠ .empty := fun heq => by rw [kind_eq_none.mpr heq] at hkind; cases hkind
    rw [hk cell hcell hne] at hkind
    exact (Option.some_inj.mp hkind).symm
  · rintro ⟨k, hk⟩
    refine ⟨k, fun cell hcell hne => ?_⟩
    obtain ⟨x, hx⟩ := Option.ne_none_iff_exists'.mp fun hnone => hne (kind_eq_none.mp hnone)
    rw [hx, hk x ⟨cell, hcell, hx⟩]

/-- The conversion of a column keeps each of its cells. -/
theorem store_inferred (h : cell ∈ cells) : Stored c cells cell (store c (inferred c cells) cell) := by
  by_cases hempty : cell = .empty
  · subst hempty
    refine ⟨⟨fun _ => rfl, fun _ => store_empty c _⟩, fun _ hne => absurd rfl hne, ?_, ?_, fun _ _ hne => absurd rfl hne⟩
    · rintro _ v ⟨⟩
    · rintro _ v ⟨⟩
  obtain ⟨k, hk⟩ := Option.ne_none_iff_exists'.mp fun hnone => hempty (kind_eq_none.mp hnone)
  have hmem : k ∈ cells.filterMap (kind c) := mem_kinds.mpr ⟨cell, h, hk⟩
  have hinferred : ∀ {t}, reduce promote (cells.filterMap (kind c)) = some t → inferred c cells = t := by
    intro t ht
    rw [inferred, ht, Option.getD_some]
  have hsome : ∀ v, store c (inferred c cells) cell = some v →
      (store c (inferred c cells) cell = none ↔ cell = .empty) := by
    intro v hv
    rw [hv]
    exact iff_of_false nofun hempty
  by_cases hone : OneKind c cells
  · obtain ⟨t, hall⟩ := oneKind_kinds.mp hone
    obtain rfl := hall k hmem
    have htype := hinferred (reduce_one hmem hall)
    obtain ⟨v, hv, hown⟩ := store_kind hk
    rw [htype] at hsome ⊢
    have hnot : ¬MixesNumbers cells := by
      intro hmixes
      obtain ⟨-, hint, hfloat⟩ := mixesNumbers_kinds.mp hmixes
      exact absurd ((hall _ hint).trans (hall _ hfloat).symm) (by decide)
    exact ⟨hsome v hv, fun _ _ => ⟨v, hv, hown⟩, fun hmixes => absurd hmixes hnot, fun hmixes => absurd hmixes hnot,
      fun hmany => absurd hone hmany⟩
  · by_cases hmixes : MixesNumbers cells
    · obtain ⟨hall, hint, hfloat⟩ := (@mixesNumbers_kinds c cells).mp hmixes
      rw [hinferred (reduce_numbers hint hfloat hall)] at hsome ⊢
      rcases hmixes.1 cell h hempty with ⟨i, rfl⟩ | ⟨f, rfl⟩
      · refine ⟨hsome _ rfl, fun hsame => absurd hsame hone, ?_, ?_, fun _ hnot => absurd hmixes hnot⟩
        · rintro _ v ⟨⟩
        · rintro _ v ⟨⟩
          exact ⟨ofInt i, rfl, ofInt_value⟩
      · refine ⟨hsome _ rfl, fun hsame => absurd hsame hone, ?_, ?_, fun _ hnot => absurd hmixes hnot⟩
        · rintro _ v ⟨⟩
          rfl
        · rintro _ v ⟨⟩
    · have htext := reduce_mixed hmem (fun hsame => hone (oneKind_kinds.mpr hsame))
        fun hnumbers => hmixes (mixesNumbers_kinds.mpr hnumbers)
      rw [hinferred htext] at hsome ⊢
      exact ⟨hsome _ (store_utf8 hempty), fun hsame => absurd hsame hone, fun hnumbers => absurd hnumbers hmixes,
        fun hnumbers => absurd hnumbers hmixes, fun _ _ _ => store_utf8 hempty⟩

end Cells

section Header

variable {c : Calamine} {cancelled : Nat → Bool} {width : Nat} {header : Fin width → Data} {rows : List (Fin width → Data)}
variable {names : List (List Char)} {columns : List (Fin width)} {schema : List Field}

theorem checkCancellation_ok {step : Nat} (h : cancelled step = false) : checkCancellation cancelled step = .ok () := by
  rw [checkCancellation, h]
  rfl

theorem headerText_ne (c : Calamine) (cell : Data) (column : Nat) : headerText c cell column ≠ "" := by
  rw [headerText]
  split
  · exact numbered_ne "column" (column + 1)
  · assumption

theorem freeName_ne {original : String} (h : original ≠ "") : freeName names original ≠ "" := by
  rw [freeName]
  split
  · exact numbered_ne _ _
  · exact h

theorem freeName_free (names : List (List Char)) (original : String) : asciiLower (freeName names original) ∉ names := by
  rw [freeName]
  split
  · exact Fresh.firstFree_free (numbered_injective original) 2
  · assumption

/-- The names of a header are apart from those before them and from each other. -/
theorem fields_names (h : fields c cancelled header rows names columns = .ok schema) :
    (∀ f ∈ schema, f.name ≠ "" ∧ asciiLower f.name ∉ names) ∧ (schema.map fun f => asciiLower f.name).Nodup := by
  induction columns generalizing names schema with
  | nil =>
      cases h
      exact ⟨List.forall_mem_nil _, List.nodup_nil⟩
  | cons column columns ih =>
      rw [fields_cons] at h
      obtain ⟨-, -, h⟩ := bind_eq_ok.mp h
      obtain ⟨others, hothers, hresult⟩ := bind_eq_ok.mp h
      cases hresult
      obtain ⟨hnames, hnodup⟩ := ih hothers
      refine ⟨List.forall_mem_cons.mpr ⟨⟨freeName_ne (headerText_ne _ _ _), freeName_free _ _⟩, ?_⟩, ?_⟩
      · intro f hf
        obtain ⟨hne, hnew⟩ := hnames f hf
        exact ⟨hne, fun hin => hnew (List.mem_cons_of_mem _ hin)⟩
      · refine List.nodup_cons.mpr ⟨fun hin => ?_, hnodup⟩
        obtain ⟨f, hf, heq⟩ := List.mem_map.mp hin
        exact (hnames f hf).2 (heq ▸ List.mem_cons_self)

theorem fields_types (h : fields c cancelled header rows names columns = .ok schema) :
    schema.map Field.dataType = columns.map fun column => inferred c (rows.map (· column)) := by
  induction columns generalizing names schema with
  | nil =>
      cases h
      rfl
  | cons column columns ih =>
      rw [fields_cons] at h
      obtain ⟨-, -, h⟩ := bind_eq_ok.mp h
      obtain ⟨others, hothers, hresult⟩ := bind_eq_ok.mp h
      cases hresult
      rw [List.map_cons, List.map_cons, ih hothers]

theorem fields_total (h : ∀ step, cancelled step = false) (names : List (List Char)) (columns : List (Fin width)) :
    ∃ schema, fields c cancelled header rows names columns = .ok schema := by
  induction columns generalizing names with
  | nil => exact ⟨[], rfl⟩
  | cons column columns ih =>
      obtain ⟨others, hothers⟩ := ih (asciiLower (freeName names (headerText c (header column) column)) :: names)
      refine ⟨⟨freeName names (headerText c (header column) column), inferred c (rows.map (· column))⟩ :: others, ?_⟩
      rw [fields_cons, checkCancellation_ok (h column)]
      exact bind_eq_ok.mpr ⟨(), rfl, bind_eq_ok.mpr ⟨others, hothers, rfl⟩⟩

theorem inferred_perm {cells others : List Data} (h : cells.Perm others) : inferred c cells = inferred c others := by
  rw [inferred, inferred, reduce_perm (h.filterMap (kind c))]

/-- The header is the same whatever the order of the rows below it. -/
theorem fields_perm {others : List (Fin width → Data)} (h : rows.Perm others) (names : List (List Char))
    (columns : List (Fin width)) :
    fields c cancelled header rows names columns = fields c cancelled header others names columns := by
  induction columns generalizing names with
  | nil => rfl
  | cons column columns ih =>
      simp only [fields_cons, ih, inferred_perm (h.map (· column))]

end Header

section Sheet

variable {c : Calamine} {cancelled : Nat → Bool} {width : Nat} {header : Fin width → Data} {data : List (Fin width → Data)}
variable {output : Output} {schema : List Field}

/-- What is written of a sheet with a header and rows of data. -/
structure Imported (c : Calamine) (data : List (Fin width → Data)) (output : Output) : Prop where
  rectangle : output.schema.length = width ∧ ∀ columns ∈ output.batches, columns.length = width
  nonempty : ∀ f ∈ output.schema, f.name ≠ ""
  distinct : (output.schema.map fun f => asciiLower f.name).Nodup
  rows : ∀ column : Fin width,
    List.Forall₂ (fun row value => Stored c (data.map (· column)) (row column) value) data (output.written column)

theorem spreadsheet_eq (h : spreadsheet c cancelled ⟨width, header :: data⟩ = .ok output) :
    fields c cancelled header data [] (List.finRange width) = .ok output.schema ∧
      output.batches = (Chunks.chunks 4096 data).map fun chunk => batch c output.schema chunk.2 := by
  obtain ⟨-, h⟩ := guard_eq_ok.mp h
  obtain ⟨schema, hschema, h⟩ := bind_eq_ok.mp h
  obtain ⟨batches, hbatches, hresult⟩ := bind_eq_ok.mp h
  cases hresult
  refine ⟨hschema, ?_⟩
  refine (List.map_id _).symm.trans (forall₂_map_eq (mapM_eq_ok.mp hbatches) ?_)
  intro chunk columns hchunk
  obtain ⟨-, -, hbatch⟩ := bind_eq_ok.mp hchunk
  cases hbatch
  rfl

theorem finRange_getElem? (column : Fin width) : (List.finRange width)[(column : Nat)]? = some column := by
  have hlt : (column : Nat) < (List.finRange width).length := by rw [List.length_finRange]; exact column.isLt
  rw [List.getElem?_eq_getElem hlt, List.getElem_finRange]
  rfl

theorem batch_getElem? {field : Field} {column : Fin width} (hfield : schema[(column : Nat)]? = some field)
    (chunk : List (Fin width → Data)) :
    (batch c schema chunk)[(column : Nat)]? = some (toColumn c field.dataType (chunk.map (· column))) := by
  rw [batch, List.getElem?_zipWith, hfield, finRange_getElem?]

theorem schema_getElem? (h : fields c cancelled header data [] (List.finRange width) = .ok schema) (column : Fin width) :
    ∃ field, schema[(column : Nat)]? = some field ∧ field.dataType = inferred c (data.map (· column)) := by
  have htypes := congrArg (·[(column : Nat)]?) (fields_types h)
  simp only [List.getElem?_map, finRange_getElem?, Option.map_some] at htypes
  exact Option.map_eq_some_iff.mp htypes

/-- Chunk after chunk, each cell of a column is converted once. -/
theorem written_eq (h : spreadsheet c cancelled ⟨width, header :: data⟩ = .ok output) (column : Fin width) :
    output.written column = data.map fun row => store c (inferred c (data.map (· column))) (row column) := by
  obtain ⟨hschema, hbatches⟩ := spreadsheet_eq h
  obtain ⟨field, hfield, htype⟩ := schema_getElem? hschema column
  rw [Output.written, hbatches, List.flatMap_map, ← htype]
  have hchunk : ∀ chunk : Nat × List (Fin width → Data),
      (batch c output.schema chunk.2)[(column : Nat)]?.elim [] Column.values =
        chunk.2.map fun row => store c field.dataType (row column) := by
    intro chunk
    rw [batch_getElem? hfield, Option.elim_some, toColumn_values, List.map_map]
    rfl
  simp only [hchunk]
  rw [← List.map_flatMap, Chunks.chunks_flatten (by decide)]

theorem spreadsheet_total (hwidth : width ≠ 0) (h : ∀ step, cancelled step = false) :
    ∃ output, spreadsheet c cancelled ⟨width, header :: data⟩ = .ok output := by
  obtain ⟨schema, hschema⟩ := @fields_total c cancelled width header data h [] (List.finRange width)
  refine ⟨⟨schema, (Chunks.chunks 4096 data).map fun chunk => batch c schema chunk.2⟩, ?_⟩
  refine guard_eq_ok.mpr ⟨hwidth, bind_eq_ok.mpr ⟨schema, hschema, bind_eq_ok.mpr ⟨_, mapM_ok ?_, rfl⟩⟩⟩
  intro chunk hchunk
  rw [checkCancellation_ok (h _)]
  rfl

/-- A sheet is written without loss, and the types of its columns do not depend on the order of the rows. -/
theorem spreadsheet_lossless (c : Calamine) (cancelled : Nat → Bool) (header : Fin width → Data)
    (data : List (Fin width → Data)) :
    (∀ output, spreadsheet c cancelled ⟨width, header :: data⟩ = .ok output → Imported c data output ∧
      ∀ others output', data.Perm others → spreadsheet c cancelled ⟨width, header :: others⟩ = .ok output' →
        output'.schema = output.schema) ∧
    (width ≠ 0 → (∀ step, cancelled step = false) →
      ∃ output, spreadsheet c cancelled ⟨width, header :: data⟩ = .ok output) := by
  refine ⟨fun output h => ?_, spreadsheet_total⟩
  obtain ⟨hschema, hbatches⟩ := spreadsheet_eq h
  have hlength : output.schema.length = width := by
    have htypes := congrArg List.length (fields_types hschema)
    rwa [List.length_map, List.length_map, List.length_finRange] at htypes
  obtain ⟨hnames, hdistinct⟩ := fields_names hschema
  refine ⟨⟨⟨hlength, ?_⟩, fun f hf => (hnames f hf).1, hdistinct, ?_⟩, ?_⟩
  · intro columns hcolumns
    rw [hbatches] at hcolumns
    obtain ⟨chunk, -, rfl⟩ := List.mem_map.mp hcolumns
    rw [batch, List.length_zipWith, List.length_finRange, hlength, Nat.min_self]
  · intro column
    rw [written_eq h column, List.forall₂_map_right_iff, List.forall₂_same]
    intro row hrow
    exact store_inferred (List.mem_map_of_mem hrow)
  · intro others output' hperm h'
    obtain ⟨hschema', -⟩ := spreadsheet_eq h'
    rw [fields_perm hperm, hschema'] at hschema
    exact Except.ok.inj hschema

end Sheet

section Examples

/-- A reader that knows two datetimes of one microsecond. -/
def reader : Calamine where
  asDate := fun _ => none
  asDatetime := fun cell =>
    if cell = .dateTimeIso "2024-01-01T00:00:00.123456789" then some ⟨1704067200, 123456789⟩
    else if cell = .dateTimeIso "2024-01-01T00:00:00.123456001" then some ⟨1704067200, 123456001⟩
    else none
  toText := fun
    | .string v => v
    | .dateTimeIso v => v
    | .durationIso v => v
    | .int v => toString v
    | .bool v => toString v
    | _ => ""
  format := fun _ => ""
  asDate_empty := rfl
  asDatetime_empty := rfl
  toText_string := fun _ => rfl

def header : Fin 2 → Data := fun column => .string (if column = 0 then "time" else "number")

def first : Fin 2 → Data := fun column =>
  if column = 0 then .dateTimeIso "2024-01-01T00:00:00.123456789" else .int 9007199254740993

def second : Fin 2 → Data := fun column =>
  if column = 0 then .dateTimeIso "2024-01-01T00:00:00.123456001" else .float (ofInt 3)

theorem sheet_is_kept : ∃ output, spreadsheet reader (fun _ => false) ⟨2, [header, first, second]⟩ = .ok output ∧
    Imported reader [first, second] output := by
  obtain ⟨hkept, htotal⟩ := spreadsheet_lossless reader (fun _ => false) header [first, second]
  obtain ⟨output, h⟩ := htotal (by decide) fun _ => rfl
  exact ⟨output, h, (hkept output h).1⟩

/-- Two datetimes of one kind are stored as the same, and an integer of more than 53 bits as another number. -/
theorem sheet_is_rounded : ∃ output, spreadsheet reader (fun _ => false) ⟨2, [header, first, second]⟩ = .ok output ∧
    reader.asDatetime (first 0) ≠ reader.asDatetime (second 0) ∧
    output.written 0 = [some (.timestamp 1704067200123456), some (.timestamp 1704067200123456)] ∧
    output.written 1 = [some (.float (ofInt 9007199254740992)), some (.float (ofInt 3))] :=
  ⟨_, rfl, by decide, by decide, by decide⟩

end Examples

end Wordflow.Sheets
