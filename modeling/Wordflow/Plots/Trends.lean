import Mathlib.Algebra.BigOperators.Group.Finset.Piecewise
import Mathlib.Data.List.Dedup
import Mathlib.Data.String.Basic
import Wordflow.Plots.Intervals

namespace Wordflow.Plots

open Library Library.Decimal Library.Fallible Objects

variable {M V : Type} {t : Exact}

/-- A row of the plotted table: the units of its axis cell, what it is grouped by and what it measures. -/
structure TrendRow (M : Type) where
  axis : Option Int
  group : String
  measurement : Option M

def TrendRow.cell (t : Exact) (row : TrendRow M) : Option Fixed := row.axis.map fun n => ⟨n, t.scale⟩

/-- A row with its interval. Every whole or decimal number is finite. -/
structure Projected (M : Type) where
  row : TrendRow M
  usable : Bool
  bucket : Option Int
  intervalKey : Option String

def rowProjection (t : Exact) (b : Bins) (rows : List (TrendRow M)) : Except Error (List (Projected M)) :=
  rows.mapM fun row => do
    let bucket ← b.index (row.cell t)
    let intervalKey ← b.key bucket
    .ok ⟨row, row.axis.isSome, bucket, intervalKey⟩

structure TrendCell (V : Type) where
  intervalKey : Option String
  groupKey : String
  groupCount : Nat
  value : V
  rowCount : Nat
  contributingCount : Nat

def usableGroups (rows : List (Projected M)) : List String := (rows.filter (·.usable)).map (·.row.group)

def usableBuckets (rows : List (Projected M)) : List Int := (rows.filter (·.usable)).filterMap (·.bucket)

/-- The groups of the usable rows that have enough of them, in order. -/
def shownGroups (minimum : Nat) (rows : List (Projected M)) : List (String × Nat) :=
  (((usableGroups rows).dedup.map fun g => (g, (usableGroups rows).count g)).filter fun g => minimum ≤ g.2).mergeSort fun g h => g.1 ≤ h.1

def generateSeries (start finish : Int) : List Int := (List.range (finish + 1 - start).toNat).map fun k : Nat => start + k

/-- The bins from the first one of a usable row to the last one. -/
def grid (rows : List (Projected M)) : Except Error (List Int) :=
  match (usableBuckets rows).min?, (usableBuckets rows).max? with
  | some start, some finish => do
      let start ← bigint start
      let finish ← bigint finish
      .ok (generateSeries start finish)
  | _, _ => .ok []

def tooManyGroups : Error :=
  ⟨"display_capacity_exceeded", "This projection contains more than 1000 groups. Saved rows are complete. Choose fewer groups or increase minimum rows per group."⟩

def gridTooLarge : Error :=
  ⟨"display_capacity_exceeded", "This interval grid exceeds 100000 plotted values. Saved rows are complete. Use wider intervals, fewer groups, or increase minimum rows per group."⟩

/-- The usable rows of a group in a bin. -/
def members (rows : List (Projected M)) (bucket : Int) (group : String) : List (Projected M) :=
  rows.filter fun r => r.usable && r.bucket = some bucket && r.row.group = group

/-- The plotted value of a group in a bin. -/
def plotted (aggregate : List (Option M) → V) (empty : V) (rows : List (Projected M)) (key : Option String)
    (bucket : Int) (group : String × Nat) : TrendCell V :=
  let inside := members rows bucket group.1
  { intervalKey := key
    groupKey := group.1
    groupCount := group.2
    value := if inside = [] then empty else aggregate (inside.map (·.row.measurement))
    rowCount := inside.length
    contributingCount := (inside.filter (·.row.measurement.isSome)).length }

/-- The plotted values: one for each bin of the grid and each group, `empty` where the group has no row there. -/
def chartProjection (t : Exact) (b : Bins) (aggregate : List (Option M) → V) (empty : V) (minimum : Nat)
    (rows : List (TrendRow M)) : Except Error (List (TrendCell V)) := do
  let rows ← rowProjection t b rows
  let groups := shownGroups minimum rows
  if 1000 < groups.length then .error tooManyGroups
  else
    let buckets ← grid rows
    let budget := 100000 / max groups.length 1
    if budget < (buckets.take (budget + 1)).length ∧ 0 < groups.length then .error gridTooLarge
    else
      let cells ← buckets.mapM fun bucket =>
        (b.key (some bucket)).map fun key => groups.map (plotted aggregate empty rows key bucket)
      .ok (if groups.length = 0 then [] else cells.flatten)

/-- The text of a number at a scale. -/
def decimalText (scale : Nat) (q : ℚ) : String := String.ofList (chars scale ⌊q * 10 ^ scale⌋)

/-- The text of where a bin starts. -/
def binText (scale : Nat) (width origin : ℚ) (i : Int) : String := decimalText scale (origin + i * width)

def values (t : Exact) (rows : List (TrendRow M)) : List Fixed := (rows.map (·.cell t)).filterMap id

/-- The bin of a row, if its axis cell has a number. -/
def TrendRow.bin (t : Exact) (width origin : ℚ) (row : TrendRow M) : Option Int :=
  (row.cell t).map fun v => Plots.bin width origin v.value

/-- How many rows of a group have a number on the axis. -/
def groupSize (rows : List (TrendRow M)) (group : String) : Nat :=
  rows.countP fun row => row.axis.isSome && row.group = group

/-- A table whose numbers, bins and texts the database can hold. -/
structure TableInRange (t : Exact) (width : String) (origin : Option String) (rows : List (TrendRow M)) : Prop where
  widthFits : |(read width.toList).value| * 10 ^ commonScale t width origin < 10 ^ 38
  originFits : ∀ o ∈ origin, |(read o.toList).value| * 10 ^ commonScale t width origin < 10 ^ 38
  cellsFit : ∀ v ∈ values t rows, ∀ q ∈ originOf origin (values t rows),
    InRange (commonScale t width origin) (read width.toList).value q v.value

/-- A chart with each bin from the first to the last one once for every shown group, that counts every row of them. -/
structure Complete (binOf : TrendRow M → Option Int) (text : Int → String) (minimum : Nat) (rows : List (TrendRow M))
    (cells : List (TrendCell V)) : Prop where
  once : ∀ g, 0 < groupSize rows g → minimum ≤ groupSize rows g →
    ((cells.filter fun c => c.groupKey = g).map (·.intervalKey)).Nodup
  covers : ∀ g, 0 < groupSize rows g → minimum ≤ groupSize rows g → ∀ key,
    key ∈ (cells.filter fun c => c.groupKey = g).map (·.intervalKey) ↔
      ∃ u ∈ rows, ∃ v ∈ rows, ∃ i, (∃ a ∈ binOf u, a ≤ i) ∧ (∃ z ∈ binOf v, i ≤ z) ∧ key = some (text i)
  counts : ∀ c ∈ cells, ∃ i, c.intervalKey = some (text i) ∧
    c.rowCount = rows.countP fun row => binOf row = some i && row.group = c.groupKey
  total : ∀ g, 0 < groupSize rows g → minimum ≤ groupSize rows g →
    ((cells.filter fun c => c.groupKey = g).map (·.rowCount)).sum = groupSize rows g

section Series

variable {start finish i : Int}

theorem generateSeries_nodup : (generateSeries start finish).Nodup := by
  apply List.Nodup.map _ List.nodup_range
  intro a b h
  simpa using h

theorem mem_generateSeries : i ∈ generateSeries start finish ↔ start ≤ i ∧ i ≤ finish := by
  rw [generateSeries, List.mem_map]
  constructor
  · rintro ⟨k, hk, rfl⟩
    have hlt := List.mem_range.mp hk
    omega
  · rintro ⟨hlow, hhigh⟩
    refine ⟨(i - start).toNat, List.mem_range.mpr ?_, ?_⟩ <;> omega

end Series

section Texts

variable {b : Bins} {width origin : ℚ}

/-- Where a bin starts is a whole number of units. -/
theorem Bins.Holds.units (hb : b.Holds width origin) (i : Int) :
    ∃ n : Int, (n : ℚ) / 10 ^ b.scale = origin + i * width := by
  obtain ⟨o, -, hvalue⟩ := hb.origin_eq
  refine ⟨o + i * b.width, ?_⟩
  rw [← hvalue, ← hb.width_eq, Int.cast_add, Int.cast_mul, add_div, mul_div_assoc]

theorem decimalText_of_units {scale : Nat} {n : Int} {q : ℚ} (h : (n : ℚ) / 10 ^ scale = q) :
    decimalText scale q = String.ofList (chars scale n) := by
  have hunits : q * 10 ^ scale = n := by
    rw [← h]
    field_simp
  rw [decimalText, hunits, Int.floor_intCast]

theorem binText_injective (hb : b.Holds width origin) : Function.Injective (binText b.scale width origin) := by
  intro i j h
  obtain ⟨m, hm⟩ := hb.units i
  obtain ⟨n, hn⟩ := hb.units j
  rw [binText, binText, decimalText_of_units hm, decimalText_of_units hn] at h
  exact Bins.key_injective hb hm hn h

/-- The text of a bin reads as the exact number where it starts. -/
theorem read_binText (hb : b.Holds width origin) (i : Int) :
    (read (binText b.scale width origin i).toList).scale = b.scale ∧
      (read (binText b.scale width origin i).toList).value = origin + i * width := by
  obtain ⟨n, hn⟩ := hb.units i
  rw [binText, decimalText_of_units hn, String.toList_ofList, read_chars]
  exact ⟨rfl, hn⟩

theorem key_between (hb : b.Holds width origin) {u v : ℚ} {i : Int} (hu : InRange b.scale width origin u)
    (hv : InRange b.scale width origin v) (hlow : bin width origin u ≤ i) (hhigh : i ≤ bin width origin v) :
    b.key (some i) = .ok (some (binText b.scale width origin i)) := by
  obtain ⟨hoffset, hstart⟩ := InRange.between hb.width_pos hu hv hlow hhigh
  obtain ⟨n, hn, hkey⟩ := Bins.key_ok hb hoffset hstart
  rw [hkey, binText, decimalText_of_units hn]

end Texts

section Rows

variable {b : Bins} {width origin : ℚ} {rows : List (TrendRow M)}

/-- What the projection of a row is. -/
def project (t : Exact) (scale : Nat) (width origin : ℚ) (row : TrendRow M) : Projected M where
  row := row
  usable := row.axis.isSome
  bucket := row.bin t width origin
  intervalKey :=
    match row.bin t width origin with
    | some i => some (binText scale width origin i)
    | none => if scale = 0 then none else some "."

theorem mem_values {v : Fixed} : v ∈ values t rows ↔ ∃ row ∈ rows, row.cell t = some v := by
  simp [values]

theorem key_none (b : Bins) : b.key none = .ok (if b.scale = 0 then none else some ".") := by
  have hstart : b.start none = .ok none := rfl
  rw [Bins.key, hstart]
  by_cases hscale : b.scale = 0
  · rw [if_pos hscale]
    exact if_pos hscale
  · rw [if_neg hscale]
    exact if_neg hscale

theorem rowProjection_ok (hb : b.Holds width origin) (hfits : t.scale ≤ b.scale)
    (hrange : ∀ v ∈ values t rows, InRange b.scale width origin v.value) :
    rowProjection t b rows = .ok (rows.map (project t b.scale width origin)) := by
  apply mapM_ok
  intro row hrow
  cases hcell : row.axis with
  | none =>
      have hnone : row.cell t = none := by rw [TrendRow.cell, hcell, Option.map_none]
      have hindex : b.index none = .ok none := rfl
      rw [hnone, hindex]
      change (b.key none).bind _ = _
      rw [key_none, project, TrendRow.bin, hnone, hcell]
      rfl
  | some n =>
      have hsome : row.cell t = some ⟨n, t.scale⟩ := by rw [TrendRow.cell, hcell, Option.map_some]
      have hv := hrange _ (mem_values.mpr ⟨row, hrow, hsome⟩)
      rw [hsome, Bins.index_ok hb hfits hv]
      change (b.key (some _)).bind _ = _
      rw [key_between hb hv hv le_rfl le_rfl, project, TrendRow.bin, hsome, hcell]
      rfl

theorem count_usableGroups (group : String) :
    (usableGroups (rows.map (project t b.scale width origin))).count group = groupSize rows group := by
  rw [groupSize, usableGroups, List.filter_map, List.map_map, List.count, List.countP_map, List.countP_filter]
  apply List.countP_congr
  intro row hrow
  simp [project, and_comm, beq_iff_eq]

theorem mem_usableGroups {group : String} :
    group ∈ usableGroups (rows.map (project t b.scale width origin)) ↔ 0 < groupSize rows group := by
  rw [← @count_usableGroups _ t b width origin rows group]
  exact List.count_pos_iff.symm

/-- A group is shown with its size, where it has enough rows. -/
theorem mem_shownGroups {minimum : Nat} {g : String × Nat} :
    g ∈ shownGroups minimum (rows.map (project t b.scale width origin)) ↔
      0 < groupSize rows g.1 ∧ minimum ≤ groupSize rows g.1 ∧ g.2 = groupSize rows g.1 := by
  simp only [shownGroups, List.mem_mergeSort, List.mem_filter, List.mem_map, decide_eq_true_eq, List.mem_dedup,
    count_usableGroups, mem_usableGroups]
  constructor
  · rintro ⟨⟨name, hname, rfl⟩, hmin⟩
    exact ⟨hname, hmin, rfl⟩
  · rintro ⟨hpos, hmin, hsize⟩
    exact ⟨⟨g.1, hpos, Prod.ext rfl hsize.symm⟩, hsize ▸ hmin⟩

theorem shownGroups_nodup (minimum : Nat) (rows : List (Projected M)) :
    ((shownGroups minimum rows).map Prod.fst).Nodup := by
  have hperm := (List.mergeSort_perm
    (((usableGroups rows).dedup.map fun g => (g, (usableGroups rows).count g)).filter fun g => minimum ≤ g.2)
    fun g h => g.1 ≤ h.1).map Prod.fst
  refine hperm.nodup_iff.mpr ?_
  refine List.Nodup.sublist (List.Sublist.map _ List.filter_sublist) ?_
  rw [List.map_map]
  simpa [Function.comp_def] using List.nodup_dedup _

theorem mem_usableBuckets {i : Int} :
    i ∈ usableBuckets (rows.map (project t b.scale width origin)) ↔
      ∃ v ∈ values t rows, i = bin width origin v.value := by
  simp only [usableBuckets, List.mem_filterMap, List.mem_filter, List.mem_map]
  constructor
  · rintro ⟨r, ⟨⟨row, hrow, rfl⟩, -⟩, hbucket⟩
    obtain ⟨v, hv, rfl⟩ := Option.map_eq_some_iff.mp hbucket
    exact ⟨v, mem_values.mpr ⟨row, hrow, hv⟩, rfl⟩
  · rintro ⟨v, hv, rfl⟩
    obtain ⟨row, hrow, hcell⟩ := mem_values.mp hv
    obtain ⟨n, hn, -⟩ := Option.map_eq_some_iff.mp hcell
    refine ⟨_, ⟨⟨row, hrow, rfl⟩, ?_⟩, ?_⟩
    · rw [project, hn]
      rfl
    · rw [project, TrendRow.bin, hcell]
      rfl

/-- The bins of the grid are those between two rows. -/
theorem grid_ok {scale : Nat} (hrange : ∀ v ∈ values t rows, InRange scale width origin v.value) :
    ∃ bs, grid (rows.map (project t b.scale width origin)) = .ok bs ∧ bs.Nodup ∧
      ∀ i, i ∈ bs ↔ ∃ u ∈ values t rows, ∃ v ∈ values t rows,
        bin width origin u.value ≤ i ∧ i ≤ bin width origin v.value := by
  have hmem := fun i => @mem_usableBuckets _ t b width origin rows i
  rw [grid]
  generalize usableBuckets (rows.map (project t b.scale width origin)) = buckets at hmem ⊢
  cases hmin : buckets.min? with
  | none =>
      have hnone := List.min?_eq_none_iff.mp hmin
      subst hnone
      refine ⟨[], rfl, List.nodup_nil, fun i => ?_⟩
      simp only [List.not_mem_nil, false_iff]
      rintro ⟨u, hu, -⟩
      exact List.not_mem_nil ((hmem _).mpr ⟨u, hu, rfl⟩)
  | some start =>
      obtain ⟨hstart, hleast⟩ := List.min?_eq_some_iff.mp hmin
      obtain ⟨finish, hmax⟩ := Option.isSome_iff_exists.mp (List.isSome_max?_of_mem hstart)
      obtain ⟨hfinish, hgreatest⟩ := List.max?_eq_some_iff.mp hmax
      rw [hmax]
      obtain ⟨u, hu, hustart⟩ := (hmem _).mp hstart
      obtain ⟨v, hv, hvfinish⟩ := (hmem _).mp hfinish
      have hlow := (hrange u hu).index
      have hhigh := (hrange v hv).index
      have hbigintStart : bigint start = .ok start := by
        rw [bigint, if_pos]
        omega
      have hbigintFinish : bigint finish = .ok finish := by
        rw [bigint, if_pos]
        omega
      refine ⟨generateSeries start finish, ?_, generateSeries_nodup, fun i => ?_⟩
      · simp only [hbigintStart, hbigintFinish, bind, Except.bind]
      · rw [mem_generateSeries]
        constructor
        · rintro ⟨hi, hi'⟩
          exact ⟨u, hu, v, hv, hustart ▸ hi, hvfinish ▸ hi'⟩
        · rintro ⟨p, hp, q, hq, hi, hi'⟩
          have hpstart := hleast _ ((hmem _).mpr ⟨p, hp, rfl⟩)
          have hqfinish := hgreatest _ ((hmem _).mpr ⟨q, hq, rfl⟩)
          omega

end Rows

section Chart

variable {b : Bins} {width origin : ℚ} {rows : List (TrendRow M)}

theorem members_length (i : Int) (group : String) :
    (members (rows.map (project t b.scale width origin)) i group).length =
      rows.countP fun row => row.bin t width origin = some i && row.group = group := by
  rw [members, ← List.countP_eq_length_filter, List.countP_map]
  apply List.countP_congr
  intro row hrow
  simp only [project, Function.comp_apply, Bool.and_eq_true, decide_eq_true_eq]
  constructor
  · rintro ⟨⟨-, hbin⟩, hgroup⟩
    exact ⟨of_decide_eq_true hbin, of_decide_eq_true hgroup⟩
  · rintro ⟨hbin, hgroup⟩
    obtain ⟨v, hv, -⟩ := Option.map_eq_some_iff.mp hbin
    obtain ⟨n, hn, -⟩ := Option.map_eq_some_iff.mp hv
    exact ⟨⟨by rw [hn]; rfl, decide_eq_true hbin⟩, decide_eq_true hgroup⟩

theorem sum_once {bs : List Int} {x : Int} (hnodup : bs.Nodup) (hmem : x ∈ bs) :
    (bs.map fun i => if x = i then 1 else 0).sum = 1 := by
  rw [← List.sum_toFinset _ hnodup, Finset.sum_ite_eq, if_pos (List.mem_toFinset.mpr hmem)]

/-- The bins that cover the rows of a group split them. -/
theorem sum_bins {bs : List Int} (hnodup : bs.Nodup) (group : String)
    (hcovers : ∀ row ∈ rows, ∀ i, row.bin t width origin = some i → i ∈ bs) :
    (bs.map fun i => rows.countP fun row => row.bin t width origin = some i && row.group = group).sum =
      groupSize rows group := by
  induction rows with
  | nil => simp [groupSize]
  | cons row rows ih =>
      have hrest := ih fun r hr => hcovers r (List.mem_cons_of_mem _ hr)
      simp only [groupSize, List.countP_cons] at hrest ⊢
      rw [List.sum_map_add, hrest]
      congr 1
      cases hcell : row.axis with
      | none =>
          have hbin : row.bin t width origin = none := by rw [TrendRow.bin, TrendRow.cell, hcell]; rfl
          simp [hbin]
      | some n =>
          have hbin : row.bin t width origin = some (Plots.bin width origin (Fixed.value ⟨n, t.scale⟩)) := by
            rw [TrendRow.bin, TrendRow.cell, hcell]; rfl
          have hmem := hcovers row List.mem_cons_self _ hbin
          generalize Plots.bin width origin (Fixed.value ⟨n, t.scale⟩) = x at hbin hmem
          rw [hbin]
          by_cases hgroup : row.group = group
          · simpa [hgroup] using sum_once hnodup hmem
          · simp [hgroup]

/-- In a grid of bins by groups, the values of one group are one for each bin. -/
theorem filter_grid {bs : List Int} {groups : List (String × Nat)} {f : Int → String × Nat → TrendCell V}
    (hkey : ∀ i g, (f i g).groupKey = g.1) (hnodup : (groups.map Prod.fst).Nodup) {g : String × Nat} (hg : g ∈ groups) :
    ((bs.map fun i => groups.map (f i)).flatten.filter fun c => c.groupKey = g.1) = bs.map fun i => f i g := by
  have hone : groups.filter (fun h => h.1 = g.1) = [g] := by
    induction groups with
    | nil => cases hg
    | cons h groups ih =>
        obtain ⟨hnew, hrest⟩ := List.nodup_cons.mp hnodup
        rcases List.mem_cons.mp hg with rfl | hg
        · have hnone : groups.filter (fun h => h.1 = g.1) = [] := by
            apply List.filter_eq_nil_iff.mpr
            intro h hh hsame
            exact hnew (List.mem_map.mpr ⟨h, hh, of_decide_eq_true hsame⟩)
          rw [List.filter_cons_of_pos (by simp), hnone]
        · have hother : h.1 ≠ g.1 := fun heq => hnew (heq ▸ List.mem_map_of_mem hg)
          rw [List.filter_cons_of_neg (by simpa using hother), ih hrest hg]
  induction bs with
  | nil => rfl
  | cons i bs ih =>
      have hrow : (groups.map (f i)).filter (fun c => c.groupKey = g.1) = [f i g] := by
        rw [List.filter_map]
        simp only [Function.comp_def, hkey, hone]
        rfl
      rw [List.map_cons, List.flatten_cons, List.filter_append, hrow, ih]
      rfl

theorem mem_bins {i : Int} :
    (∃ row ∈ rows, row.bin t width origin = some i) ↔ ∃ v ∈ values t rows, i = bin width origin v.value := by
  constructor
  · rintro ⟨row, hrow, hbin⟩
    obtain ⟨v, hv, rfl⟩ := Option.map_eq_some_iff.mp hbin
    exact ⟨v, mem_values.mpr ⟨row, hrow, hv⟩, rfl⟩
  · rintro ⟨v, hv, rfl⟩
    obtain ⟨row, hrow, hcell⟩ := mem_values.mp hv
    exact ⟨row, hrow, by rw [TrendRow.bin, hcell]; rfl⟩

/-- The values over the bins between the rows are a complete chart. -/
theorem complete_of_grid {bs : List Int} {groups : List (String × Nat)} {text : Int → String}
    (htext : Function.Injective text) (hnodup : bs.Nodup)
    (hmem : ∀ i, i ∈ bs ↔ ∃ u ∈ values t rows, ∃ v ∈ values t rows,
      bin width origin u.value ≤ i ∧ i ≤ bin width origin v.value)
    (hnames : (groups.map Prod.fst).Nodup) {minimum : Nat}
    (hshown : ∀ g, g ∈ groups ↔ 0 < groupSize rows g.1 ∧ minimum ≤ groupSize rows g.1 ∧ g.2 = groupSize rows g.1)
    (aggregate : List (Option M) → V) (empty : V) :
    Complete (TrendRow.bin t width origin) text minimum rows
      (bs.map fun i => groups.map
        (plotted aggregate empty (rows.map (project t b.scale width origin)) (some (text i)) i)).flatten := by
  have hfilter : ∀ g, 0 < groupSize rows g → minimum ≤ groupSize rows g →
      ((bs.map fun i => groups.map (plotted aggregate empty (rows.map (project t b.scale width origin))
        (some (text i)) i)).flatten.filter fun c => c.groupKey = g) =
        bs.map fun i => plotted aggregate empty (rows.map (project t b.scale width origin)) (some (text i)) i
          (g, groupSize rows g) := by
    intro g hpos hmin
    exact filter_grid (fun i g => rfl) hnames ((hshown (g, groupSize rows g)).mpr ⟨hpos, hmin, rfl⟩)
  constructor
  · intro g hpos hmin
    rw [hfilter g hpos hmin, List.map_map]
    apply List.Nodup.map _ hnodup
    intro i j hij
    exact htext (Option.some.inj hij)
  · intro g hpos hmin key
    rw [hfilter g hpos hmin, List.map_map, List.mem_map]
    constructor
    · rintro ⟨i, hi, rfl⟩
      obtain ⟨u, hu, v, hv, hlow, hhigh⟩ := (hmem i).mp hi
      obtain ⟨first, hfirst, hfirstBin⟩ := mem_bins.mpr ⟨u, hu, rfl⟩
      obtain ⟨last, hlast, hlastBin⟩ := mem_bins.mpr ⟨v, hv, rfl⟩
      exact ⟨first, hfirst, last, hlast, i, ⟨_, hfirstBin, hlow⟩, ⟨_, hlastBin, hhigh⟩, rfl⟩
    · rintro ⟨first, hfirst, last, hlast, i, ⟨a, ha, hlow⟩, ⟨z, hz, hhigh⟩, rfl⟩
      obtain ⟨u, hu, rfl⟩ := mem_bins.mp ⟨first, hfirst, ha⟩
      obtain ⟨v, hv, rfl⟩ := mem_bins.mp ⟨last, hlast, hz⟩
      exact ⟨i, (hmem i).mpr ⟨u, hu, v, hv, hlow, hhigh⟩, rfl⟩
  · intro c hc
    obtain ⟨line, hline, hc⟩ := List.mem_flatten.mp hc
    obtain ⟨i, -, rfl⟩ := List.mem_map.mp hline
    obtain ⟨g, -, rfl⟩ := List.mem_map.mp hc
    exact ⟨i, rfl, members_length i g.1⟩
  · intro g hpos hmin
    rw [hfilter g hpos hmin, List.map_map]
    have hcounts : ((fun c : TrendCell V => c.rowCount) ∘ fun i =>
        plotted aggregate empty (rows.map (project t b.scale width origin)) (some (text i)) i (g, groupSize rows g)) =
        fun i => rows.countP fun row => row.bin t width origin = some i && row.group = g := by
      funext i
      exact members_length i g
    rw [hcounts]
    apply sum_bins hnodup g
    intro row hrow i hi
    obtain ⟨v, hv, rfl⟩ := mem_bins.mp ⟨row, hrow, hi⟩
    exact (hmem _).mpr ⟨v, hv, v, hv, le_rfl, le_rfl⟩

/-- Within range a chart either exceeds the display capacity or is complete. -/
theorem chartProjection_complete (hb : b.Holds width origin) (hfits : t.scale ≤ b.scale)
    (hrange : ∀ v ∈ values t rows, InRange b.scale width origin v.value) (aggregate : List (Option M) → V) (empty : V)
    (minimum : Nat) :
    (∃ e, chartProjection t b aggregate empty minimum rows = .error e ∧ e.code = "display_capacity_exceeded") ∨
      ∃ cells, chartProjection t b aggregate empty minimum rows = .ok cells ∧
        Complete (TrendRow.bin t width origin) (binText b.scale width origin) minimum rows cells := by
  obtain ⟨bs, hgrid, hnodup, hmem⟩ := grid_ok (b := b) hrange
  have hkeys : ∀ i ∈ bs, b.key (some i) = .ok (some (binText b.scale width origin i)) := by
    intro i hi
    obtain ⟨u, hu, v, hv, hlow, hhigh⟩ := (hmem i).mp hi
    exact key_between hb (hrange u hu) (hrange v hv) hlow hhigh
  generalize hprojected : rows.map (project t b.scale width origin) = projected at hgrid
  have hrows := rowProjection_ok hb hfits hrange
  rw [hprojected] at hrows
  generalize hgroups : shownGroups minimum projected = groups
  have hnames : (groups.map Prod.fst).Nodup := hgroups ▸ shownGroups_nodup minimum projected
  have hshown : ∀ g, g ∈ groups ↔ 0 < groupSize rows g.1 ∧ minimum ≤ groupSize rows g.1 ∧ g.2 = groupSize rows g.1 := by
    intro g
    rw [← hgroups, ← hprojected]
    exact mem_shownGroups
  simp only [chartProjection, hrows, bind, Except.bind, hgroups, hgrid]
  by_cases hmany : 1000 < groups.length
  · rw [if_pos hmany]
    exact .inl ⟨_, rfl, rfl⟩
  · rw [if_neg hmany]
    by_cases hlarge : 100000 / max groups.length 1 < (bs.take (100000 / max groups.length 1 + 1)).length ∧ 0 < groups.length
    · rw [if_pos hlarge]
      exact .inl ⟨_, rfl, rfl⟩
    · rw [if_neg hlarge]
      refine .inr ⟨(bs.map fun i => groups.map
        (plotted aggregate empty projected (some (binText b.scale width origin i)) i)).flatten, ?_, ?_⟩
      · have hcells : (bs.mapM fun i => (b.key (some i)).map fun key =>
            groups.map (plotted aggregate empty projected key i)) = .ok (bs.map fun i =>
            groups.map (plotted aggregate empty projected (some (binText b.scale width origin i)) i)) := by
          apply mapM_ok
          intro i hi
          rw [hkeys i hi]
          rfl
        rw [hcells]
        by_cases hnone : groups.length = 0
        · have hempty := List.length_eq_zero_iff.mp hnone
          simp [hempty]
        · simp only [if_neg hnone]
      · rw [← hprojected]
        exact complete_of_grid (binText_injective hb) hnodup hmem hnames hshown aggregate empty

end Chart

theorem values_scale {v : Fixed} {rows : List (TrendRow M)} (hv : v ∈ values t rows) : v.scale = t.scale := by
  obtain ⟨row, -, hcell⟩ := mem_values.mp hv
  obtain ⟨n, -, rfl⟩ := Option.map_eq_some_iff.mp hcell
  rfl

theorem originOf_some {origin : Option String} {numbers : List Fixed} {v : Fixed} (hv : v ∈ numbers) :
    ∃ q, originOf origin numbers = some q := by
  cases origin with
  | none => exact Option.isSome_iff_exists.mp (List.isSome_min?_of_mem (List.mem_map_of_mem hv))
  | some text => exact ⟨_, rfl⟩

/-- The bins of an axis of whole or decimal numbers are exact, and a chart over them counts every row. -/
theorem numeric_bins_exact (t : Exact) {width : String} {origin : Option String}
    (h : validateInterval t.kind (.numeric width origin) = .ok ()) (rows : List (TrendRow M))
    (hrange : TableInRange t width origin rows) :
    ∃ b, numericInterval t.kind width origin (rows.map (·.cell t)) = .ok b ∧ b.scale = commonScale t width origin ∧
      ∀ q ∈ originOf origin (values t rows),
        (∀ v ∈ values t rows, b.index (some v) = .ok (some ⌊(v.value - q) / (read width.toList).value⌋)) ∧
        (∀ u ∈ values t rows, ∀ v ∈ values t rows, ∀ i, bin (read width.toList).value q u.value ≤ i →
          i ≤ bin (read width.toList).value q v.value →
            b.key (some i) = .ok (some (binText b.scale (read width.toList).value q i))) ∧
        (∀ i, (read (binText b.scale (read width.toList).value q i).toList).scale = b.scale ∧
          (read (binText b.scale (read width.toList).value q i).toList).value =
            q + i * (read width.toList).value) ∧
        Function.Injective (binText b.scale (read width.toList).value q) ∧
        ∀ (V : Type) (aggregate : List (Option M) → V) (empty : V) (minimum : Nat),
          (∃ e, chartProjection t b aggregate empty minimum rows = .error e ∧ e.code = "display_capacity_exceeded") ∨
            ∃ cells, chartProjection t b aggregate empty minimum rows = .ok cells ∧
              Complete (TrendRow.bin t (read width.toList).value q) (binText b.scale (read width.toList).value q)
                minimum rows cells := by
  have hvalues : ∀ v ∈ values t rows, |v.value| * 10 ^ commonScale t width origin < 10 ^ 38 := by
    intro v hv
    obtain ⟨q, hq⟩ := @originOf_some origin _ _ hv
    exact (hrange.cellsFit v hv q hq).value
  obtain ⟨b, hb, hscale, hholds⟩ :=
    numericInterval_ok h (fun v hv => values_scale hv) hrange.widthFits hrange.originFits hvalues
  have hfits : t.scale ≤ b.scale := by
    rw [hscale, commonScale]
    exact le_max_right _ _
  refine ⟨b, hb, hscale, fun q hq => ?_⟩
  have hexact := hholds q hq
  have hcells : ∀ v ∈ values t rows, InRange b.scale (read width.toList).value q v.value := by
    intro v hv
    rw [hscale]
    exact hrange.cellsFit v hv q hq
  refine ⟨?_, ?_, read_binText hexact, binText_injective hexact, ?_⟩
  · intro v hv
    exact Bins.index_ok hexact (values_scale hv ▸ hfits) (hcells v hv)
  · intro u hu v hv i hlow hhigh
    exact key_between hexact (hcells u hu) (hcells v hv) hlow hhigh
  · intro V aggregate empty minimum
    exact chartProjection_complete hexact hfits hcells aggregate empty minimum

/-- Halves of a column with two fractional digits, of which one is negative and one is missing. -/
def halves : List (TrendRow Unit) := [⟨some (-10), "[]", some ()⟩, ⟨some 60, "[]", some ()⟩, ⟨none, "[]", some ()⟩]

theorem halves_are_exact :
    ∃ b, numericInterval "DECIMAL(20,2)" "0.5" (some "0") (halves.map (·.cell (.decimal 20 2 (by decide)))) = .ok b ∧
      b.index (some ⟨-10, 2⟩) = .ok (some (-1)) := by
  have hkind : (Exact.decimal 20 2 (by decide)).kind = "DECIMAL(20,2)" := by decide
  have hwidth : read "0.5".toList = ⟨5, 1⟩ := by decide
  have horigin : read "0".toList = ⟨0, 0⟩ := by decide
  have hvalues : values (.decimal 20 2 (by decide)) halves = [⟨-10, 2⟩, ⟨60, 2⟩] := rfl
  have hscale : commonScale (.decimal 20 2 (by decide)) "0.5" (some "0") = 2 := by decide
  obtain ⟨b, hb, -, hbins⟩ := @numeric_bins_exact _ (.decimal 20 2 (by decide)) "0.5" (some "0")
    (by rw [validateInterval, numeric_kind]; rfl) halves (by
      refine ⟨?_, ?_, ?_⟩
      · rw [hwidth, hscale]
        norm_num [Fixed.value]
      · rintro o ⟨⟩
        rw [horigin, hscale]
        norm_num [Fixed.value]
      · intro v hv q hq
        rw [hvalues] at hv
        cases hq
        rw [hwidth, hscale, horigin]
        simp only [List.mem_cons, List.not_mem_nil, or_false] at hv
        rcases hv with rfl | rfl
        · constructor <;> norm_num [Fixed.value, bin]
        · constructor <;> norm_num [Fixed.value, bin])
  rw [hkind] at hb
  refine ⟨b, hb, ?_⟩
  have hindex := (hbins 0 (by rw [originOf, horigin]; norm_num [Fixed.value])).1 ⟨-10, 2⟩ (by simp [hvalues])
  rw [hindex, hwidth]
  norm_num [Fixed.value]

end Wordflow.Plots
