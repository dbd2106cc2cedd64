import Mathlib.Algebra.Order.Field.Basic
import Mathlib.Data.List.Basic

namespace Wordflow.Embedding

structure PoolingConfig where
  wordEmbeddingDimension : Nat
  poolingModeClsToken : Bool
  poolingModeMaxTokens : Bool
  poolingModeMeanTokens : Bool
  poolingModeMeanSqrtLenTokens : Bool
  poolingModeWeightedmeanTokens : Bool
  poolingModeLasttoken : Bool
  deriving DecidableEq

def PoolingConfig.enabledCount (pooling : PoolingConfig) : Nat :=
  ([pooling.poolingModeClsToken, pooling.poolingModeMaxTokens, pooling.poolingModeMeanTokens,
    pooling.poolingModeMeanSqrtLenTokens, pooling.poolingModeWeightedmeanTokens,
    pooling.poolingModeLasttoken].filter id).length

section Tokens

variable {σ : Type*}

/-- The loop over a row's mask, which skips the zeros. -/
def overTokens (mask : List Nat) (init : σ) (step : σ → Nat → Nat → σ) : σ :=
  mask.zipIdx.foldl (fun s m => if m.1 = 0 then s else step s m.1 m.2) init

/-- Position of the last entry of a mask that is not zero. -/
def rposition (mask : List Nat) : Option Nat := (mask.zipIdx.reverse.find? fun m => m.1 ≠ 0).map Prod.snd

variable {mask : List Nat} {init : σ} {step step' : σ → Nat → Nat → σ}

theorem snd_lt_of_mem_zipIdx {m : Nat × Nat} (h : m ∈ mask.zipIdx) : m.2 < mask.length := by
  have hlt := (List.mem_zipIdx h).2.1
  omega

theorem fst_zero_of_mem_zipIdx {m : Nat × Nat} {padding start : Nat} (h : m ∈ (List.replicate padding 0).zipIdx start) :
    m.1 = 0 := List.eq_of_mem_replicate (List.fst_mem_of_mem_zipIdx h)

/-- Padding adds nothing, and the vectors there are not read. -/
theorem overTokens_padded (padding : Nat) (hstep : ∀ s m t, t < mask.length → step s m t = step' s m t) :
    overTokens (mask ++ List.replicate padding 0) init step = overTokens mask init step' := by
  have hskip : ∀ s : σ, ((List.replicate padding 0).zipIdx mask.length).foldl
      (fun s m => if m.1 = 0 then s else step s m.1 m.2) s = s := by
    intro s
    rw [List.foldl_ext _ (fun s _ => s) s fun s m hm => if_pos (fst_zero_of_mem_zipIdx hm), List.foldl_fixed]
  rw [overTokens, overTokens, List.zipIdx_append, List.foldl_append, Nat.zero_add, hskip]
  refine List.foldl_ext _ _ init fun s m hm => ?_
  rw [hstep s m.1 m.2 (snd_lt_of_mem_zipIdx hm)]

theorem overTokens_induction {P : σ → Prop} (hinit : P init) (hstep : ∀ s m t, t < mask.length → P s → P (step s m t)) :
    P (overTokens mask init step) := by
  rw [overTokens]
  refine List.foldlRecOn _ _ hinit fun s hs m hm => ?_
  split
  · exact hs
  · exact hstep s m.1 m.2 (snd_lt_of_mem_zipIdx hm) hs

theorem rposition_padded (padding : Nat) : rposition (mask ++ List.replicate padding 0) = rposition mask := by
  have hnone : ((List.replicate padding 0).zipIdx mask.length).reverse.find? (fun m => m.1 ≠ 0) = none := by
    refine List.find?_eq_none.mpr fun m hm => ?_
    simp [fst_zero_of_mem_zipIdx (List.mem_reverse.mp hm)]
  rw [rposition, rposition, List.zipIdx_append, List.reverse_append, List.find?_append, Nat.zero_add, hnone, Option.none_or]

theorem rposition_lt {t : Nat} (h : rposition mask = some t) : t < mask.length := by
  obtain ⟨m, hm, rfl⟩ := Option.map_eq_some_iff.mp h
  exact snd_lt_of_mem_zipIdx (List.mem_reverse.mp (List.mem_of_find?_eq_some hm))

end Tokens

variable {K : Type*} [Field K] [LinearOrder K]

/-- The greater of what was seen and a value. Nothing seen is negative infinity. -/
def raise : Option K → K → Option K
  | none, value => some value
  | some seen, value => some (max seen value)

/-- Greatest value of each column over the tokens, zero where there are none. -/
def maxTokens (dim : Nat) (hidden : Nat → List K) (mask : List Nat) : List K :=
  (overTokens mask (List.replicate dim none) fun values _ token => List.zipWith raise values (hidden token)).map fun value => value.getD 0

structure Sums (K : Type*) where
  sum : List K
  tokenCount : K
  weightedSum : List K
  weightTotal : K

def Sums.zero (dim : Nat) : Sums K := ⟨List.replicate dim 0, 0, List.replicate dim 0, 0⟩

def Sums.add (s : Sums K) (maskValue token : Nat) (vector : List K) : Sums K where
  sum := List.zipWith (fun sum value => sum + value * maskValue) s.sum vector
  tokenCount := s.tokenCount + maskValue
  weightedSum := List.zipWith (fun sum value => sum + value * ((token + 1 : Nat) * maskValue)) s.weightedSum vector
  weightTotal := s.weightTotal + (token + 1 : Nat) * maskValue

def sums (dim : Nat) (hidden : Nat → List K) (mask : List Nat) : Sums K :=
  overTokens mask (Sums.zero dim) fun s maskValue token => s.add maskValue token (hidden token)

def lastToken (dim : Nat) (hidden : Nat → List K) (mask : List Nat) : List K :=
  match rposition mask with
  | some token => hidden token
  | none => List.replicate dim 0

/-- `value.max(1e-9)`. -/
def atLeastTiny (value : K) : K := max value (1 / 10 ^ 9)

/-- One row of the output. `hidden` is the vector at each position of the row, and
the first position is read whether it is padding or not. -/
def poolRow (sqrt : K → K) (pooling : PoolingConfig) (dim : Nat) (hidden : Nat → List K) (mask : List Nat) : List K :=
  let s := sums dim hidden mask
  (if pooling.poolingModeClsToken then hidden 0 else []) ++
  (if pooling.poolingModeMaxTokens then maxTokens dim hidden mask else []) ++
  (if pooling.poolingModeMeanTokens then s.sum.map (· / atLeastTiny s.tokenCount) else []) ++
  (if pooling.poolingModeMeanSqrtLenTokens then s.sum.map (· / atLeastTiny (sqrt s.tokenCount)) else []) ++
  (if pooling.poolingModeWeightedmeanTokens then s.weightedSum.map (· / atLeastTiny s.weightTotal) else []) ++
  (if pooling.poolingModeLasttoken then lastToken dim hidden mask else [])

/-- `len` entries of a tensor from an offset on. -/
def slice {α : Type*} (data : List α) (offset len : Nat) : List α := (data.drop offset).take len

def poolTokenEmbeddings (sqrt : K → K) (hidden : List K) (batch seq dim : Nat) (mask : List Nat) (pooling : PoolingConfig) :
    Except String (List (List K)) :=
  if hidden.length ≠ batch * seq * dim then
    .error s!"hidden tensor length {hidden.length} does not match shape [{batch}, {seq}, {dim}]"
  else if mask.length ≠ batch * seq then
    .error s!"attention mask length {mask.length} does not match shape [{batch}, {seq}]"
  else if pooling.wordEmbeddingDimension ≠ dim then
    .error s!"pooling metadata expects hidden size {pooling.wordEmbeddingDimension}, but ONNX returned {dim}"
  else if pooling.enabledCount = 0 then
    .error "pooling metadata enables no supported pooling mode"
  else .ok ((List.range batch).map fun row =>
    poolRow sqrt pooling dim (fun token => slice hidden ((row * seq + token) * dim) dim) (slice mask (row * seq) seq))

def normalizeRow (sqrt : K → K) (row : List K) : List K :=
  let norm := sqrt (row.map fun value => value * value).sum
  if 0 < norm then row.map (· / norm) else row

def normalizeNestedRows (sqrt : K → K) (rows : List (List K)) : List (List K) := rows.map (normalizeRow sqrt)

section Rows

variable {sqrt : K → K} {pooling : PoolingConfig} {dim : Nat} {hidden hidden' : Nat → List K} {mask : List Nat}

/-- A row is pooled as without its padding. -/
theorem poolRow_padded (padding : Nat) (hvectors : ∀ t < mask.length, hidden t = hidden' t)
    (hfirst : pooling.poolingModeClsToken = true → hidden 0 = hidden' 0) :
    poolRow sqrt pooling dim hidden (mask ++ List.replicate padding 0) = poolRow sqrt pooling dim hidden' mask := by
  have hmax : maxTokens dim hidden (mask ++ List.replicate padding 0) = maxTokens dim hidden' mask := by
    rw [maxTokens, maxTokens, overTokens_padded padding fun values _ t ht => by rw [hvectors t ht]]
  have hsums : sums dim hidden (mask ++ List.replicate padding 0) = sums dim hidden' mask :=
    overTokens_padded padding fun s m t ht => by rw [hvectors t ht]
  have hlast : lastToken dim hidden (mask ++ List.replicate padding 0) = lastToken dim hidden' mask := by
    rw [lastToken, lastToken, rposition_padded]
    cases hposition : rposition mask with
    | none => rfl
    | some t => exact hvectors t (rposition_lt hposition)
  rw [poolRow, poolRow, hmax, hsums, hlast]
  cases hcls : pooling.poolingModeClsToken with
  | false => rfl
  | true => rw [hfirst hcls]

omit [LinearOrder K] in
theorem sums_width (hwidth : ∀ t < mask.length, (hidden t).length = dim) :
    (sums dim hidden mask).sum.length = dim ∧ (sums dim hidden mask).weightedSum.length = dim := by
  refine overTokens_induction (P := fun s : Sums K => s.sum.length = dim ∧ s.weightedSum.length = dim)
    ⟨List.length_replicate, List.length_replicate⟩ fun s m t ht hs => ?_
  rw [Sums.add, List.length_zipWith, List.length_zipWith, hs.1, hs.2, hwidth t ht, Nat.min_self]
  exact ⟨rfl, rfl⟩

theorem maxTokens_width (hwidth : ∀ t < mask.length, (hidden t).length = dim) : (maxTokens dim hidden mask).length = dim := by
  rw [maxTokens, List.length_map]
  refine overTokens_induction (P := fun values : List (Option K) => values.length = dim) List.length_replicate
    fun values m t ht hvalues => ?_
  rw [List.length_zipWith, hvalues, hwidth t ht, Nat.min_self]

omit [LinearOrder K] in
theorem lastToken_width (hwidth : ∀ t < mask.length, (hidden t).length = dim) : (lastToken dim hidden mask).length = dim := by
  rw [lastToken]
  cases hposition : rposition mask with
  | none => exact List.length_replicate
  | some t => exact hwidth t (rposition_lt hposition)

theorem length_ite_nil {α : Type*} (b : Bool) {l : List α} {n : Nat} (h : l.length = n) :
    (if b then l else []).length = (if b then n else 0) := by
  cases b
  · rfl
  · exact h

theorem mul_count_cons (b : Bool) (flags : List Bool) :
    dim * ((b :: flags).filter id).length = (if b then dim else 0) + dim * (flags.filter id).length := by
  cases b with
  | false => exact (Nat.zero_add _).symm
  | true => exact (Nat.mul_succ dim _).trans (Nat.add_comm _ _)

theorem poolRow_width (hwidth : ∀ t < mask.length, (hidden t).length = dim)
    (hfirst : pooling.poolingModeClsToken = true → (hidden 0).length = dim) :
    (poolRow sqrt pooling dim hidden mask).length = dim * pooling.enabledCount := by
  obtain ⟨hsum, hweighted⟩ := sums_width hwidth
  have hcls : (if pooling.poolingModeClsToken then hidden 0 else []).length = if pooling.poolingModeClsToken then dim else 0 := by
    cases h : pooling.poolingModeClsToken with
    | false => rfl
    | true => exact hfirst h
  simp only [poolRow, List.length_append, hcls, length_ite_nil _ (maxTokens_width hwidth),
    length_ite_nil _ ((List.length_map _).trans hsum), length_ite_nil _ ((List.length_map _).trans hweighted),
    length_ite_nil _ (lastToken_width hwidth)]
  simp only [PoolingConfig.enabledCount, mul_count_cons, List.filter_nil, List.length_nil, Nat.mul_zero, Nat.add_zero, Nat.add_assoc]

theorem mem_ite_nil {α : Type*} {b : Bool} {l : List α} {x : α} (h : x ∈ if b then l else []) : b = true ∧ x ∈ l := by
  cases b with
  | false => cases h
  | true => exact ⟨rfl, h⟩

/-- A row without a token is zero apart from what is read at its first position. -/
theorem poolRow_blank {x : K} (h : x ∈ poolRow sqrt pooling dim hidden []) :
    x = 0 ∨ pooling.poolingModeClsToken = true ∧ x ∈ hidden 0 := by
  have hdivided : ∀ {y : K}, x ∈ (List.replicate dim (0 : K)).map (· / y) → x = 0 := by
    intro y hx
    obtain ⟨z, hz, rfl⟩ := List.mem_map.mp hx
    rw [List.eq_of_mem_replicate hz, zero_div]
  simp only [poolRow, List.mem_append] at h
  rcases h with ((((h | h) | h) | h) | h) | h
  · exact .inr (mem_ite_nil h)
  · obtain ⟨y, hy, rfl⟩ := List.mem_map.mp (mem_ite_nil h).2
    rw [List.eq_of_mem_replicate hy]
    exact .inl rfl
  · exact .inl (hdivided (mem_ite_nil h).2)
  · exact .inl (hdivided (mem_ite_nil h).2)
  · exact .inl (hdivided (mem_ite_nil h).2)
  · exact .inl (List.eq_of_mem_replicate (mem_ite_nil h).2)

theorem normalizeRow_width (row : List K) : (normalizeRow sqrt row).length = row.length := by
  rw [normalizeRow]
  split
  · exact List.length_map _
  · rfl

theorem normalizeRow_zero {row : List K} : (∀ x ∈ normalizeRow sqrt row, x = 0) ↔ ∀ x ∈ row, x = 0 := by
  rw [normalizeRow]
  split
  · rename_i hnorm
    rw [List.forall_mem_map]
    refine forall₂_congr fun x _ => ?_
    rw [div_eq_zero_iff, or_iff_left hnorm.ne']
  · exact Iff.rfl

end Rows

end Wordflow.Embedding
