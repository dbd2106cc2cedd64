import Wordflow.Embedding.Pooling
import Wordflow.Library.Batches

namespace Wordflow.Embedding

open Library Library.Batches Library.Fallible

structure BatchShape where
  rows : Nat
  tokens : Nat

inductive EmbeddingOutput
  | tokenEmbeddings (name : String)
  | sentenceEmbedding (name : String)

def EmbeddingOutput.name : EmbeddingOutput → String
  | .tokenEmbeddings name => name
  | .sentenceEmbedding name => name

structure Token where
  id : Nat
  typeId : Nat
  deriving DecidableEq

structure Encoding where
  ids : List Nat
  attentionMask : List Nat
  typeIds : List Nat

inductive PaddingStrategy
  | batchLongest
  | fixed (length : Nat)

def longest (lengths : List Nat) : Nat := lengths.foldr max 0

/-- Padding on the right, with the token and the type zero. -/
def pad (length : Nat) (tokens : List Token) : Encoding where
  ids := tokens.map Token.id ++ List.replicate (length - tokens.length) 0
  attentionMask := List.replicate tokens.length 1 ++ List.replicate (length - tokens.length) 0
  typeIds := tokens.map Token.typeId ++ List.replicate (length - tokens.length) 0

def PaddingStrategy.length (rows : List (List Token)) : PaddingStrategy → Nat
  | .batchLongest => longest (rows.map List.length)
  | .fixed length => length

/-- The tensors a network is run on. -/
structure Inputs where
  batch : Nat
  seq : Nat
  inputIds : List Nat
  attentionMask : List Nat
  tokenTypeIds : Option (List Nat)

inductive Value (K : Type*)
  | floats (dims : List Nat) (data : List K)
  | other

/-- The network: no result where the run fails, else its outputs by name. -/
abbrev Session (K : Type*) := Inputs → Option (String → Option (Value K))

/-- A loaded model apart from its network, with what loading has checked. -/
structure Embedder where
  tokenize : String → List Token
  inputNames : List String
  output : EmbeddingOutput
  pooling : PoolingConfig
  normalize : Bool
  embeddingDim : Nat
  maxLength : Nat
  fixedShape : Option BatchShape
  hidden_size : 0 < pooling.wordEmbeddingDimension ∧ pooling.wordEmbeddingDimension < 1000000
  mode_count : pooling.enabledCount ≠ 0
  embedding_dim : embeddingDim = pooling.wordEmbeddingDimension * pooling.enabledCount
  max_length : 0 < maxLength
  truncated : ∀ text, (tokenize text).length ≤ maxLength
  shape : ∀ s ∈ fixedShape, 0 < s.rows ∧ maxLength ≤ s.tokens

structure OutputBatch (K : Type*) where
  dims : List Nat
  data : List K
  batch : Nat
  sequenceLength : Nat
  attentionMask : List Nat

def Encoding.inputs (e : Embedder) (batch seq : Nat) (encodings : List Encoding) : Inputs where
  batch := batch
  seq := seq
  inputIds := encodings.flatMap Encoding.ids
  attentionMask := encodings.flatMap Encoding.attentionMask
  tokenTypeIds := if "token_type_ids" ∈ e.inputNames then some (encodings.flatMap Encoding.typeIds) else none

variable {K : Type*} [Field K] [LinearOrder K]

def chunksExact {α : Type*} (size : Nat) (data : List α) : List (List α) :=
  (List.range (data.length / size)).map fun row => slice data (row * size) size

def embeddingsFromOutput (sqrt : K → K) (output : EmbeddingOutput) (pooling : PoolingConfig) (normalize : Bool)
    (b : OutputBatch K) : Except String (List (List K)) :=
  let expectedDimension := pooling.wordEmbeddingDimension * pooling.enabledCount
  let incompatible : Except String (List (List K)) :=
    .error s!"ONNX output {output.name} has incompatible shape {b.dims} for the declared Sentence Transformers graph"
  if 2 ^ 64 ≤ expectedDimension then .error "metadata-derived embedding dimension overflow"
  else do
    let rows ← (match output, b.dims with
      | .sentenceEmbedding _, [outBatch, dim] =>
          if outBatch ≠ b.batch then incompatible
          else if dim ≠ expectedDimension then
            .error s!"sentence embedding output width {dim} does not match metadata-derived width {expectedDimension}"
          else if b.data.length ≠ b.batch * dim then
            .error s!"sentence embedding tensor length {b.data.length} does not match shape [{b.batch}, {dim}]"
          else .ok (chunksExact dim b.data)
      | .tokenEmbeddings _, [outBatch, outSeq, dim] =>
          if outBatch ≠ b.batch ∨ outSeq ≠ b.sequenceLength then incompatible
          else poolTokenEmbeddings sqrt b.data b.batch b.sequenceLength dim b.attentionMask pooling
      | _, _ => incompatible)
    return if normalize then normalizeNestedRows sqrt rows else rows

/-- Encoding one batch. A batch without any token gives zeros and does not reach the network. -/
def encodeWithPadding (sqrt : K → K) (e : Embedder) (session : Session K) (padding : PaddingStrategy) (texts : List String) :
    Except String (List (List K)) :=
  if texts = [] then .ok []
  else
    let tokens := texts.map e.tokenize
    let encodings := tokens.map (pad (padding.length tokens))
    let batch := encodings.length
    let seq := longest (encodings.map fun encoding => encoding.ids.length)
    if seq = 0 then .ok (List.replicate batch (List.replicate e.embeddingDim 0))
    else if (encodings.flatMap Encoding.ids).length ≠ batch * seq then .error "build input_ids tensor"
    else if (encodings.flatMap Encoding.attentionMask).length ≠ batch * seq then .error "build attention_mask tensor"
    else if (encodings.flatMap Encoding.typeIds).length ≠ batch * seq then .error "build token_type_ids tensor"
    else match session (Encoding.inputs e batch seq encodings) with
      | none => .error "ONNX embedding inference failed"
      | some outputs =>
          match outputs e.output.name with
          | none => .error s!"ONNX inference did not return declared output {e.output.name}"
          | some .other => .error "extract ONNX embedding tensor"
          | some (.floats dims data) =>
              embeddingsFromOutput sqrt e.output e.pooling e.normalize
                ⟨dims, data, batch, seq, encodings.flatMap Encoding.attentionMask⟩

/-- With a fixed shape the texts go in slices of its rows, the last one filled up with empty texts. -/
def encode (sqrt : K → K) (e : Embedder) (session : Session K) (texts : List String) : Except String (List (List K)) :=
  match e.fixedShape with
  | some shape => sliced shape.rows (filled shape.rows "" (encodeWithPadding sqrt e session (.fixed shape.tokens))) texts
  | none => encodeWithPadding sqrt e session .batchLongest texts

def topicEmbeddingBatchSize : Nat := 32

def encodeTopicEmbeddingBatches (texts : List String) (encodeBatch : List String → Except String (List (List K))) :
    Except String (List (List K)) :=
  sliced topicEmbeddingBatchSize
    (counted (fun vectors batch => s!"topic embedding batch encoder returned {vectors} vectors for {batch} texts") encodeBatch) texts

section Padding

theorem le_longest {lengths : List Nat} {n : Nat} (h : n ∈ lengths) : n ≤ longest lengths := by
  induction lengths with
  | nil => cases h
  | cons m lengths ih =>
      rcases List.mem_cons.mp h with rfl | h
      · exact Nat.le_max_left _ _
      · exact (ih h).trans (Nat.le_max_right _ _)

theorem longest_eq {lengths : List Nat} {n : Nat} (h : ∀ m ∈ lengths, m = n) (hne : lengths ≠ []) : longest lengths = n := by
  rw [List.eq_replicate_of_mem h]
  induction lengths with
  | nil => exact absurd rfl hne
  | cons m lengths ih =>
      cases lengths with
      | nil => exact Nat.max_zero n
      | cons k lengths =>
          have htail := ih (fun m hm => h m (List.mem_cons_of_mem _ hm)) (List.cons_ne_nil _ _)
          exact (congrArg (max n) htail).trans (Nat.max_self n)

variable {tokens : List Token} {n : Nat}

theorem pad_lengths (h : tokens.length ≤ n) :
    (pad n tokens).ids.length = n ∧ (pad n tokens).attentionMask.length = n ∧ (pad n tokens).typeIds.length = n := by
  simp only [pad, List.length_append, List.length_map, List.length_replicate]
  omega

variable {α β : Type*} {f : α → List β} {items : List α}

theorem length_flatMap_eq (h : ∀ a ∈ items, (f a).length = n) : (items.flatMap f).length = items.length * n := by
  induction items with
  | nil => exact (Nat.zero_mul n).symm
  | cons a items ih =>
      obtain ⟨ha, hrest⟩ := List.forall_mem_cons.mp h
      rw [List.flatMap_cons, List.length_append, ha, ih hrest, List.length_cons, Nat.succ_mul, Nat.add_comm]

/-- Lists of one length after another, read back by slices. -/
theorem slice_flatMap (h : ∀ a ∈ items, (f a).length = n) {i : Nat} {a : α} (hi : items[i]? = some a) :
    slice (items.flatMap f) (i * n) n = f a := by
  induction items generalizing i with
  | nil => cases hi
  | cons b items ih =>
      obtain ⟨hb, hrest⟩ := List.forall_mem_cons.mp h
      cases i with
      | zero =>
          cases hi
          rw [Nat.zero_mul, List.flatMap_cons]
          exact List.take_left' hb
      | succ i =>
          have hskip : (f b ++ items.flatMap f).drop ((i + 1) * n) = (items.flatMap f).drop (i * n) := by
            rw [Nat.succ_mul, Nat.add_comm, ← List.drop_drop, List.drop_left' hb]
          rw [slice, List.flatMap_cons, hskip]
          exact ih hrest hi

theorem slice_length {data : List α} {offset len : Nat} (h : offset + len ≤ data.length) : (slice data offset len).length = len := by
  rw [slice, List.length_take, List.length_drop]
  omega

end Padding

section Spec

variable {sqrt : K → K} {e : Embedder} {session : Session K} {rows : List (List Token)} {texts : List String}
  {padding : PaddingStrategy} {data : List K} {vectors : List (List K)} {n : Nat}

/-- Shape of a tensor with an embedding for each row. -/
def Embedder.dims (e : Embedder) (batch seq : Nat) : List Nat :=
  match e.output with
  | .tokenEmbeddings _ => [batch, seq, e.pooling.wordEmbeddingDimension]
  | .sentenceEmbedding _ => [batch, e.embeddingDim]

/-- The network's answer for rows that are padded to one length. -/
def Returns (e : Embedder) (session : Session K) (rows : List (List Token)) (n : Nat) (data : List K) : Prop :=
  ∃ outputs, session (Encoding.inputs e rows.length n (rows.map (pad n))) = some outputs ∧
    outputs e.output.name = some (.floats (e.dims rows.length n) data) ∧ data.length = (e.dims rows.length n).prod

def finish (sqrt : K → K) (normalize : Bool) (row : List K) : List K := if normalize then normalizeRow sqrt row else row

/-- The vector that is read from a tensor for one of its rows. -/
def Embedder.rowVector (sqrt : K → K) (e : Embedder) (data : List K) (n row : Nat) (tokens : List Token) : List K :=
  finish sqrt e.normalize <| match e.output with
  | .tokenEmbeddings _ =>
      poolRow sqrt e.pooling e.pooling.wordEmbeddingDimension
        (fun t => slice data ((row * n + t) * e.pooling.wordEmbeddingDimension) e.pooling.wordEmbeddingDimension)
        (pad n tokens).attentionMask
  | .sentenceEmbedding _ => slice data (row * e.embeddingDim) e.embeddingDim

theorem map_finish (rows : List (List K)) (normalize : Bool) :
    (if normalize then normalizeNestedRows sqrt rows else rows) = rows.map (finish sqrt normalize) := by
  cases normalize with
  | false => exact (List.map_id rows).symm
  | true => rfl

theorem poolTokenEmbeddings_ok {hidden : List K} {batch seq dim : Nat} {mask : List Nat} {pooling : PoolingConfig}
    (hcount : pooling.enabledCount ≠ 0) (hmask : mask.length = batch * seq) :
    poolTokenEmbeddings sqrt hidden batch seq dim mask pooling = .ok vectors ↔
      hidden.length = batch * seq * dim ∧ pooling.wordEmbeddingDimension = dim ∧ vectors = (List.range batch).map fun row =>
        poolRow sqrt pooling dim (fun token => slice hidden ((row * seq + token) * dim) dim) (slice mask (row * seq) seq) := by
  rw [poolTokenEmbeddings, guard_eq_ok, guard_eq_ok, guard_eq_ok, guard_eq_ok, not_not, not_not, not_not, Except.ok.injEq]
  constructor
  · rintro ⟨hlength, -, hdim, -, rfl⟩
    exact ⟨hlength, hdim, rfl⟩
  · rintro ⟨hlength, hdim, rfl⟩
    exact ⟨hlength, hmask, hdim, hcount, rfl⟩

theorem map_range_eq_mapIdx {α β : Type*} {items : List α} {g : Nat → β} {f : Nat → α → β}
    (h : ∀ i a, items[i]? = some a → g i = f i a) : (List.range items.length).map g = items.mapIdx f := by
  ext i b
  rw [List.getElem?_map, List.getElem?_mapIdx]
  by_cases hi : i < items.length
  · rw [List.getElem?_range hi, List.getElem?_eq_getElem hi]
    exact (congrArg (fun x => some x = some b) (h i _ (List.getElem?_eq_getElem hi))).to_iff
  · rw [List.getElem?_eq_none (by simpa using hi), List.getElem?_eq_none (by simpa using hi)]
    rfl

theorem Embedder.dimension_bound (e : Embedder) : ¬2 ^ 64 ≤ e.pooling.wordEmbeddingDimension * e.pooling.enabledCount := by
  have hmodes : e.pooling.enabledCount ≤ 6 := List.length_filter_le _ _
  have hproduct := Nat.mul_le_mul e.hidden_size.2.le hmodes
  omega

theorem Embedder.embeddingDim_pos (e : Embedder) : 0 < e.embeddingDim :=
  e.embedding_dim ▸ Nat.mul_pos e.hidden_size.1 (Nat.pos_of_ne_zero e.mode_count)

theorem chunksExact_eq {α : Type*} {data : List α} {batch size : Nat} (hsize : 0 < size) (h : data.length = batch * size) :
    chunksExact size data = (List.range batch).map fun row => slice data (row * size) size := by
  rw [chunksExact, h, Nat.mul_div_cancel _ hsize]

/-- What comes out of the network is accepted exactly in the declared shape. -/
theorem embeddingsFromOutput_ok {dims : List Nat} (hfit : ∀ tokens ∈ rows, tokens.length ≤ n) :
    embeddingsFromOutput sqrt e.output e.pooling e.normalize
        ⟨dims, data, rows.length, n, (rows.map (pad n)).flatMap Encoding.attentionMask⟩ = .ok vectors ↔
      dims = e.dims rows.length n ∧ data.length = (e.dims rows.length n).prod ∧
        vectors = rows.mapIdx (e.rowVector sqrt data n) := by
  have hmasks : ∀ encoding ∈ rows.map (pad n), encoding.attentionMask.length = n :=
    List.forall_mem_map.mpr fun tokens htokens => (pad_lengths (hfit tokens htokens)).2.1
  have hmask := length_flatMap_eq hmasks
  rw [List.length_map] at hmask
  unfold embeddingsFromOutput Embedder.dims
  rw [guard_eq_ok, and_iff_right e.dimension_bound]
  cases houtput : e.output with
  | sentenceEmbedding name =>
      rcases dims with _ | ⟨outBatch, _ | ⟨dim, _ | ⟨c, dims⟩⟩⟩
      · simp [bind, Except.bind]
      · simp [bind, Except.bind]
      · simp only [bind_eq_ok, guard_eq_ok, not_not, Except.ok.injEq, map_finish, pure, Except.pure]
        have hvector (row : Nat) (tokens : List Token) : e.rowVector sqrt data n row tokens =
            finish sqrt e.normalize (slice data (row * e.embeddingDim) e.embeddingDim) := by
          rw [Embedder.rowVector, houtput]
        have hrows : (List.range rows.length).map (finish sqrt e.normalize ∘ fun row => slice data (row * e.embeddingDim) e.embeddingDim) =
            rows.mapIdx (e.rowVector sqrt data n) := map_range_eq_mapIdx fun row tokens _ => (hvector row tokens).symm
        rw [← e.embedding_dim, List.prod_cons, List.prod_singleton]
        constructor
        · rintro ⟨chunks, ⟨rfl, rfl, hlength, rfl⟩, rfl⟩
          rw [chunksExact_eq e.embeddingDim_pos hlength, List.map_map, hrows]
          exact ⟨rfl, hlength, rfl⟩
        · rintro ⟨hdims, hlength, rfl⟩
          cases hdims
          refine ⟨_, ⟨rfl, rfl, hlength, rfl⟩, ?_⟩
          rw [chunksExact_eq e.embeddingDim_pos hlength, List.map_map, hrows]
      · simp [bind, Except.bind]
  | tokenEmbeddings name =>
      rcases dims with _ | ⟨outBatch, _ | ⟨outSeq, _ | ⟨dim, _ | ⟨d, dims⟩⟩⟩⟩
      · simp [bind, Except.bind]
      · simp [bind, Except.bind]
      · simp [bind, Except.bind]
      · simp only [bind_eq_ok, guard_eq_ok, not_or, not_not, Except.ok.injEq, map_finish, pure, Except.pure,
          poolTokenEmbeddings_ok e.mode_count hmask]
        have hrows : (List.range rows.length).map (finish sqrt e.normalize ∘ fun row =>
            poolRow sqrt e.pooling e.pooling.wordEmbeddingDimension
              (fun t => slice data ((row * n + t) * e.pooling.wordEmbeddingDimension) e.pooling.wordEmbeddingDimension)
              (slice ((rows.map (pad n)).flatMap Encoding.attentionMask) (row * n) n)) =
            rows.mapIdx (e.rowVector sqrt data n) := by
          refine map_range_eq_mapIdx fun row tokens htokens => ?_
          have hslice := slice_flatMap hmasks (i := row) (a := pad n tokens) (by rw [List.getElem?_map, htokens]; rfl)
          rw [Embedder.rowVector, houtput, Function.comp_apply, hslice]
        rw [List.prod_cons, List.prod_cons, List.prod_singleton, ← Nat.mul_assoc]
        constructor
        · rintro ⟨pooled, ⟨⟨rfl, rfl⟩, hlength, rfl, rfl⟩, rfl⟩
          rw [List.map_map, hrows]
          exact ⟨rfl, hlength, rfl⟩
        · rintro ⟨hdims, hlength, rfl⟩
          cases hdims
          exact ⟨_, ⟨⟨rfl, rfl⟩, hlength, rfl, rfl⟩, by rw [List.map_map, hrows]⟩
      · simp [bind, Except.bind]

/-- A batch is encoded row by row from the network's answer, without it where there is no token. -/
theorem encodeWithPadding_ok (hne : texts ≠ []) (hrows : texts.map e.tokenize = rows) (hlength : padding.length rows = n)
    (hfit : ∀ tokens ∈ rows, tokens.length ≤ n) :
    encodeWithPadding sqrt e session padding texts = .ok vectors ↔
      if n = 0 then vectors = List.replicate texts.length (List.replicate e.embeddingDim 0)
      else ∃ data, Returns e session rows n data ∧ vectors = rows.mapIdx (e.rowVector sqrt data n) := by
  have hpads {f : Encoding → List Nat} (h : ∀ tokens ∈ rows, (f (pad n tokens)).length = n) :
      ((rows.map (pad n)).flatMap f).length = rows.length * n := by
    rw [length_flatMap_eq (List.forall_mem_map.mpr h), List.length_map]
  have hids := hpads fun tokens h => (pad_lengths (hfit tokens h)).1
  have hmasks := hpads fun tokens h => (pad_lengths (hfit tokens h)).2.1
  have htypes := hpads fun tokens h => (pad_lengths (hfit tokens h)).2.2
  have hseq : longest ((rows.map (pad n)).map fun encoding => encoding.ids.length) = n := by
    refine longest_eq (fun m hm => ?_) (by simpa [← hrows] using hne)
    obtain ⟨tokens, htokens, rfl⟩ := List.mem_map.mp (List.map_map ▸ hm)
    exact (pad_lengths (hfit tokens htokens)).1
  have hcount : rows.length = texts.length := hrows ▸ List.length_map _
  unfold encodeWithPadding
  simp only [if_neg hne, hrows, hlength, hseq, List.length_map, hids, hmasks, htypes, ne_eq, not_true_eq_false, if_false]
  by_cases hzero : n = 0
  · rw [if_pos hzero, if_pos hzero, Except.ok.injEq, hcount, eq_comm]
  · rw [if_neg hzero, if_neg hzero]
    cases houtputs : session (Encoding.inputs e rows.length n (rows.map (pad n))) with
    | none => simp [Returns, houtputs]
    | some outputs =>
        cases hvalue : outputs e.output.name with
        | none => simp [Returns, houtputs, hvalue]
        | some value =>
            cases value with
            | other => simp [Returns, houtputs, hvalue]
            | floats dims data =>
                simp only [hvalue, embeddingsFromOutput_ok hfit]
                constructor
                · rintro ⟨rfl, hdata, rfl⟩
                  exact ⟨data, ⟨outputs, houtputs, hvalue, hdata⟩, rfl⟩
                · rintro ⟨data', ⟨outputs', houtputs', hvalue', hdata⟩, rfl⟩
                  cases houtputs.symm.trans houtputs'
                  cases hvalue.symm.trans hvalue'
                  exact ⟨rfl, hdata, rfl⟩

end Spec

end Wordflow.Embedding
