import Wordflow.Embedding.Encode

namespace Wordflow.Embedding

open Library Library.Batches Library.Fallible

variable {K : Type*} [Field K] [LinearOrder K]

/-- The network looks at one row at a time and not at its padding: the vectors of a
row's tokens, or its sentence vector, depend on those tokens alone. Nothing is said
of the vectors at padding. -/
structure RowLocal (e : Embedder) (session : Session K) : Prop where
  tokens : ∀ name, e.output = .tokenEmbeddings name → ∃ vector : List Token → Nat → List K,
    ∀ rows n data, (∀ tokens ∈ rows, tokens.length ≤ n) → Returns e session rows n data →
      ∀ row tokens, rows[row]? = some tokens → ∀ t < tokens.length,
        slice data ((row * n + t) * e.pooling.wordEmbeddingDimension) e.pooling.wordEmbeddingDimension = vector tokens t
  sentence : ∀ name, e.output = .sentenceEmbedding name → ∃ vector : List Token → List K,
    ∀ rows n data, (∀ tokens ∈ rows, tokens.length ≤ n) → Returns e session rows n data →
      ∀ row tokens, rows[row]? = some tokens → slice data (row * e.embeddingDim) e.embeddingDim = vector tokens

/-- A text's vector, of the declared width, and the one it gets alone. -/
def Own (sqrt : K → K) (e : Embedder) (session : Session K) (text : String) (vector : List K) : Prop :=
  vector.length = e.pooling.wordEmbeddingDimension * e.pooling.enabledCount ∧
    ∀ alone, encode sqrt e session [text] = .ok alone → alone = [vector]

/-- One vector for each text, in order, whatever it is encoded with. -/
structure Independent (sqrt : K → K) (e : Embedder) (session : Session K) : Prop where
  batches : ∀ (batches : List (List String)) vectors, batches.mapM (encode sqrt e session) = .ok vectors →
    List.Forall₂ (Own sqrt e session) batches.flatten vectors.flatten
  topics : ∀ texts vectors, encodeTopicEmbeddingBatches texts (encode sqrt e session) = .ok vectors →
    List.Forall₂ (Own sqrt e session) texts vectors
  stored : ∀ missing missing' vectors vectors', encodeTopicEmbeddingBatches missing (encode sqrt e session) = .ok vectors →
    encodeTopicEmbeddingBatches missing' (encode sqrt e session) = .ok vectors' →
      ∀ text v v', (text, v) ∈ missing.zip vectors → (text, v') ∈ missing'.zip vectors' → v = v'

/-- No vector is read at padding, and no text without a token shares a batch with a
sentence vector or the shortcut for batches without tokens. -/
def Embedder.Apart (e : Embedder) : Prop :=
  match e.fixedShape with
  | none => (∀ text, e.tokenize text ≠ []) ∨ (∀ text, e.tokenize text = []) ∨
      e.pooling.poolingModeClsToken = false ∧ ∃ name, e.output = .tokenEmbeddings name
  | some shape => (∀ text, e.tokenize text ≠ []) ∨ shape.rows = 1 ∨
      e.pooling.poolingModeClsToken = false ∨ ∃ name, e.output = .sentenceEmbedding name

section Rows

variable {sqrt : K → K} {e : Embedder} {session : Session K} {rows : List (List Token)} {texts : List String}
  {data : List K} {vectors : List (List K)} {n : Nat} {value : String → List K}

def Embedder.padding (e : Embedder) : PaddingStrategy :=
  match e.fixedShape with
  | some shape => .fixed shape.tokens
  | none => .batchLongest

theorem Embedder.fits (e : Embedder) (hrows : texts.map e.tokenize = rows) :
    ∀ tokens ∈ rows, tokens.length ≤ e.padding.length rows := by
  subst rows
  refine List.forall_mem_map.mpr fun text htext => ?_
  rw [Embedder.padding]
  cases hshape : e.fixedShape with
  | none => exact le_longest (List.mem_map_of_mem (List.mem_map_of_mem htext))
  | some shape => exact (e.truncated text).trans (e.shape shape hshape).2

/-- Only batches that are padded to their longest row can be without any token. -/
theorem Embedder.padding_zero (e : Embedder) (h : e.padding.length rows = 0) (hfit : ∀ tokens ∈ rows, tokens.length ≤ e.padding.length rows) :
    e.fixedShape = none ∧ ∀ tokens ∈ rows, tokens = [] := by
  constructor
  · cases hshape : e.fixedShape with
    | none => rfl
    | some shape =>
        have hlong := (e.shape shape hshape).2
        have hpos := e.max_length
        rw [Embedder.padding, hshape] at h
        change shape.tokens = 0 at h
        omega
  · intro tokens htokens
    exact List.length_eq_zero_iff.mp (Nat.eq_zero_of_le_zero (h ▸ hfit tokens htokens))

theorem mapIdx_eq_map {α β : Type*} {items : List α} {f : Nat → α → β} {g : α → β}
    (h : ∀ i a, items[i]? = some a → f i a = g a) : items.mapIdx f = items.map g := by
  ext i b
  rw [List.getElem?_mapIdx, List.getElem?_map]
  cases hi : items[i]? with
  | none => rfl
  | some a => rw [Option.map_some, Option.map_some, h i a hi]

theorem Embedder.encode_ok (e : Embedder) (hne : texts ≠ []) :
    encodeWithPadding sqrt e session e.padding texts = .ok vectors ↔
      if e.padding.length (texts.map e.tokenize) = 0 then vectors = List.replicate texts.length (List.replicate e.embeddingDim 0)
      else ∃ data, Returns e session (texts.map e.tokenize) (e.padding.length (texts.map e.tokenize)) data ∧
        vectors = (texts.map e.tokenize).mapIdx (e.rowVector sqrt data (e.padding.length (texts.map e.tokenize))) :=
  encodeWithPadding_ok hne rfl rfl (e.fits rfl)

theorem finish_width (normalize : Bool) (row : List K) : (finish sqrt normalize row).length = row.length := by
  cases normalize with
  | false => rfl
  | true => exact normalizeRow_width row

theorem finish_zero {normalize : Bool} {row : List K} : (∀ x ∈ finish sqrt normalize row, x = 0) ↔ ∀ x ∈ row, x = 0 := by
  cases normalize with
  | false => exact Iff.rfl
  | true => exact normalizeRow_zero

theorem position_fits {row t batch n dim : Nat} (hrow : row < batch) (ht : t < n) :
    (row * n + t) * dim + dim ≤ batch * n * dim := by
  calc (row * n + t) * dim + dim = (row * n + t + 1) * dim := (Nat.succ_mul _ _).symm
    _ ≤ (row * n + n) * dim := Nat.mul_le_mul_right dim (by omega)
    _ = (row + 1) * n * dim := by rw [Nat.succ_mul]
    _ ≤ batch * n * dim := Nat.mul_le_mul_right dim (Nat.mul_le_mul_right n hrow)

/-- Rows that are read from a tensor have the declared width. -/
theorem Embedder.rowVector_width (e : Embedder) (hdata : data.length = (e.dims rows.length n).prod) {row : Nat}
    {tokens : List Token} (hrow : row < rows.length) (hn : n ≠ 0) (hfit : tokens.length ≤ n) :
    (e.rowVector sqrt data n row tokens).length = e.embeddingDim := by
  rw [Embedder.rowVector, finish_width]
  cases houtput : e.output with
  | sentenceEmbedding name =>
      rw [Embedder.dims, houtput, List.prod_cons, List.prod_singleton] at hdata
      refine slice_length ?_
      rw [hdata, ← Nat.succ_mul]
      exact Nat.mul_le_mul_right _ hrow
  | tokenEmbeddings name =>
      rw [Embedder.dims, houtput, List.prod_cons, List.prod_cons, List.prod_singleton, ← Nat.mul_assoc] at hdata
      have hposition (t : Nat) (ht : t < n) : (slice data ((row * n + t) * e.pooling.wordEmbeddingDimension)
          e.pooling.wordEmbeddingDimension).length = e.pooling.wordEmbeddingDimension :=
        slice_length (hdata ▸ position_fits hrow ht)
      refine (poolRow_width (fun t ht => hposition t ?_) fun _ => hposition 0 (Nat.pos_of_ne_zero hn)).trans e.embedding_dim.symm
      rwa [(pad_lengths hfit).2.1] at ht

theorem encode_padding (hshape : e.fixedShape = none) : encode sqrt e session = encodeWithPadding sqrt e session e.padding := by
  funext texts
  rw [encode, Embedder.padding, hshape]

theorem encode_slices {shape : BatchShape} (hshape : e.fixedShape = some shape) : encode sqrt e session =
    sliced shape.rows (filled shape.rows "" (encodeWithPadding sqrt e session e.padding)) := by
  funext texts
  rw [encode, Embedder.padding, hshape]

theorem encodeWithPadding_nil (padding : PaddingStrategy) : encodeWithPadding sqrt e session padding [] = .ok [] := if_pos rfl

theorem encodeWithPadding_count (h : encodeWithPadding sqrt e session e.padding texts = .ok vectors) :
    vectors.length = texts.length := by
  by_cases hne : texts = []
  · subst hne
    cases (encodeWithPadding_nil _).symm.trans h
    rfl
  · have hrows := (e.encode_ok hne).mp h
    split at hrows
    · rw [hrows, List.length_replicate]
    · obtain ⟨data, -, rfl⟩ := hrows
      rw [List.length_mapIdx, List.length_map]

theorem encode_width : Returning (encode sqrt e session) fun vector => vector.length = e.embeddingDim := by
  have hrun : Returning (encodeWithPadding sqrt e session e.padding) fun vector => vector.length = e.embeddingDim := by
    intro texts vectors h v hv
    by_cases hne : texts = []
    · subst hne
      cases (encodeWithPadding_nil _).symm.trans h
      cases hv
    · have hrows := (e.encode_ok hne).mp h
      split at hrows
      · rw [hrows] at hv
        rw [List.eq_of_mem_replicate hv, List.length_replicate]
      · rename_i hn
        obtain ⟨data, ⟨-, -, -, hdata⟩, rfl⟩ := hrows
        obtain ⟨row, hrow, rfl⟩ := List.mem_mapIdx.mp hv
        exact e.rowVector_width hdata hrow hn (e.fits rfl _ (List.getElem_mem hrow))
  cases hshape : e.fixedShape with
  | none => rwa [encode_padding hshape]
  | some shape =>
      rw [encode_slices hshape]
      exact (hrun.filled shape.rows "").sliced shape.rows

/-- A batch is encoded text by text as soon as each row's vector depends on its tokens. -/
theorem pointwise_rows (value : List Token → List K)
    (hzero : e.fixedShape = none → (∃ text, e.tokenize text = []) → value [] = List.replicate e.embeddingDim 0)
    (hrow : ∀ (texts : List String) data, e.padding.length (texts.map e.tokenize) ≠ 0 →
      Returns e session (texts.map e.tokenize) (e.padding.length (texts.map e.tokenize)) data →
      ∀ row tokens, (texts.map e.tokenize)[row]? = some tokens →
        e.rowVector sqrt data (e.padding.length (texts.map e.tokenize)) row tokens = value tokens) :
    Pointwise (encodeWithPadding sqrt e session e.padding) fun text => value (e.tokenize text) := by
  intro texts vectors h
  by_cases hne : texts = []
  · subst hne
    cases (encodeWithPadding_nil _).symm.trans h
    rfl
  · have hrows := (e.encode_ok hne).mp h
    split at hrows
    · rename_i hn
      obtain ⟨hshape, hempty⟩ := e.padding_zero hn (e.fits rfl)
      have hblank (text : String) (htext : text ∈ texts) : e.tokenize text = [] := hempty _ (List.mem_map_of_mem htext)
      rw [hrows]
      symm
      refine List.eq_replicate_iff.mpr ⟨List.length_map _, List.forall_mem_map.mpr fun text htext => ?_⟩
      rw [hblank text htext]
      exact hzero hshape ⟨text, hblank text htext⟩
    · rename_i hn
      obtain ⟨data, hdata, rfl⟩ := hrows
      rw [mapIdx_eq_map (hrow texts data hn hdata), List.map_map]
      rfl

/-- What the vectors of a row's own tokens are pooled to. -/
def Embedder.pooled (sqrt : K → K) (e : Embedder) (vector : List Token → Nat → List K) (tokens : List Token) : List K :=
  finish sqrt e.normalize
    (poolRow sqrt e.pooling e.pooling.wordEmbeddingDimension (vector tokens) (List.replicate tokens.length 1))

theorem rowVector_pooled {name : String} (houtput : e.output = .tokenEmbeddings name) {vector : List Token → Nat → List K}
    {row : Nat} {tokens : List Token} (hfirst : e.pooling.poolingModeClsToken = true → tokens ≠ [])
    (hvector : ∀ t < tokens.length,
      slice data ((row * n + t) * e.pooling.wordEmbeddingDimension) e.pooling.wordEmbeddingDimension = vector tokens t) :
    e.rowVector sqrt data n row tokens = e.pooled sqrt vector tokens := by
  rw [Embedder.rowVector, houtput, Embedder.pooled, pad]
  refine congrArg (finish sqrt e.normalize) (poolRow_padded _ (fun t ht => hvector t ?_) fun hcls => hvector 0 ?_)
  · rwa [List.length_replicate] at ht
  · exact List.length_pos_of_ne_nil (hfirst hcls)

theorem pooled_blank (hcls : e.pooling.poolingModeClsToken = false) (vector : List Token → Nat → List K) :
    e.pooled sqrt vector [] = List.replicate e.embeddingDim 0 := by
  have hnever {P : Prop} (h : e.pooling.poolingModeClsToken = true) : P := Bool.noConfusion (hcls.symm.trans h)
  refine List.eq_replicate_iff.mpr ⟨?_, finish_zero.mpr fun x hx => ?_⟩
  · refine (finish_width _ _).trans ((poolRow_width (fun t ht => ?_) hnever).trans e.embedding_dim.symm)
    cases ht
  · exact (poolRow_blank hx).elim id fun h => hnever h.1

theorem pointwise_tokens (hlocal : RowLocal e session) {name : String} (houtput : e.output = .tokenEmbeddings name)
    (h : e.pooling.poolingModeClsToken = false ∨ ∀ text, e.tokenize text ≠ []) :
    ∃ value, Pointwise (encodeWithPadding sqrt e session e.padding) value := by
  obtain ⟨vector, hvector⟩ := hlocal.tokens name houtput
  refine ⟨_, pointwise_rows (e.pooled sqrt vector) (fun _ hblank => ?_) fun texts data _ hdata row tokens hrow => ?_⟩
  · obtain ⟨text, htext⟩ := hblank
    rcases h with hcls | hfull
    · exact pooled_blank hcls vector
    · exact absurd htext (hfull text)
  · refine rowVector_pooled houtput (fun hcls => ?_) (hvector _ _ data (e.fits rfl) hdata row tokens hrow)
    rcases h with h | hfull
    · exact Bool.noConfusion (h.symm.trans hcls)
    · obtain ⟨text, -, rfl⟩ := List.mem_map.mp (List.mem_of_getElem? hrow)
      exact hfull text

theorem pointwise_sentence (hlocal : RowLocal e session) {name : String} (houtput : e.output = .sentenceEmbedding name)
    (h : e.fixedShape ≠ none ∨ ∀ text, e.tokenize text ≠ []) :
    ∃ value, Pointwise (encodeWithPadding sqrt e session e.padding) value := by
  obtain ⟨vector, hvector⟩ := hlocal.sentence name houtput
  refine ⟨_, pointwise_rows (fun tokens => finish sqrt e.normalize (vector tokens)) (fun hnone hblank => ?_)
    fun texts data _ hdata row tokens hrow => ?_⟩
  · obtain ⟨text, htext⟩ := hblank
    exact (h.elim (fun hsome => absurd hnone hsome) fun hfull => absurd htext (hfull text))
  · rw [Embedder.rowVector, houtput]
    exact congrArg (finish sqrt e.normalize) (hvector _ _ data (e.fits rfl) hdata row tokens hrow)

theorem pointwise_blank (hshape : e.fixedShape = none) (h : ∀ text, e.tokenize text = []) :
    Pointwise (encodeWithPadding sqrt e session e.padding) fun _ => List.replicate e.embeddingDim 0 := by
  refine pointwise_rows (fun _ => List.replicate e.embeddingDim 0) (fun _ _ => rfl) fun texts data hn _ => absurd ?_ hn
  have hrows : (texts.map e.tokenize).map List.length = List.replicate texts.length 0 := by
    refine List.eq_replicate_iff.mpr ⟨by simp, fun m hm => ?_⟩
    obtain ⟨tokens, htokens, rfl⟩ := List.mem_map.mp hm
    obtain ⟨text, -, rfl⟩ := List.mem_map.mp htokens
    rw [h text, List.length_nil]
  rw [Embedder.padding, hshape]
  change longest ((texts.map e.tokenize).map List.length) = 0
  rw [hrows]
  cases texts with
  | nil => rfl
  | cons text texts => exact longest_eq (fun m hm => List.eq_of_mem_replicate hm) (List.cons_ne_nil _ _)

/-- Where a batch has one row, encoding a batch is encoding its text. -/
theorem pointwise_single {shape : BatchShape} (hshape : e.fixedShape = some shape) (h : shape.rows = 1) :
    ∃ value, Pointwise (encode sqrt e session) value := by
  rw [encode_slices hshape, h]
  let run := filled 1 "" (encodeWithPadding sqrt e session e.padding)
  refine ⟨fun text => ((run [text]).toOption.getD []).headD [], sliced_pointwise Nat.one_pos fun texts vectors hshort hrun => ?_⟩
  obtain ⟨all, hall, rfl⟩ := map_eq_ok.mp hrun
  have hcount := encodeWithPadding_count hall
  rcases texts with _ | ⟨text, _ | ⟨next, texts⟩⟩
  · rfl
  · rcases all with _ | ⟨vector, _ | ⟨extra, all⟩⟩
    · cases hcount
    · have halone : run [text] = .ok [vector] := hrun
      rw [List.map_singleton, halone]
      rfl
    · cases hcount
  · simp at hshort

/-- Apart from the padding that is read, texts are encoded one by one. -/
theorem encode_pointwise (hlocal : RowLocal e session) (hapart : e.Apart) : ∃ value, Pointwise (encode sqrt e session) value := by
  rw [Embedder.Apart] at hapart
  cases hshape : e.fixedShape with
  | none =>
      rw [encode_padding hshape]
      rw [hshape] at hapart
      rcases hapart with hfull | hblank | ⟨hcls, name, houtput⟩
      · cases houtput : e.output with
        | tokenEmbeddings name => exact pointwise_tokens hlocal houtput (.inr hfull)
        | sentenceEmbedding name => exact pointwise_sentence hlocal houtput (.inr hfull)
      · exact ⟨_, pointwise_blank hshape hblank⟩
      · exact pointwise_tokens hlocal houtput (.inl hcls)
  | some shape =>
      rw [hshape] at hapart
      have hslices {value : String → List K} (h : Pointwise (encodeWithPadding sqrt e session e.padding) value) :
          Pointwise (encode sqrt e session) value := by
        rw [encode_slices hshape]
        exact (h.filled shape.rows "").sliced (e.shape shape hshape).1
      have hsentence {name : String} (houtput : e.output = .sentenceEmbedding name) :
          ∃ value, Pointwise (encode sqrt e session) value :=
        (pointwise_sentence hlocal houtput (.inl (hshape ▸ Option.some_ne_none _))).imp fun _ => hslices
      have htokens {name : String} (houtput : e.output = .tokenEmbeddings name)
          (h : e.pooling.poolingModeClsToken = false ∨ ∀ text, e.tokenize text ≠ []) :
          ∃ value, Pointwise (encode sqrt e session) value :=
        (pointwise_tokens hlocal houtput h).imp fun _ => hslices
      rcases hapart with hfull | hsingle | hcls | ⟨name, houtput⟩
      · cases houtput : e.output with
        | tokenEmbeddings name => exact htokens houtput (.inr hfull)
        | sentenceEmbedding name => exact hsentence houtput
      · exact pointwise_single hshape hsingle
      · cases houtput : e.output with
        | tokenEmbeddings name => exact htokens houtput (.inl hcls)
        | sentenceEmbedding name => exact hsentence houtput
      · exact hsentence houtput

theorem own_of_pointwise (h : Pointwise (encode sqrt e session) value) (hvectors : vectors = texts.map value)
    (hwidth : ∀ vector ∈ vectors, vector.length = e.embeddingDim) : List.Forall₂ (Own sqrt e session) texts vectors := by
  subst hvectors
  refine List.forall₂_map_right_iff.mpr (List.forall₂_same.mpr fun text htext => ⟨?_, fun alone halone => h.alone halone⟩)
  exact (hwidth _ (List.mem_map_of_mem htext)).trans e.embedding_dim

theorem mem_zip_map {α β : Type*} {items : List α} {f : α → β} {a : α} {b : β} (h : (a, b) ∈ items.zip (items.map f)) : b = f a := by
  rw [← List.map_prod_left_eq_zip] at h
  obtain ⟨a', -, heq⟩ := List.mem_map.mp h
  cases heq
  rfl

theorem independent_of_pointwise (h : Pointwise (encode sqrt e session) value) : Independent sqrt e session where
  batches batches vectors hrun := by
    have hparts := mapM_eq_ok.mp hrun
    exact own_of_pointwise h (concat_eq (fun batch _ part => h batch part) hparts) (encode_width.concat hparts)
  topics texts vectors hrun :=
    own_of_pointwise h ((h.counted _).sliced (Nat.succ_pos _) _ _ hrun) ((encode_width.counted _).sliced _ _ _ hrun)
  stored missing missing' vectors vectors' hrun hrun' text v v' hv hv' := by
    have hpointwise := (h.counted (fun vectors batch =>
      s!"topic embedding batch encoder returned {vectors} vectors for {batch} texts")).sliced (Nat.succ_pos 31)
    rw [hpointwise _ _ hrun] at hv
    rw [hpointwise _ _ hrun'] at hv'
    exact (mem_zip_map hv).trans (mem_zip_map hv').symm

end Rows

end Wordflow.Embedding
