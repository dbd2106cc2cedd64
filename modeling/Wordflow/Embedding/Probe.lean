import Mathlib.Algebra.Field.Rat
import Mathlib.Algebra.Order.Ring.Rat
import Wordflow.Embedding.Independence

namespace Wordflow.Embedding

open Library Library.Batches Library.Chunks Library.Fallible

variable {K : Type*} [Field K]

/-- A tensor that is one at the padding of every row but the first, or a sentence
vector of ones. -/
def probeData (e : Embedder) (inputs : Inputs) : List K :=
  match e.output with
  | .tokenEmbeddings _ => inputs.attentionMask.zipIdx.flatMap fun m =>
      List.replicate e.pooling.wordEmbeddingDimension (if m.1 = 0 ∧ inputs.seq ≤ m.2 then 1 else 0)
  | .sentenceEmbedding _ => List.replicate (inputs.batch * e.embeddingDim) 1

/-- A network that can be told from its padding. -/
def probe (e : Embedder) : Session K := fun inputs =>
  some fun _ => some (.floats (e.dims inputs.batch inputs.seq) (probeData e inputs))

section Probe

variable {sqrt : K → K} {e : Embedder} {rows : List (List Token)} {n : Nat}

theorem masks_length (hfit : ∀ tokens ∈ rows, tokens.length ≤ n) :
    ∀ encoding ∈ rows.map (pad n), encoding.attentionMask.length = n :=
  List.forall_mem_map.mpr fun tokens htokens => (pad_lengths (hfit tokens htokens)).2.1

theorem probe_returns (hfit : ∀ tokens ∈ rows, tokens.length ≤ n) {data : List K} :
    Returns e (probe e) rows n data ↔ data = probeData e (Encoding.inputs e rows.length n (rows.map (pad n))) := by
  constructor
  · rintro ⟨outputs, houtputs, hvalue, -⟩
    cases houtputs
    cases hvalue
    rfl
  · rintro rfl
    refine ⟨_, rfl, rfl, ?_⟩
    rw [probeData, Embedder.dims]
    cases e.output with
    | sentenceEmbedding name =>
        rw [List.prod_cons, List.prod_singleton]
        exact List.length_replicate
    | tokenEmbeddings name =>
        have hlength := length_flatMap_eq (masks_length hfit)
        rw [List.length_map] at hlength
        rw [List.prod_cons, List.prod_cons, List.prod_singleton, ← Nat.mul_assoc, ← hlength]
        refine (length_flatMap_eq (fun m _ => List.length_replicate)).trans ?_
        rw [List.length_zipIdx]
        rfl

theorem mask_getElem? (hfit : ∀ tokens ∈ rows, tokens.length ≤ n) {row t : Nat} {tokens : List Token}
    (hrow : rows[row]? = some tokens) (ht : t < n) :
    ((rows.map (pad n)).flatMap Encoding.attentionMask)[row * n + t]? = (pad n tokens).attentionMask[t]? := by
  have hslice := slice_flatMap (masks_length hfit) (i := row) (a := pad n tokens) (by rw [List.getElem?_map, hrow]; rfl)
  rw [← hslice, slice, List.getElem?_take_of_lt ht, List.getElem?_drop]

theorem probe_slice {name : String} (houtput : e.output = .tokenEmbeddings name) (hfit : ∀ tokens ∈ rows, tokens.length ≤ n)
    {row t m : Nat} {tokens : List Token} (hrow : rows[row]? = some tokens) (ht : t < n)
    (hm : (pad n tokens).attentionMask[t]? = some m) :
    slice (probeData (K := K) e (Encoding.inputs e rows.length n (rows.map (pad n))))
        ((row * n + t) * e.pooling.wordEmbeddingDimension) e.pooling.wordEmbeddingDimension =
      List.replicate e.pooling.wordEmbeddingDimension (if m = 0 ∧ n ≤ row * n + t then 1 else 0) := by
  rw [probeData, houtput]
  refine slice_flatMap (f := fun m : Nat × Nat => List.replicate e.pooling.wordEmbeddingDimension
    (if m.1 = 0 ∧ n ≤ m.2 then (1 : K) else 0)) (fun m _ => List.length_replicate) (a := (m, row * n + t)) ?_
  have hposition := (mask_getElem? hfit hrow ht).trans hm
  rw [List.getElem?_zipIdx]
  change Option.map _ (((rows.map (pad n)).flatMap Encoding.attentionMask)[row * n + t]?) = _
  rw [hposition, Option.map_some, Nat.zero_add]

theorem pad_mask {tokens : List Token} {t : Nat} (h : t < tokens.length) : (pad n tokens).attentionMask[t]? = some 1 := by
  rw [pad, List.getElem?_append_left (by rwa [List.length_replicate]), List.getElem?_replicate_of_lt h]

/-- The tensor for given rows. -/
abbrev probed (K : Type*) [Field K] (e : Embedder) (rows : List (List Token)) (n : Nat) : List K :=
  probeData e (Encoding.inputs e rows.length n (rows.map (pad n)))

theorem blank_mask (hn : n ≠ 0) : (pad n []).attentionMask[0]? = some 0 :=
  List.getElem?_replicate_of_lt (Nat.pos_of_ne_zero hn)

theorem blank_hidden {name : String} (houtput : e.output = .tokenEmbeddings name) (hfit : ∀ tokens ∈ rows, tokens.length ≤ n)
    (hn : n ≠ 0) {row : Nat} (hrow : rows[row]? = some []) :
    slice (probed K e rows n) ((row * n + 0) * e.pooling.wordEmbeddingDimension) e.pooling.wordEmbeddingDimension =
      List.replicate e.pooling.wordEmbeddingDimension (if row = 0 then 0 else 1) := by
  refine (probe_slice houtput hfit hrow (Nat.pos_of_ne_zero hn) (blank_mask hn)).trans (congrArg _ ?_)
  cases row with
  | zero => exact if_neg fun h => hn (Nat.eq_zero_of_le_zero (by simpa using h.2))
  | succ row => exact if_pos ⟨rfl, Nat.le_mul_of_pos_left n (Nat.succ_pos row)⟩

theorem probed_sentence {name : String} (houtput : e.output = .sentenceEmbedding name) {row : Nat} (hrow : row < rows.length) :
    slice (probed K e rows n) (row * e.embeddingDim) e.embeddingDim = List.replicate e.embeddingDim 1 := by
  rw [probed, probeData, houtput, slice]
  change ((List.replicate (rows.length * e.embeddingDim) (1 : K)).drop _).take _ = _
  rw [List.drop_replicate, List.take_replicate, ← Nat.sub_mul, Nat.min_eq_left]
  exact Nat.le_mul_of_pos_left _ (Nat.sub_pos_of_lt hrow)

theorem probe_local : RowLocal e (probe (K := K) e) where
  tokens name houtput := by
    refine ⟨fun _ _ => List.replicate e.pooling.wordEmbeddingDimension 0, fun rows n data hfit hdata row tokens hrow t ht => ?_⟩
    have hlong := hfit tokens (List.mem_of_getElem? hrow)
    rw [(probe_returns hfit).mp hdata, probe_slice houtput hfit hrow (ht.trans_le hlong) (pad_mask ht)]
    exact congrArg _ (if_neg fun h => Nat.one_ne_zero h.1)
  sentence name houtput := by
    refine ⟨fun _ => List.replicate e.embeddingDim 1, fun rows n data hfit hdata row tokens hrow => ?_⟩
    rw [(probe_returns hfit).mp hdata]
    exact probed_sentence houtput (List.getElem?_eq_some_iff.mp hrow).1

variable [LinearOrder K]

theorem rowVector_blank {name : String} (houtput : e.output = .tokenEmbeddings name) {data : List K} {row : Nat} :
    e.rowVector sqrt data n row [] = finish sqrt e.normalize (poolRow sqrt e.pooling e.pooling.wordEmbeddingDimension
      (fun t => slice data ((row * n + t) * e.pooling.wordEmbeddingDimension) e.pooling.wordEmbeddingDimension) []) := by
  rw [Embedder.rowVector, houtput]
  exact congrArg _ (poolRow_padded n (fun _ _ => rfl) fun _ => rfl)

/-- In the first row a text without a token gets zeros. -/
theorem probed_first (sqrt : K → K) {name : String} (houtput : e.output = .tokenEmbeddings name) (hfit : ∀ tokens ∈ rows, tokens.length ≤ n)
    (hn : n ≠ 0) (hrow : rows[0]? = some []) : ∀ x ∈ e.rowVector sqrt (probed K e rows n) n 0 [], x = 0 := by
  rw [rowVector_blank houtput, finish_zero]
  intro x hx
  rcases poolRow_blank hx with hzero | ⟨-, hhidden⟩
  · exact hzero
  · rw [blank_hidden houtput hfit hn hrow] at hhidden
    exact List.eq_of_mem_replicate hhidden

/-- In a later row it gets what the network has at its padding. -/
theorem probed_later (sqrt : K → K) (hread : (∃ name, e.output = .sentenceEmbedding name) ∨ e.pooling.poolingModeClsToken = true)
    (hfit : ∀ tokens ∈ rows, tokens.length ≤ n) (hn : n ≠ 0) {row : Nat} (hrow : rows[row + 1]? = some []) :
    ¬∀ x ∈ e.rowVector sqrt (probed K e rows n) n (row + 1) [], x = 0 := by
  cases houtput : e.output with
  | sentenceEmbedding name =>
      rw [Embedder.rowVector, houtput, finish_zero]
      intro hzero
      refine one_ne_zero (α := K) (hzero 1 ?_)
      change 1 ∈ slice _ _ _
      rw [probed_sentence houtput (List.getElem?_eq_some_iff.mp hrow).1]
      exact List.mem_replicate.mpr ⟨e.embeddingDim_pos.ne', rfl⟩
  | tokenEmbeddings name =>
      have hcls := hread.resolve_left (by simp [houtput])
      rw [rowVector_blank houtput, finish_zero]
      intro hzero
      refine one_ne_zero (α := K) (hzero 1 ?_)
      have hone : (1 : K) ∈ slice (probed K e rows n) (((row + 1) * n + 0) * e.pooling.wordEmbeddingDimension)
          e.pooling.wordEmbeddingDimension := by
        rw [blank_hidden houtput hfit hn hrow]
        exact List.mem_replicate.mpr ⟨e.hidden_size.1.ne', rfl⟩
      simp only [poolRow, List.mem_append]
      exact .inl (.inl (.inl (.inl (.inl ((if_pos hcls).symm ▸ hone)))))

variable {blank full : String}

theorem Independent.second (h : Independent sqrt e (probe (K := K) e)) {both alone : List (List K)} {v v' : List K}
    (htwo : encode sqrt e (probe e) [full, blank] = .ok both) (hone : encode sqrt e (probe e) [blank] = .ok alone)
    (hv : both[1]? = some v) (hv' : alone[0]? = some v') : v' = v := by
  have howns := h.batches [[full, blank]] [both] (mapM_eq_ok.mpr (.cons htwo .nil))
  rw [List.flatten_singleton, List.flatten_singleton] at howns
  cases howns with
  | cons hfirst hrest =>
      cases hrest with
      | cons hsecond _ =>
          cases hsecond.2 _ hone
          exact Option.some.inj (hv'.symm.trans hv)

theorem probe_encode (sqrt : K → K) {texts : List String} (hne : texts ≠ []) (hn : e.padding.length (texts.map e.tokenize) ≠ 0) :
    encodeWithPadding sqrt e (probe (K := K) e) e.padding texts =
      .ok ((texts.map e.tokenize).mapIdx (e.rowVector sqrt (probed K e (texts.map e.tokenize) (e.padding.length (texts.map e.tokenize)))
        (e.padding.length (texts.map e.tokenize)))) := by
  refine (e.encode_ok hne).mpr ?_
  rw [if_neg hn]
  exact ⟨_, (probe_returns (e.fits rfl)).mpr rfl, rfl⟩

/-- With padding to the longest, a text without a token is told from its place after a longer one. -/
theorem not_independent_longest (hshape : e.fixedShape = none) (hfull : e.tokenize full ≠ []) (hblank : e.tokenize blank = [])
    (hread : (∃ name, e.output = .sentenceEmbedding name) ∨ e.pooling.poolingModeClsToken = true) :
    ¬Independent sqrt e (probe (K := K) e) := by
  intro h
  have hn : e.padding.length ([full, blank].map e.tokenize) ≠ 0 := by
    intro hzero
    exact hfull ((e.padding_zero hzero (e.fits rfl)).2 _ List.mem_cons_self)
  have hlone : e.padding.length ([blank].map e.tokenize) = 0 := by
    rw [List.map_singleton, hblank, Embedder.padding, hshape]
    rfl
  have htwo := probe_encode sqrt (List.cons_ne_nil full [blank]) hn
  have hone : encodeWithPadding sqrt e (probe (K := K) e) e.padding [blank] = .ok [List.replicate e.embeddingDim 0] := by
    refine (e.encode_ok (List.cons_ne_nil blank [])).mpr ?_
    rw [if_pos hlone]
    rfl
  rw [← encode_padding hshape] at htwo hone
  have hsame := h.second htwo hone (by rw [List.getElem?_mapIdx]; rfl) rfl
  have hsecond : ([full, blank].map e.tokenize)[0 + 1]? = some [] := congrArg some hblank
  refine probed_later sqrt hread (e.fits rfl) hn hsecond fun x hx => ?_
  rw [hblank] at hsame
  rw [← hsame] at hx
  exact List.eq_of_mem_replicate hx

/-- With a fixed shape the texts are the first rows of a batch that is filled up. -/
theorem probe_encode_fixed (sqrt : K → K) {shape : BatchShape} (hshape : e.fixedShape = some shape) {texts : List String}
    (hne : texts ≠ []) (hshort : texts.length ≤ shape.rows) :
    ∃ (rows : List (List Token)) (n : Nat) (vectors : List (List K)), n ≠ 0 ∧ (∀ tokens ∈ rows, tokens.length ≤ n) ∧
      encode sqrt e (probe (K := K) e) texts = .ok vectors ∧ ∀ (i : Nat) text, texts[i]? = some text →
        rows[i]? = some (e.tokenize text) ∧ vectors[i]? = some (e.rowVector sqrt (probed K e rows n) n i (e.tokenize text)) := by
  have hn : e.padding.length ((texts ++ List.replicate (shape.rows - texts.length) "").map e.tokenize) ≠ 0 := by
    intro hzero
    exact Option.some_ne_none shape (hshape.symm.trans (e.padding_zero hzero (e.fits rfl)).1)
  have hfilled := probe_encode (K := K) (e := e) sqrt
    (List.append_ne_nil_of_left_ne_nil hne (List.replicate (shape.rows - texts.length) "")) hn
  have hfit := e.fits (rfl : (texts ++ List.replicate (shape.rows - texts.length) "").map e.tokenize = _)
  have hpositions : ∀ (i : Nat) text, texts[i]? = some text →
      ((texts ++ List.replicate (shape.rows - texts.length) "").map e.tokenize)[i]? = some (e.tokenize text) := by
    intro i text hi
    rw [List.getElem?_map, List.getElem?_append_left (List.getElem?_eq_some_iff.mp hi).1, hi]
    rfl
  generalize (texts ++ List.replicate (shape.rows - texts.length) "").map e.tokenize = rows at hfilled hpositions hfit hn
  refine ⟨rows, _, (rows.mapIdx (e.rowVector sqrt (probed K e rows (e.padding.length rows)) (e.padding.length rows))).take
    texts.length, hn, hfit, ?_, fun i text hi => ⟨hpositions i text hi, ?_⟩⟩
  · rw [encode_slices hshape]
    exact sliced_short hne hshort (map_eq_ok.mpr ⟨_, hfilled, rfl⟩)
  · rw [List.getElem?_take_of_lt (List.getElem?_eq_some_iff.mp hi).1, List.getElem?_mapIdx, hpositions i text hi]
    rfl

/-- There a text without a token is told from its place after another one. -/
theorem not_independent_fixed {shape : BatchShape} (hshape : e.fixedShape = some shape) (hrows : shape.rows ≠ 1)
    (hblank : e.tokenize blank = []) {name : String} (houtput : e.output = .tokenEmbeddings name)
    (hcls : e.pooling.poolingModeClsToken = true) : ¬Independent sqrt e (probe (K := K) e) := by
  intro h
  have hpos := (e.shape shape hshape).1
  have htwice : [blank, blank].length ≤ shape.rows := Nat.lt_of_le_of_ne hpos hrows.symm
  obtain ⟨two, n, both, hntwo, hfittwo, hboth, htwo⟩ := probe_encode_fixed sqrt hshape (List.cons_ne_nil blank [blank]) htwice
  obtain ⟨one, m, alone, hnone, hfitone, halone, hone⟩ := probe_encode_fixed sqrt hshape (List.cons_ne_nil blank []) hpos
  obtain ⟨hsecond, hv⟩ := htwo 1 blank rfl
  obtain ⟨hfirst, hv'⟩ := hone 0 blank rfl
  have hsame := h.second hboth halone hv hv'
  rw [hblank] at hsecond hfirst hsame
  refine probed_later sqrt (.inr hcls) hfittwo hntwo hsecond ?_
  rw [← hsame]
  exact probed_first sqrt houtput hfitone hnone hfirst

/-- Encoding does not depend on the other texts, whatever the network, exactly where
nothing is read at padding and no text without a token is beside texts with one. -/
theorem independent_iff (sqrt : K → K) (e : Embedder) :
    (∀ session : Session K, RowLocal e session → Independent sqrt e session) ↔ e.Apart := by
  constructor
  · intro h
    have hprobe := h (probe e) probe_local
    rw [Embedder.Apart]
    cases hshape : e.fixedShape with
    | none =>
        by_contra hread
        obtain ⟨hblank, hfull, hread⟩ := not_or.mp hread |>.imp_right not_or.mp
        obtain ⟨blank, hblank⟩ := not_forall_not.mp hblank
        obtain ⟨full, hfull⟩ := not_forall.mp hfull
        refine not_independent_longest hshape hfull hblank ?_ hprobe
        cases houtput : e.output with
        | sentenceEmbedding name => exact .inl ⟨name, rfl⟩
        | tokenEmbeddings name => exact .inr (Bool.of_not_eq_false fun hcls => hread ⟨hcls, name, houtput⟩)
    | some shape =>
        by_contra hread
        obtain ⟨hblank, hrows, hcls, hsentence⟩ := not_or.mp hread |>.imp_right fun h => not_or.mp h |>.imp_right not_or.mp
        obtain ⟨blank, hblank⟩ := not_forall_not.mp hblank
        cases houtput : e.output with
        | sentenceEmbedding name => exact hsentence ⟨name, houtput⟩
        | tokenEmbeddings name =>
            exact not_independent_fixed hshape hrows hblank houtput (Bool.of_not_eq_false hcls) hprobe
  · intro hapart session hlocal
    obtain ⟨value, hvalue⟩ := encode_pointwise hlocal hapart
    exact independent_of_pointwise hvalue

/-- A model that takes the first token's vector, with a token for each character. -/
def firstToken : Embedder where
  tokenize text := (text.toList.take 512).map fun c => ⟨c.toNat, 0⟩
  inputNames := ["input_ids", "attention_mask"]
  output := .tokenEmbeddings "last_hidden_state"
  pooling := ⟨1, true, false, false, false, false, false⟩
  normalize := false
  embeddingDim := 1
  maxLength := 512
  fixedShape := none
  hidden_size := by decide
  mode_count := by decide
  embedding_dim := rfl
  max_length := by decide
  truncated text := by
    rw [List.length_map]
    exact List.length_take_le _ _
  shape s hs := nomatch hs

theorem blank_text_depends : RowLocal firstToken (probe (K := ℚ) firstToken) ∧
    encode id firstToken (probe (K := ℚ) firstToken) ["word", ""] = .ok [[0], [1]] ∧
    encode id firstToken (probe (K := ℚ) firstToken) [""] = .ok [[0]] ∧
    ¬Independent id firstToken (probe (K := ℚ) firstToken) :=
  ⟨probe_local, rfl, rfl, @not_independent_longest ℚ _ id firstToken _ "" "word" rfl (by decide) rfl (.inr rfl)⟩

end Probe

end Wordflow.Embedding
