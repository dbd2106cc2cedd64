import Wordflow.Library.Chunks
import Wordflow.Library.Fallible

namespace Wordflow.Library.Batches

open Chunks Fallible

variable {ε α β : Type*}

/-- Every item of a batch gets the value it gets in any other batch. -/
def Pointwise (run : List α → Except ε (List β)) (value : α → β) : Prop :=
  ∀ items values, run items = .ok values → values = items.map value

variable {run : List α → Except ε (List β)} {value : α → β} {items : List α} {values : List β}

theorem Pointwise.alone (h : Pointwise run value) {item : α} (hrun : run [item] = .ok values) : values = [value item] :=
  h _ _ hrun

theorem concat_eq {batches : List (List α)} {parts : List (List β)}
    (h : ∀ batch ∈ batches, ∀ part, run batch = .ok part → part = batch.map value)
    (hrun : List.Forall₂ (fun batch part => run batch = .ok part) batches parts) :
    parts.flatten = batches.flatten.map value := by
  induction hrun with
  | nil => rfl
  | cons hhead _ ih =>
      obtain ⟨hbatch, hrest⟩ := List.forall_mem_cons.mp h
      rw [List.flatten_cons, List.flatten_cons, List.map_append, hbatch _ hhead, ih hrest]

/-- Cutting the items into slices and running each of them. -/
def sliced (size : Nat) (run : List α → Except ε (List β)) (items : List α) : Except ε (List β) :=
  ((chunks size items).mapM fun chunk => run chunk.2).map List.flatten

theorem sliced_eq_ok {size : Nat} : sliced size run items = .ok values ↔
    ∃ parts, List.Forall₂ (fun batch part => run batch = .ok part) ((chunks size items).map Prod.snd) parts ∧
      parts.flatten = values := by
  rw [sliced, map_eq_ok]
  refine exists_congr fun parts => and_congr_left fun _ => ?_
  rw [mapM_eq_ok, List.forall₂_map_left_iff]

theorem sliced_short {size : Nat} (hne : items ≠ []) (h : items.length ≤ size) (hrun : run items = .ok values) :
    sliced size run items = .ok values := by
  refine sliced_eq_ok.mpr ⟨[values], ?_, List.flatten_singleton⟩
  rw [chunks_short hne h]
  exact .cons hrun .nil

theorem chunks_snd_flatten {size : Nat} (hsize : 0 < size) : ((chunks size items).map Prod.snd).flatten = items := by
  rw [← List.flatMap_def]
  exact chunks_flatten hsize

/-- Slices are no longer than their size, so only such batches count. -/
theorem sliced_pointwise {size : Nat} (hsize : 0 < size)
    (h : ∀ items values, items.length ≤ size → run items = .ok values → values = items.map value) :
    Pointwise (sliced size run) value := by
  intro items values hrun
  obtain ⟨parts, hparts, rfl⟩ := sliced_eq_ok.mp hrun
  have hshort : ∀ batch ∈ (chunks size items).map Prod.snd, batch.length ≤ size := by
    refine List.forall_mem_map.mpr fun chunk hchunk => ?_
    rw [mem_chunks hchunk]
    exact List.length_take_le _ _
  rw [concat_eq (fun batch hbatch part => h batch part (hshort batch hbatch)) hparts, chunks_snd_flatten hsize]

theorem Pointwise.sliced (h : Pointwise run value) {size : Nat} (hsize : 0 < size) : Pointwise (sliced size run) value :=
  sliced_pointwise hsize fun items values _ => h items values

/-- Filling a batch up and cutting the values off again. -/
def filled (size : Nat) (blank : α) (run : List α → Except ε (List β)) (items : List α) : Except ε (List β) :=
  (run (items ++ List.replicate (size - items.length) blank)).map fun values => values.take items.length

theorem Pointwise.filled (h : Pointwise run value) (size : Nat) (blank : α) : Pointwise (filled size blank run) value := by
  intro items values hrun
  obtain ⟨all, hall, rfl⟩ := map_eq_ok.mp hrun
  rw [h _ _ hall, List.map_append]
  exact List.take_left' (List.length_map _)

/-- Refusing a run that does not return a value for each item. -/
def counted (wrong : Nat → Nat → ε) (run : List α → Except ε (List β)) (items : List α) : Except ε (List β) := do
  let values ← run items
  if values.length ≠ items.length then .error (wrong values.length items.length) else return values

theorem Pointwise.counted (h : Pointwise run value) (wrong : Nat → Nat → ε) : Pointwise (counted wrong run) value := by
  intro items values hrun
  obtain ⟨all, hall, hcount⟩ := bind_eq_ok.mp hrun
  obtain ⟨-, heq⟩ := guard_eq_ok.mp hcount
  cases heq
  exact h _ _ hall

section Values

variable {P : β → Prop}

/-- Every value that is returned has a property. -/
def Returning (run : List α → Except ε (List β)) (P : β → Prop) : Prop :=
  ∀ items values, run items = .ok values → ∀ v ∈ values, P v

theorem Returning.concat (h : Returning run P) {batches : List (List α)} {parts : List (List β)}
    (hrun : List.Forall₂ (fun batch part => run batch = .ok part) batches parts) : ∀ v ∈ parts.flatten, P v := by
  intro v hv
  obtain ⟨part, hpart, hv⟩ := List.mem_flatten.mp hv
  obtain ⟨batch, -, hbatch⟩ := forall₂_mem_right hrun hpart
  exact h _ _ hbatch v hv

theorem Returning.sliced (h : Returning run P) (size : Nat) : Returning (sliced size run) P := by
  intro items values hrun
  obtain ⟨parts, hparts, rfl⟩ := sliced_eq_ok.mp hrun
  exact h.concat hparts

theorem Returning.filled (h : Returning run P) (size : Nat) (blank : α) : Returning (filled size blank run) P := by
  intro items values hrun v hv
  obtain ⟨all, hall, rfl⟩ := map_eq_ok.mp hrun
  exact h _ _ hall v (List.mem_of_mem_take hv)

theorem Returning.counted (h : Returning run P) (wrong : Nat → Nat → ε) : Returning (counted wrong run) P := by
  intro items values hrun
  obtain ⟨all, hall, hcount⟩ := bind_eq_ok.mp hrun
  obtain ⟨-, heq⟩ := guard_eq_ok.mp hcount
  cases heq
  exact h _ _ hall

end Values

end Wordflow.Library.Batches
