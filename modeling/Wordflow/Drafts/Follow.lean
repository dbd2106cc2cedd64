import Wordflow.Drafts.Kinds

namespace Wordflow.Drafts

open Library Library.Json Library.Identifier Objects Renames

/-- Each rename meets a draft of which both sides make the same. -/
def Meets (toLowerCase : String → String) (kind : Kind) : Json → List Rename → Prop
  | _, [] => True
  | draft, rename :: renames =>
      Agrees toLowerCase kind rename draft ∧ Meets toLowerCase kind (renameRequest toLowerCase kind draft rename) renames

/-- A rename as it is delivered: the mutation response repeats what the client
asked for, in the client's spelling. -/
inductive Spelled : Rename → Rename → Prop
  | table (source source' : Relation) (name : String) (h : source'.same source = true) :
      Spelled (.table source name) (.table source' name)
  | column (source source' : Relation) (before before' after : String) (h : source'.same source = true)
      (hb : eqIgnoreAsciiCase before' before = true) :
      Spelled (.column source before after) (.column source' before' after)

/-- A change in the history of a project. -/
structure Change where
  id : String
  renames : List Rename

structure Carries (change : Change) (delivery : Delivery) : Prop where
  id : delivery.id = change.id
  renames : List.Forall₂ Spelled change.renames delivery.renames

/-- The deliveries of changes that the window has not received before. -/
def firsts : List (String × String) → List Delivery → List Delivery
  | _, [] => []
  | seen, delivery :: deliveries =>
      if (delivery.base, delivery.id) ∈ seen then firsts seen deliveries
      else delivery :: firsts ((delivery.base, delivery.id) :: seen) deliveries

def deliveriesOf (base : String) (deliveries : List Delivery) : List Delivery :=
  deliveries.filter (·.base = base)

/-- What a draft becomes, beside the history of its project. -/
structure Follows (renames : List Rename) (a b : Draft) : Prop where
  key : b.base = a.base ∧ b.id = a.id ∧ b.kind = a.kind
  stored : stored a.kind b.value =
    renames.foldl (fun request rename => (rename.request a.kind.kind request).2) (stored a.kind a.value)
  skeleton : skeleton a.kind b.value = skeleton a.kind a.value
  readings : List.Forall₂ (fun p q => (∀ rename ∈ renames, isSource (p.headD .null) rename = false) → q = p)
    (readings a.kind a.value) (readings a.kind b.value)
  others : renames = [] → b = a

section Run

variable {toLowerCase : String → String}
  (hlower : ∀ a b : String, asciiLower a = asciiLower b → toLowerCase a = toLowerCase b)

def renameAll (toLowerCase : String → String) (renames : List Rename) (draft : Draft) : Draft :=
  { draft with
    value := renames.foldl (fun request rename => renameRequest toLowerCase draft.kind request rename) draft.value }

theorem reconcileAnalysisDrafts_eq (drafts : List Draft) (base : String) (renames : List Rename) :
    reconcileAnalysisDrafts toLowerCase drafts base renames =
      drafts.map fun draft => if draft.base = base then renameAll toLowerCase renames draft else draft := by
  induction renames generalizing drafts with
  | nil =>
      have hid : ∀ draft : Draft, (if draft.base = base then renameAll toLowerCase [] draft else draft) = draft :=
        fun draft => ite_id draft
      simp [reconcileAnalysisDrafts, hid]
  | cons rename renames ih =>
      rw [reconcileAnalysisDrafts, List.foldl_cons]
      refine (ih _).trans ?_
      rw [renamedDrafts, List.map_map]
      refine List.map_congr_left fun draft _ => ?_
      by_cases hbase : draft.base = base <;> simp [hbase, renameAll]

theorem renameAll_append (renames renames' : List Rename) (draft : Draft) :
    renameAll toLowerCase (renames ++ renames') draft =
      renameAll toLowerCase renames' (renameAll toLowerCase renames draft) := by
  simp [renameAll, List.foldl_append]

/-- A draft after a run, by the changes of its project that were new. -/
theorem receive_drafts (w : Window) (deliveries : List Delivery) (hids : ∀ delivery ∈ deliveries, delivery.id ≠ "") :
    (deliveries.foldl (receive toLowerCase) w).drafts =
      w.drafts.map fun draft =>
        renameAll toLowerCase ((deliveriesOf draft.base (firsts w.receipts deliveries)).flatMap (·.renames)) draft := by
  induction deliveries generalizing w with
  | nil =>
      have hid : ∀ draft : Draft, renameAll toLowerCase [] draft = draft := fun _ => rfl
      simp [firsts, deliveriesOf, hid]
  | cons delivery deliveries ih =>
      obtain ⟨hid, hids⟩ := List.forall_mem_cons.mp hids
      rw [List.foldl_cons, ih _ hids]
      by_cases hseen : (delivery.base, delivery.id) ∈ w.receipts
      · have hsame : receive toLowerCase w delivery = w := by
          simp [receive, reconcileProjectRenames, hid, hseen]
        rw [hsame, firsts, if_pos hseen]
      · have hnew : receive toLowerCase w delivery =
            ⟨reconcileAnalysisDrafts toLowerCase w.drafts delivery.base delivery.renames,
              (delivery.base, delivery.id) :: w.receipts⟩ := by
          simp [receive, reconcileProjectRenames, hid, hseen]
        rw [hnew, firsts, if_neg hseen, reconcileAnalysisDrafts_eq, List.map_map]
        refine List.map_congr_left fun draft _ => ?_
        by_cases hbase : draft.base = delivery.base
        · have hkeep : (renameAll toLowerCase delivery.renames draft).base = delivery.base := hbase
          simp only [Function.comp_apply, hbase, if_true, deliveriesOf, List.filter_cons, decide_true, List.flatMap_cons,
            renameAll_append, hkeep]
        · have hne : ¬delivery.base = draft.base := fun h => hbase h.symm
          simp [hbase, deliveriesOf, hne]

theorem forall₂_chain {α β γ : Type*} {R : α → β → Prop} {S : β → γ → Prop} {T : α → γ → Prop}
    (h : ∀ a b c, R a b → S b c → T a c) {as : List α} {bs : List β} {cs : List γ} (hr : List.Forall₂ R as bs)
    (hs : List.Forall₂ S bs cs) : List.Forall₂ T as cs := by
  induction hr generalizing cs with
  | nil =>
      cases hs
      exact .nil
  | cons hab _ ih =>
      obtain _ | ⟨hbc, hs⟩ := hs
      exact .cons (h _ _ _ hab hbc) (ih hs)

include hlower in
theorem follows_renameAll (draft : Draft) (renames : List Rename) (hw : WellTyped draft.kind draft.value)
    (hm : Meets toLowerCase draft.kind draft.value renames) :
    Follows renames draft (renameAll toLowerCase renames draft) := by
  induction renames generalizing draft with
  | nil => exact ⟨⟨rfl, rfl, rfl⟩, rfl, rfl, List.forall₂_same.mpr fun _ _ _ => rfl, fun _ => rfl⟩
  | cons rename renames ih =>
      obtain ⟨ha, hm⟩ := hm
      have hone := renamed hlower hw ha
      have hrest := ih { draft with value := renameRequest toLowerCase draft.kind draft.value rename } hone.typed hm
      refine ⟨⟨rfl, rfl, rfl⟩, ?_, hrest.skeleton.trans hone.skeleton, ?_, nofun⟩
      · rw [List.foldl_cons, ← hone.stored]
        exact hrest.stored
      · refine forall₂_chain (fun p q o hpq hqo hsources => ?_) hone.readings hrest.readings
        obtain ⟨hfirst, hothers⟩ := List.forall_mem_cons.mp hsources
        obtain rfl := hpq hfirst
        exact hqo hothers

theorem same_congr {a b c : Relation} (h : b.same c = true) : a.same b = a.same c := by
  obtain ⟨hschema, hname⟩ := Relation.same_iff.mp h
  rw [Bool.eq_iff_iff, Relation.same_iff, Relation.same_iff, hschema, hname]

theorem spelled_source {a b : Rename} (h : Spelled a b) (source : Json) : isSource source b = isSource source a := by
  cases h with
  | table _ _ _ h => exact same_congr h
  | column _ _ _ _ _ h => exact same_congr h

theorem spelled_input {a b : Rename} (h : Spelled a b) (v : Json) (fields : List String) :
    b.input v fields = a.input v fields := by
  have hfold : ∀ {x y : String}, asciiLower x = asciiLower y →
      ∀ name, eqIgnoreAsciiCase name x = eqIgnoreAsciiCase name y :=
    fun h name => by rw [eqIgnoreAsciiCase, eqIgnoreAsciiCase, h]
  have hsource : ∀ name, eqIgnoreAsciiCase name b.source.name = eqIgnoreAsciiCase name a.source.name := by
    cases h with
    | table _ _ _ h => exact hfold (Relation.same_iff.mp h).2
    | column _ _ _ _ _ h => exact hfold (Relation.same_iff.mp h).2
  have hschema : ∀ schema, eqIgnoreAsciiCase schema b.source.schema = eqIgnoreAsciiCase schema a.source.schema := by
    cases h with
    | table _ _ _ h => exact hfold (Relation.same_iff.mp h).1
    | column _ _ _ _ _ h => exact hfold (Relation.same_iff.mp h).1
  unfold Rename.input
  cases v.get? "source" with
  | none => rfl
  | some source =>
      dsimp only
      cases ((source.get? "name").bind Json.asStr?).or ((source.get? "table_name").bind Json.asStr?) with
      | none => rfl
      | some name =>
          dsimp only
          rw [hsource, hschema]
          cases h with
          | table => rfl
          | column _ _ before before' after _ hb =>
              have hbefore : renameField before' after = renameField before after := by
                funext value
                simp only [renameField, hfold (eqIgnoreAsciiCase_iff.mp hb)]
              dsimp only
              rw [hbefore]

theorem spelled_request {a b : Rename} (h : Spelled a b) (kind : String) (request : Json) :
    b.request kind request = a.request kind request := by
  have hinput : b.input = a.input := by
    funext v fields
    exact spelled_input h v fields
  have hsetup : b.setup = a.setup := by
    funext v
    simp only [Rename.setup, hinput]
  simp only [Rename.request, hinput, hsetup]

theorem spelled_foldl {renames renames' : List Rename} (h : List.Forall₂ Spelled renames renames') (kind : String)
    (request : Json) :
    renames'.foldl (fun request rename => (rename.request kind request).2) request =
      renames.foldl (fun request rename => (rename.request kind request).2) request := by
  induction h generalizing request with
  | nil => rfl
  | cons h _ ih => rw [List.foldl_cons, List.foldl_cons, ih, spelled_request h]

theorem spelled_unnamed {renames renames' : List Rename} (h : List.Forall₂ Spelled renames renames') {source : Json}
    (hs : ∀ rename ∈ renames, isSource source rename = false) : ∀ rename ∈ renames', isSource source rename = false := by
  induction h with
  | nil => exact hs
  | cons h _ ih =>
      obtain ⟨hfirst, hs⟩ := List.forall_mem_cons.mp hs
      exact List.forall_mem_cons.mpr ⟨(spelled_source h source).trans hfirst, ih hs⟩

theorem Follows.of_spelled {renames renames' : List Rename} (h : List.Forall₂ Spelled renames renames') {a b : Draft}
    (hf : Follows renames' a b) : Follows renames a b := by
  refine ⟨hf.key, hf.stored.trans (spelled_foldl h _ _), hf.skeleton, ?_, fun hnil => hf.others ?_⟩
  · exact hf.readings.imp fun p q hpq hs => hpq (spelled_unnamed h hs)
  · subst hnil
    cases h
    rfl

theorem carried_renames {changes : List Change} {deliveries : List Delivery}
    (h : List.Forall₂ Carries changes deliveries) :
    List.Forall₂ Spelled (changes.flatMap (·.renames)) (deliveries.flatMap (·.renames)) := by
  induction h with
  | nil => exact .nil
  | cons h _ ih => exact List.rel_append h.renames ih

end Run

/-- `toLowerCase` on the letters of Latin-1. -/
def latinLower (s : String) : String :=
  String.ofList ((asciiLower s).map fun c =>
    if 192 ≤ c.toNat ∧ c.toNat ≤ 222 ∧ c.toNat ≠ 215 then Char.ofNat (c.toNat + 32) else c)

theorem latinLower_eq (a b : String) (h : asciiLower a = asciiLower b) : latinLower a = latinLower b := by
  rw [latinLower, latinLower, h]

section Quotes

/-- A quotation draft of the column `name` of the relation `table`. -/
def quotes (table name : String) : Json :=
  .obj [("input", .obj [("source", .obj [("name", .str table)]), ("column", .str name), ("note", .num "1")])]

theorem wellTyped_quotes (table name : String) : WellTyped .quotation (quotes table name) := by
  refine ⟨rfl, ⟨⟨_, rfl, ⟨table, rfl⟩, nofun⟩, fun field hfield value hvalue => ?_⟩⟩
  obtain rfl := List.mem_singleton.mp hfield
  cases hvalue
  exact .inr (.inl ⟨name, rfl⟩)

def docs : Relation := ⟨"data", "docs"⟩

def letters : Relation := ⟨"data", "letters"⟩

def copied : List Delivery :=
  [⟨"p", "1", [.table ⟨"data", "DOCS"⟩ "letters"]⟩, ⟨"p", "2", [.column letters "TEXT" "body"]⟩,
    ⟨"p", "1", [.table docs "letters"]⟩, ⟨"q", "3", [.table docs "notes"]⟩, ⟨"p", "2", [.column letters "text" "body"]⟩]

def past (base : String) : List Change :=
  if base = "p" then [⟨"1", [.table docs "letters"]⟩, ⟨"2", [.column letters "text" "body"]⟩]
  else if base = "q" then [⟨"3", [.table docs "notes"]⟩]
  else []

def opened : Window := ⟨[⟨"p", "tab", .quotation, quotes "Docs" "Text"⟩, ⟨"r", "tab", .quotation, quotes "docs" "text"⟩], []⟩

theorem past_delivered (base : String) : List.Forall₂ Carries (past base) (deliveriesOf base (firsts [] copied)) := by
  have hfirsts : firsts [] copied = [⟨"p", "1", [.table ⟨"data", "DOCS"⟩ "letters"]⟩,
      ⟨"p", "2", [.column letters "TEXT" "body"]⟩, ⟨"q", "3", [.table docs "notes"]⟩] := by
    simp [firsts, copied]
  rw [hfirsts]
  by_cases hp : base = "p"
  · subst hp
    exact .cons ⟨rfl, .cons (.table _ _ _ (by decide)) .nil⟩
      (.cons ⟨rfl, .cons (.column _ _ _ _ _ (by decide) (by decide)) .nil⟩ .nil)
  · by_cases hq : base = "q"
    · subst hq
      exact .cons ⟨rfl, .cons (.table _ _ _ (by decide)) .nil⟩ .nil
    · simp [past, deliveriesOf, hp, hq, Ne.symm hp, Ne.symm hq]

/-- A column `ä` beside the renamed column `Ä`. -/
def umlauts : Window := ⟨[⟨"p", "tab", .quotation, quotes "docs" "ä"⟩], []⟩

def renamedUmlaut : List Delivery := [⟨"p", "1", [.column docs "Ä" "text"]⟩]

end Quotes

end Wordflow.Drafts
