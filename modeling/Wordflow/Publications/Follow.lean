import Mathlib.Data.List.Forall2
import Mathlib.Data.List.Pairwise
import Wordflow.Library.Fallible
import Wordflow.Publications.Live

namespace Wordflow.Publications

open Library.Fallible Library.Identifier Library.Run Objects Renames

section Names

/-- No two names that the database takes for one. -/
def Distinct (names : List String) : Prop := names.Pairwise fun a b => eqIgnoreAsciiCase a b = false

/-- What the columns of a relation are called, in each of its layers. -/
def Query.Valid : Query → Prop
  | .table columns | .view columns => Distinct columns
  | .renamed previous before after =>
      previous.Valid ∧ before ∈ previous.names ∧ Distinct (Query.renamed previous before after).names

theorem Query.Valid.distinct {query : Query} (h : query.Valid) : Distinct query.names := by
  cases query with
  | table columns | view columns => exact h
  | renamed previous before after => exact h.2.2

theorem distinct_symm : Std.Symm fun a b => eqIgnoreAsciiCase a b = false :=
  ⟨fun a b h => by rwa [eqIgnoreAsciiCase_comm]⟩

theorem Distinct.eq {names : List String} (h : Distinct names) {a b : String} (ha : a ∈ names) (hb : b ∈ names)
    (hab : eqIgnoreAsciiCase a b = true) : a = b := by
  by_contra hne
  have := distinct_symm
  have hfalse := List.Pairwise.forall h ha hb hne
  rw [hab] at hfalse
  cases hfalse

theorem Distinct.nodup {names : List String} (h : Distinct names) : names.Nodup := by
  refine List.Pairwise.imp (fun {a b} hab heq => ?_) h
  rw [heq, eqIgnoreAsciiCase_refl] at hab
  cases hab

variable {names : List String} {source : Relation} {before after : String}

/-- A column rename maps the names as the source of the rename does. -/
theorem map_rename (h : Distinct names) (hbefore : before ∈ names) :
    (names.map fun field => if field = before then after else field) =
      names.map (Rename.column source before after).field := by
  refine List.map_congr_left fun field hfield => ?_
  simp only [Rename.field]
  by_cases heq : field = before
  · simp [heq]
  · have hne : ¬eqIgnoreAsciiCase field before = true := fun hsame => heq (h.eq hfield hbefore hsame)
    rw [if_neg heq, if_neg hne]

theorem Query.Valid.rename {query : Query} (h : query.Valid) (hbefore : before ∈ query.names)
    (hfree : ∀ field ∈ query.names, field ≠ before → ¬eqIgnoreAsciiCase field after = true) :
    (query.rename before after).Valid := by
  have hdistinct : Distinct (query.names.map fun field => if field = before then after else field) := by
    rw [Distinct, List.pairwise_map]
    refine h.distinct.imp_of_mem fun {a b} ha hb hab => ?_
    by_cases hab' : a = before
    · by_cases hb' : b = before
      · rw [hab', hb', eqIgnoreAsciiCase_refl] at hab
        cases hab
      · rw [if_pos hab', if_neg hb', eqIgnoreAsciiCase_comm]
        exact Bool.eq_false_iff.mpr (hfree b hb hb')
    · by_cases hb' : b = before
      · rw [if_neg hab', if_pos hb']
        exact Bool.eq_false_iff.mpr (hfree a ha hab')
      · rwa [if_neg hab', if_neg hb']
  cases query with
  | table columns => exact hdistinct
  | view columns | renamed previous b a => exact ⟨h, hbefore, hdistinct⟩

/-- The names of a wrapper's query, mapped back. -/
theorem map_undo {previous : Query} (h : (Query.renamed previous before after).Valid) :
    previous.names = (Query.renamed previous before after).names.map (Rename.column source after before).field := by
  obtain ⟨-, hbefore, hdistinct⟩ := h
  rw [Query.names, List.map_map]
  conv_lhs => rw [← List.map_id previous.names]
  refine List.map_congr_left fun field hfield => ?_
  simp only [id, Function.comp_apply, Rename.field]
  by_cases heq : field = before
  · simp [heq]
  · rw [if_neg heq]
    rw [Distinct, Query.names, List.pairwise_map] at hdistinct
    have : Std.Symm fun a b => eqIgnoreAsciiCase (if a = before then after else a) (if b = before then after else b) = false :=
      ⟨fun a b h => by rwa [eqIgnoreAsciiCase_comm]⟩
    have hne := List.Pairwise.forall hdistinct hfield hbefore heq
    rw [if_neg heq, if_pos rfl] at hne
    rw [hne]
    rfl

theorem filterMap_single {β : Type} {c : β} (hnodup : names.Nodup) (hbefore : before ∈ names) :
    (names.filterMap fun field => if field = before then some c else none) = [c] := by
  induction names with
  | nil => cases hbefore
  | cons field rest ih =>
      obtain ⟨hfresh, hrest⟩ := List.nodup_cons.mp hnodup
      by_cases heq : field = before
      · subst heq
        rw [List.filterMap_cons, if_pos rfl]
        have hnone : (rest.filterMap fun other => if other = field then some c else none) = [] := by
          rw [List.filterMap_eq_nil_iff]
          intro other hother
          rw [if_neg]
          rintro rfl
          exact hfresh hother
        simp [hnone]
      · rw [List.filterMap_cons, if_neg heq]
        exact ih hrest ((List.mem_cons.mp hbefore).resolve_left (Ne.symm heq))

theorem wrapper_self {previous : Query} (h : (Query.renamed previous before after).Valid) :
    wrapper (.renamed previous before after) previous = if before = after then none else some (before, after) := by
  obtain ⟨hprevious, hbefore, -⟩ := h
  have hselect : ((selectList previous before after).filterMap fun f =>
      (f.2.filter fun shown => f.1 ≠ shown).map fun shown => (f.1, shown)) =
      previous.names.filterMap fun field => if field = before then
        (if before = after then none else some (before, after)) else none := by
    rw [selectList, List.filterMap_map]
    refine List.filterMap_congr fun field _ => ?_
    by_cases heq : field = before
    · by_cases hsame : before = after <;> simp [heq, hsame, Option.filter]
    · simp [heq]
  rw [wrapper, if_neg (not_not.mpr rfl), hselect]
  by_cases hsame : before = after
  · simp [hsame]
  · simp only [if_neg hsame]
    rw [filterMap_single hprevious.distinct.nodup hbefore]

theorem wrapper_inner (previous : Query) (before after : String) :
    wrapper previous (.renamed previous before after) = none := by
  cases previous with
  | table columns | view columns => rfl
  | renamed inner b a =>
      rw [wrapper, if_pos]
      intro h
      have hsize := congrArg sizeOf h
      simp only [Query.renamed.sizeOf_spec] at hsize
      omega

theorem viewRename_undo {previous : Query} (h : (Query.renamed previous before after).Valid) :
    viewRename source (.renamed previous before after) previous =
      if before = after then none else some (.column source after before) := by
  rw [viewRename, wrapper_self h]
  by_cases hsame : before = after
  · simp [hsame, wrapper_inner]
  · simp [hsame]

end Names

/-- A catalogue as the database keeps it, with the Data Blocks that are registered. -/
structure Valid (s : State) : Prop where
  relations : s.catalogue.Pairwise fun a b => Relation.same a.relation b.relation = false
  queries : ∀ e ∈ s.catalogue, e.query.Valid
  nodes : ∀ n ∈ s.nodes, ∃ e ∈ s.catalogue, e.relation = ⟨"data", n⟩

/-- What a publication was made of: the positions in the catalogue of its Data
Block and of its source, that of its text column, and those of each source field
and of the column that shows it. -/
structure Origin where
  block : Nat
  source : Nat
  text : Nat
  pairs : List (Nat × Nat)

/-- A publication names its source and its Data Block as they are called now. -/
structure Names (same : String → String → Prop) (o : Origin) (source block : Entry) (p : Publication) : Prop where
  nodeName : block.relation = ⟨"data", p.nodeName⟩
  schema : same (p.bindings.input.source.schema.getD "data") source.relation.schema
  name : same p.bindings.input.source.name source.relation.name
  text : ∃ column, source.names[o.text]? = some column ∧ same p.bindings.input.column column
  fields : List.Forall₂ (fun f k => source.names[k.1]? = some f.1 ∧ block.names[k.2]? = some f.2) p.bindings.fields o.pairs

def Bound (same : String → String → Prop) (s : State) (o : Origin) (p : Publication) : Prop :=
  ∃ source block, s.catalogue[o.source]? = some source ∧ s.catalogue[o.block]? = some block ∧ Names same o source block p

section Steps

variable {same : String → String → Prop} {s : State} {o : Origin} {p : Publication} {relation : Relation}

theorem Valid.relation_eq (hs : Valid s) {a b : Entry} (ha : a ∈ s.catalogue) (hb : b ∈ s.catalogue)
    (h : Relation.same a.relation b.relation = true) : a.relation = b.relation := by
  by_cases hab : a = b
  · rw [hab]
  · have : Std.Symm fun a b : Entry => Relation.same a.relation b.relation = false :=
      ⟨fun a b h => by rwa [Relation.same_comm]⟩
    have hfalse := List.Pairwise.forall hs.relations ha hb hab
    rw [h] at hfalse
    cases hfalse

theorem resolve_mem (hs : Valid s) {target : ObjectTarget} (h : resolve s target = .ok relation) :
    ∃ e ∈ s.catalogue, e.relation = relation := by
  simp only [resolve] at h
  split at h
  · split at h
    · rename_i name hname
      obtain rfl := Except.ok.inj h
      exact hs.nodes name (List.mem_of_find?_eq_some hname)
    · cases h
  · split at h
    · cases h
    · split at h
      · rename_i e he
        obtain rfl := Except.ok.inj h
        exact ⟨e, List.mem_of_find?_eq_some he, rfl⟩
      · cases h

/-- A rename of a relation is recognized in a binding just where the binding names it. -/
theorem recognizes_iff (hs : Valid s) (hsame : ∀ {a b}, same a b → eqIgnoreAsciiCase a b = true) {source block e : Entry}
    (hsource : source ∈ s.catalogue) (he : e ∈ s.catalogue) (hp : Names same o source block p) {rename : Rename}
    (hrename : rename.source = e.relation) :
    rename.recognizes p.bindings.input.source = true ↔ source.relation = e.relation := by
  have hschema := eqIgnoreAsciiCase_iff.mp (hsame hp.schema)
  have hname := eqIgnoreAsciiCase_iff.mp (hsame hp.name)
  rw [Rename.recognizes, hrename, Bool.and_eq_true, eqIgnoreAsciiCase_iff, eqIgnoreAsciiCase_iff, hschema, hname]
  constructor
  · rintro ⟨hn, hs'⟩
    exact hs.relation_eq hsource he (Relation.same_iff.mpr ⟨hs', hn⟩)
  · intro h
    rw [h]
    exact ⟨rfl, rfl⟩

theorem own_iff (hs : Valid s) {source block e : Entry} (hblock : block ∈ s.catalogue) (he : e ∈ s.catalogue)
    (hp : Names same o source block p) :
    (eqIgnoreAsciiCase e.relation.schema "data" && eqIgnoreAsciiCase e.relation.name p.nodeName) = true ↔
      block.relation = e.relation := by
  have hrelation : (eqIgnoreAsciiCase e.relation.schema "data" && eqIgnoreAsciiCase e.relation.name p.nodeName) =
      Relation.same e.relation block.relation := by rw [hp.nodeName, Relation.same]
  rw [hrelation]
  constructor
  · intro h
    exact (hs.relation_eq he hblock h).symm
  · intro h
    rw [h, Relation.same_refl]

/-- Another name for the relation `e.relation`, wherever it is named. -/
theorem Names.table (hs : Valid s) (hsame : ∀ {a b}, same a b → eqIgnoreAsciiCase a b = true) (hrefl : ∀ a, same a a)
    {source block e : Entry} (hsource : source ∈ s.catalogue) (he : e ∈ s.catalogue)
    (hp : Names same o source block p) {name nodeName : String}
    (hnode : nodeName = if e.relation = ⟨"data", p.nodeName⟩ then name else p.nodeName) {source' block' : Entry}
    (hsource' : source' = if source.relation = e.relation then
      { source with relation := { e.relation with name := name } } else source)
    (hblock' : block' = if block.relation = e.relation then
      { block with relation := { e.relation with name := name } } else block) :
    Names same o source' block' ⟨nodeName, renameInputs (.table e.relation name) p.bindings⟩ := by
  have hnames : source'.names = source.names := by
    rw [hsource']
    split <;> rfl
  have hoverNames : block'.names = block.names := by
    rw [hblock']
    split <;> rfl
  have hrecognizes : (Rename.table e.relation name).recognizes p.bindings.input.source = true ↔
      source.relation = e.relation := recognizes_iff hs hsame hsource he hp rfl
  have hfields : (renameInputs (.table e.relation name) p.bindings).fields = p.bindings.fields := by
    rw [renameInputs]
    split <;> rfl
  have hcolumn : (renameInputs (.table e.relation name) p.bindings).input.column = p.bindings.input.column := by
    rw [renameInputs]
    split <;> rfl
  have hschema : (renameInputs (.table e.relation name) p.bindings).input.source.schema = p.bindings.input.source.schema := by
    rw [renameInputs]
    split <;> rfl
  refine ⟨?_, ?_, ?_, ?_, ?_⟩
  · rw [hblock', hnode, hp.nodeName]
    by_cases h : e.relation = ⟨"data", p.nodeName⟩
    · rw [if_pos h.symm, if_pos h, h]
    · rw [if_neg (Ne.symm h), if_neg h]
      exact hp.nodeName
  · rw [hschema, hsource']
    split
    · rename_i h
      rw [← h]
      exact hp.schema
    · exact hp.schema
  · rw [hsource', renameInputs]
    by_cases h : source.relation = e.relation
    · rw [if_pos (hrecognizes.mpr h), if_pos h]
      exact hrefl name
    · rw [if_neg (fun hyes => h (hrecognizes.mp hyes)), if_neg h]
      exact hp.name
  · rw [hnames, hcolumn]
    exact hp.text
  · rw [hnames, hoverNames, hfields]
    exact hp.fields

/-- Other names for the columns of `e.relation`, wherever they are named. -/
theorem Names.column (hs : Valid s) (hsame : ∀ {a b}, same a b → eqIgnoreAsciiCase a b = true) (hrefl : ∀ a, same a a)
    {source block e : Entry} (hsource : source ∈ s.catalogue) (hblock : block ∈ s.catalogue) (he : e ∈ s.catalogue)
    (hp : Names same o source block p) {before after : String} {source' block' : Entry}
    (hsource' : source'.relation = source.relation ∧ source'.names = if source.relation = e.relation then
      source.names.map (Rename.column e.relation before after).field else source.names)
    (hblock' : block'.relation = block.relation ∧ block'.names = if block.relation = e.relation then
      block.names.map (Rename.column e.relation before after).field else block.names) :
    Names same o source' block' ⟨p.nodeName, renameOutputs (.column e.relation before after) p.nodeName
      (renameInputs (.column e.relation before after) p.bindings)⟩ := by
  have hrecognizes : (Rename.column e.relation before after).recognizes p.bindings.input.source = true ↔
      source.relation = e.relation := recognizes_iff hs hsame hsource he hp rfl
  have hown := own_iff hs hblock he hp
  have hinput : (renameOutputs (.column e.relation before after) p.nodeName
      (renameInputs (.column e.relation before after) p.bindings)).input =
      (renameInputs (.column e.relation before after) p.bindings).input := by
    rw [renameOutputs]
    split <;> rfl
  have hinputSource : (renameInputs (.column e.relation before after) p.bindings).input.source = p.bindings.input.source := by
    rw [renameInputs]
    split <;> rfl
  refine ⟨by rw [hblock'.1, hp.nodeName], ?_, ?_, ?_, ?_⟩
  · rw [hinput, hinputSource, hsource'.1]
    exact hp.schema
  · rw [hinput, hinputSource, hsource'.1]
    exact hp.name
  · obtain ⟨column, hcolumn, hcalled⟩ := hp.text
    rw [hinput, hsource'.2]
    by_cases h : source.relation = e.relation
    · rw [if_pos h, List.getElem?_map, hcolumn, renameInputs, if_pos (hrecognizes.mpr h)]
      refine ⟨_, rfl, ?_⟩
      have hcase : eqIgnoreAsciiCase p.bindings.input.column before = eqIgnoreAsciiCase column before := by
        rw [eqIgnoreAsciiCase, eqIgnoreAsciiCase, eqIgnoreAsciiCase_iff.mp (hsame hcalled)]
      simp only [Rename.field, hcase]
      by_cases hbefore : eqIgnoreAsciiCase column before = true
      · simp only [if_pos hbefore]
        exact hrefl after
      · simp only [if_neg hbefore]
        exact hcalled
    · rw [if_neg h, renameInputs, if_neg fun hyes => h (hrecognizes.mp hyes)]
      exact ⟨column, hcolumn, hcalled⟩
  · have hinputs : List.Forall₂ (fun f k => source'.names[k.1]? = some f.1 ∧ block.names[k.2]? = some f.2)
        (renameInputs (.column e.relation before after) p.bindings).fields o.pairs := by
      rw [hsource'.2, renameInputs]
      by_cases h : source.relation = e.relation
      · rw [if_pos (hrecognizes.mpr h), if_pos h]
        refine List.forall₂_map_left_iff.mpr (hp.fields.imp fun f k hf => ⟨?_, hf.2⟩)
        rw [List.getElem?_map, hf.1]
        rfl
      · rw [if_neg fun hyes => h (hrecognizes.mp hyes), if_neg h]
        exact hp.fields
    rw [renameOutputs, hblock'.2]
    by_cases h : block.relation = e.relation
    · rw [if_pos (hown.mpr h), if_pos h]
      refine List.forall₂_map_left_iff.mpr (hinputs.imp fun f k hf => ⟨hf.1, ?_⟩)
      rw [List.getElem?_map, hf.2]
      rfl
    · rw [if_neg fun hyes => h (hown.mp hyes), if_neg h]
      exact hinputs

/-- What an operation does to the names: a relation is called otherwise, or its columns are. -/
inductive Effect (s t : State) : Prop
  | quiet (hcatalogue : t.catalogue = s.catalogue) (hnodes : t.nodes = s.nodes) (hpublications : t.publications = s.publications)
  | table (e : Entry) (name : String) (he : e ∈ s.catalogue)
      (hfree : ∀ e' ∈ s.catalogue, e'.relation ≠ e.relation → Relation.same e'.relation { e.relation with name := name } = false)
      (hnodes : t.nodes = if e.relation.schema = "data" then s.nodes.map (fun n => if n = e.relation.name then name else n)
        else s.nodes)
      (hcatalogue : t.catalogue = setEntry s e.relation fun e' => { e' with relation := { e.relation with name := name } })
      (hpublications : t.publications =
        renamePublication e.relation name (renamePublicationSource (.table e.relation name) s.publications))
  | column (e : Entry) (before after : String) (change : Entry → Entry) (he : e ∈ s.catalogue)
      (hcatalogue : t.catalogue = setEntry s e.relation change) (hrelation : ∀ e', (change e').relation = e'.relation)
      (hnames : ∀ e' ∈ s.catalogue, e'.relation = e.relation →
        (change e').names = e'.names.map (Rename.column e.relation before after).field)
      (hqueries : ∀ e' ∈ s.catalogue, e'.relation = e.relation → (change e').query.Valid) (hnodes : t.nodes = s.nodes)
      (hpublications : t.publications = renamePublicationSource (.column e.relation before after) s.publications)
  | same (e : Entry) (change : Entry → Entry) (he : e ∈ s.catalogue)
      (hcatalogue : t.catalogue = setEntry s e.relation change) (hrelation : ∀ e', (change e').relation = e'.relation)
      (hnames : ∀ e' ∈ s.catalogue, e'.relation = e.relation → (change e').names = e'.names)
      (hqueries : ∀ e' ∈ s.catalogue, e'.relation = e.relation → (change e').query.Valid) (hnodes : t.nodes = s.nodes)
      (hpublications : t.publications = s.publications)

theorem getElem?_setEntry {relation : Relation} {change : Entry → Entry} {i : Nat} {e : Entry}
    (h : s.catalogue[i]? = some e) :
    (setEntry s relation change)[i]? = some (if e.relation = relation then change e else e) := by
  rw [setEntry, List.getElem?_map, h]
  rfl

/-- Every operation keeps what a publication names. -/
theorem Effect.bound {t : State} (h : Effect s t) (hs : Valid s)
    (hsame : ∀ {a b}, same a b → eqIgnoreAsciiCase a b = true) (hrefl : ∀ a, same a a) {i : Nat}
    (hp : s.publications[i]? = some p) (hbound : Bound same s o p) :
    ∃ q, t.publications[i]? = some q ∧ Bound same t o q := by
  obtain ⟨source, block, hsource, hblock, hnames⟩ := hbound
  have hsourceMem := List.mem_of_getElem? hsource
  have hblockMem := List.mem_of_getElem? hblock
  cases h with
  | quiet hcatalogue hnodes hpublications =>
      rw [hpublications]
      refine ⟨p, hp, source, block, ?_, ?_, hnames⟩ <;> rwa [hcatalogue]
  | table e name he hfree hnodes hcatalogue hpublications =>
      rw [hpublications]
      have hq : (renamePublication e.relation name (renamePublicationSource (.table e.relation name) s.publications))[i]? =
          some ⟨if e.relation = ⟨"data", p.nodeName⟩ then name else p.nodeName,
            renameInputs (.table e.relation name) p.bindings⟩ := by
        have hfirst : (renamePublicationSource (.table e.relation name) s.publications)[i]? =
            some ⟨p.nodeName, renameInputs (.table e.relation name) p.bindings⟩ := by
          rw [renamePublicationSource, List.getElem?_map, hp]
          rfl
        rw [renamePublication]
        by_cases hdata : e.relation.schema = "data"
        · rw [if_pos hdata, List.getElem?_map, hfirst]
          by_cases hname : p.nodeName = e.relation.name
          · have hblockName : e.relation = ⟨"data", p.nodeName⟩ := by rw [hname, ← hdata]
            simp [hname, ← hdata]
          · have hblockName : e.relation ≠ ⟨"data", p.nodeName⟩ := fun h => hname (by rw [h])
            simp [hname, hblockName]
        · have hblockName : e.relation ≠ ⟨"data", p.nodeName⟩ := fun h => hdata (by rw [h])
          rw [if_neg hdata, hfirst, if_neg hblockName]
      refine ⟨_, hq, _, _, ?_, ?_, hnames.table hs hsame hrefl hsourceMem he rfl rfl rfl⟩
      · rw [hcatalogue]
        exact getElem?_setEntry hsource
      · rw [hcatalogue]
        exact getElem?_setEntry hblock
  | column e before after change he hcatalogue hrelation hchange hqueries hnodes hpublications =>
      have hentry : ∀ {e'}, e' ∈ s.catalogue → let e'' := if e'.relation = e.relation then change e' else e'
          e''.relation = e'.relation ∧ e''.names = if e'.relation = e.relation then
            e'.names.map (Rename.column e.relation before after).field else e'.names := by
        intro e' he'
        by_cases h : e'.relation = e.relation
        · simp only [if_pos h]
          exact ⟨hrelation e', hchange e' he' h⟩
        · simp only [if_neg h, and_self]
      refine ⟨_, ?_, _, _, ?_, ?_, hnames.column hs hsame hrefl hsourceMem hblockMem he (hentry hsourceMem) (hentry hblockMem)⟩
      · rw [hpublications, renamePublicationSource, List.getElem?_map, hp]
        rfl
      · rw [hcatalogue]
        exact getElem?_setEntry hsource
      · rw [hcatalogue]
        exact getElem?_setEntry hblock
  | same e change he hcatalogue hrelation hchange hqueries hnodes hpublications =>
      have hentry : ∀ {e'}, e' ∈ s.catalogue → let e'' := if e'.relation = e.relation then change e' else e'
          e''.relation = e'.relation ∧ e''.names = e'.names := by
        intro e' he'
        by_cases h : e'.relation = e.relation
        · simp only [if_pos h]
          exact ⟨hrelation e', hchange e' he' h⟩
        · simp only [if_neg h, and_self]
      obtain ⟨hsourceRelation, hsourceNames⟩ := hentry hsourceMem
      obtain ⟨hblockRelation, hblockNames⟩ := hentry hblockMem
      rw [hpublications]
      refine ⟨p, hp, if source.relation = e.relation then change source else source,
        if block.relation = e.relation then change block else block, ?_, ?_, ⟨?_, ?_, ?_, ?_, ?_⟩⟩
      · rw [hcatalogue]
        exact getElem?_setEntry hsource
      · rw [hcatalogue]
        exact getElem?_setEntry hblock
      · rw [hblockRelation]
        exact hnames.nodeName
      · rw [hsourceRelation]
        exact hnames.schema
      · rw [hsourceRelation]
        exact hnames.name
      · rw [hsourceNames]
        exact hnames.text
      · rw [hsourceNames, hblockNames]
        exact hnames.fields

theorem mem_setEntry {relation : Relation} {change : Entry → Entry} {e : Entry} :
    e ∈ setEntry s relation change ↔ ∃ e' ∈ s.catalogue, (if e'.relation = relation then change e' else e') = e := by
  rw [setEntry, List.mem_map]

theorem valid_setEntry (hs : Valid s) {relation : Relation} {change : Entry → Entry} {t : State}
    (hcatalogue : t.catalogue = setEntry s relation change) (hrelation : ∀ e, (change e).relation = e.relation)
    (hqueries : ∀ e ∈ s.catalogue, e.relation = relation → (change e).query.Valid) (hnodes : t.nodes = s.nodes) : Valid t := by
  have hsame : ∀ e : Entry, (if e.relation = relation then change e else e).relation = e.relation := by
    intro e
    split
    · exact hrelation e
    · rfl
  refine ⟨?_, fun e he => ?_, fun n hn => ?_⟩
  · rw [hcatalogue, setEntry, List.pairwise_map]
    refine hs.relations.imp fun h => ?_
    rwa [hsame, hsame]
  · rw [hcatalogue, mem_setEntry] at he
    obtain ⟨e', he', rfl⟩ := he
    split
    · rename_i h
      exact hqueries e' he' h
    · exact hs.queries e' he'
  · rw [hnodes] at hn
    obtain ⟨e, he, hrel⟩ := hs.nodes n hn
    exact ⟨_, hcatalogue ▸ mem_setEntry.mpr ⟨e, he, rfl⟩, by rw [hsame, hrel]⟩

theorem Effect.valid {t : State} (h : Effect s t) (hs : Valid s) : Valid t := by
  cases h with
  | quiet hcatalogue hnodes hpublications =>
      refine ⟨?_, ?_, ?_⟩
      · rw [hcatalogue]
        exact hs.relations
      · rw [hcatalogue]
        exact hs.queries
      · rw [hcatalogue, hnodes]
        exact hs.nodes
  | table e name he hfree hnodes hcatalogue hpublications =>
      refine ⟨?_, fun e' he' => ?_, fun n hn => ?_⟩
      · rw [hcatalogue, setEntry, List.pairwise_map]
        refine hs.relations.imp_of_mem fun {a b} ha hb hab => ?_
        by_cases ha' : a.relation = e.relation
        · by_cases hb' : b.relation = e.relation
          · rw [ha', hb', Relation.same_refl] at hab
            cases hab
          · rw [if_pos ha', if_neg hb', Relation.same_comm]
            exact hfree b hb hb'
        · by_cases hb' : b.relation = e.relation
          · rw [if_neg ha', if_pos hb']
            exact hfree a ha ha'
          · rwa [if_neg ha', if_neg hb']
      · rw [hcatalogue, mem_setEntry] at he'
        obtain ⟨old, hold, rfl⟩ := he'
        split <;> exact hs.queries old hold
      · rw [hcatalogue]
        by_cases hdata : e.relation.schema = "data"
        · rw [hnodes, if_pos hdata] at hn
          obtain ⟨n', hn', rfl⟩ := List.mem_map.mp hn
          obtain ⟨found, hfound, hrelation⟩ := hs.nodes n' hn'
          refine ⟨_, mem_setEntry.mpr ⟨found, hfound, rfl⟩, ?_⟩
          by_cases hname : n' = e.relation.name
          · have hsame : found.relation = e.relation := by rw [hrelation, hname, ← hdata]
            rw [if_pos hsame, if_pos hname, ← hdata]
          · have hother : found.relation ≠ e.relation := fun h => hname (by rw [← h, hrelation])
            rw [if_neg hother, if_neg hname, hrelation]
        · rw [hnodes, if_neg hdata] at hn
          obtain ⟨found, hfound, hrelation⟩ := hs.nodes n hn
          have hother : found.relation ≠ e.relation := fun h => hdata (by rw [← h, hrelation])
          exact ⟨_, mem_setEntry.mpr ⟨found, hfound, rfl⟩, by rw [if_neg hother, hrelation]⟩
  | column e before after change he hcatalogue hrelation hchange hqueries hnodes hpublications =>
      exact valid_setEntry hs hcatalogue hrelation hqueries hnodes
  | same e change he hcatalogue hrelation hchange hqueries hnodes hpublications =>
      exact valid_setEntry hs hcatalogue hrelation hqueries hnodes

theorem Effect.refl (s : State) : Effect s s := .quiet rfl rfl rfl

theorem mem_names {relation : Relation} {column : String} (h : column ∈ s.names relation) :
    ∃ e, s.entry relation = some e ∧ column ∈ e.names := by
  simp only [State.names] at h
  cases he : s.entry relation with
  | none =>
      rw [he] at h
      cases h
  | some e =>
      rw [he] at h
      exact ⟨e, rfl, h⟩

theorem entry_some {relation : Relation} {e : Entry} (h : s.entry relation = some e) :
    e ∈ s.catalogue ∧ e.relation = relation :=
  ⟨List.mem_of_find?_eq_some h, by simpa using List.find?_some h⟩

/-- One relation of the catalogue has one entry. -/
theorem Valid.entry_eq (hs : Valid s) {a b : Entry} (ha : a ∈ s.catalogue) (hb : b ∈ s.catalogue)
    (h : a.relation = b.relation) : a = b := by
  by_contra hab
  have : Std.Symm fun a b : Entry => Relation.same a.relation b.relation = false :=
    ⟨fun a b h => by rwa [Relation.same_comm]⟩
  have hfalse := List.Pairwise.forall hs.relations ha hb hab
  rw [h, Relation.same_refl] at hfalse
  cases hfalse

theorem columnName_mem {relation : Relation} {input column : String} (h : columnName s relation input = .ok column) :
    column ∈ s.names relation := by
  simp only [columnName] at h
  split at h
  · rename_i found hfound
    rw [← Except.ok.inj h]
    exact List.mem_of_find?_eq_some hfound
  · cases h

theorem rename_names (query : Query) (before after : String) :
    (query.rename before after).names = query.names.map fun field => if field = before then after else field := by
  cases query <;> rfl

theorem apply_effect (hs : Valid s) {operation : Operation} {t : State} (h : apply s operation = some t) : Effect s t := by
  cases operation with
  | renameNode target name =>
      have h := toOption_eq_some.mp h
      obtain ⟨-, h⟩ := guard_eq_ok.mp h
      obtain ⟨source, hsource, h⟩ := bind_eq_ok.mp h
      obtain ⟨e, he, rfl⟩ := resolve_mem hs hsource
      split at h
      · obtain rfl := Except.ok.inj h
        exact .refl s
      · obtain ⟨hfree, h⟩ := guard_eq_ok.mp h
        obtain rfl := Except.ok.inj h
        refine .table e _ he (fun e' he' hne => ?_) rfl rfl rfl
        rw [occupied, List.any_eq_true] at hfree
        exact Bool.eq_false_iff.mpr fun hsame => hfree ⟨e', he', by simp [hne, hsame]⟩
  | renameColumn target column name =>
      have h := toOption_eq_some.mp h
      obtain ⟨relation, hrelation, h⟩ := bind_eq_ok.mp h
      obtain ⟨before, hbefore, h⟩ := bind_eq_ok.mp h
      obtain ⟨-, h⟩ := guard_eq_ok.mp h
      obtain ⟨hfree, h⟩ := guard_eq_ok.mp h
      obtain rfl := Except.ok.inj h
      obtain ⟨e, hentry, hmem⟩ := mem_names (columnName_mem hbefore)
      obtain ⟨he, rfl⟩ := entry_some hentry
      have hnames : s.names e.relation = e.names := by rw [State.names, hentry]; rfl
      rw [hnames, List.any_eq_true] at hfree
      refine .column e before _ _ he rfl (fun _ => rfl) (fun e' he' hsame => ?_) (fun e' he' hsame => ?_) rfl rfl
      · obtain rfl := hs.entry_eq he' he hsame
        exact (rename_names _ _ _).trans (map_rename (hs.queries _ he).distinct hmem)
      · obtain rfl := hs.entry_eq he' he hsame
        exact (hs.queries _ he).rename hmem fun field hfield hne hci => hfree ⟨field, hfield, by simp [hne, hci]⟩
  | undo target =>
      have h := toOption_eq_some.mp h
      obtain ⟨relation, hrelation, h⟩ := bind_eq_ok.mp h
      split at h
      · rename_i previous before after hquery
        obtain ⟨e, hentry, hlayers⟩ := Option.map_eq_some_iff.mp hquery
        obtain ⟨he, rfl⟩ := entry_some hentry
        have hvalid := hlayers ▸ hs.queries e he
        have hnames : ∀ e' ∈ s.catalogue, e'.relation = e.relation →
            e'.names = (Query.renamed previous before after).names := by
          intro e' he' hsame
          rw [hs.entry_eq he' he hsame, Entry.names, hlayers]
        simp only [viewRename_undo hvalid] at h
        by_cases hsame : before = after
        · rw [if_pos hsame] at h
          obtain rfl := Except.ok.inj h
          refine .same e _ he rfl (fun _ => rfl) (fun e' he' hrelation => ?_) (fun _ _ _ => hvalid.1) rfl rfl
          have hid : (fun field : String => if field = after then after else field) = id := by
            funext field
            by_cases h : field = after <;> simp [h]
          rw [hnames e' he' hrelation, hsame, Query.names, hid, List.map_id]
          rfl
        · rw [if_neg hsame] at h
          obtain rfl := Except.ok.inj h
          refine .column e after before _ he rfl (fun _ => rfl) (fun e' he' hrelation => ?_) (fun _ _ _ => hvalid.1) rfl rfl
          rw [hnames e' he' hrelation]
          exact map_undo hvalid
      · cases h
      · cases h
  | refresh rebind affected all =>
      obtain rfl := Option.some.inj h
      exact .quiet rfl rfl rfl

end Steps

section Refresh

variable {s : State} {p : Publication}

theorem foldl_mem {α β : Type} {Q : α → Prop} {f : List α → β → List α} {items : List β} {acc : List α}
    (hf : ∀ acc, ∀ b ∈ items, ∀ x ∈ f acc b, x ∈ acc ∨ Q x) : ∀ x ∈ items.foldl f acc, x ∈ acc ∨ Q x := by
  induction items generalizing acc with
  | nil => exact fun x hx => .inl hx
  | cons b rest ih =>
      intro x hx
      rcases ih (fun acc b hb => hf acc b (List.mem_cons_of_mem _ hb)) x hx with h | h
      · exact hf acc b List.mem_cons_self x h
      · exact .inr h

theorem mem_dropColumn {annotations : List (Relation × Annotation)} {relation : Relation} {column : String}
    {x : Relation × Annotation} (h : x ∈ renameColumnAnnotations annotations relation column none) : x ∈ annotations :=
  List.mem_of_mem_filter h

/-- A refresh writes on the Data Block alone, and on a column of it what the field bound to it has. -/
theorem refreshPublication_mem {rebind : Relation → Option (List (String × String))} {annotations : List (Relation × Annotation)}
    {relation : Relation} {a : Annotation} (h : (relation, a) ∈ refreshPublication s rebind annotations p) :
    (relation, a) ∈ annotations ∨ relation = ⟨"data", p.nodeName⟩ ∧ ∃ f ∈ p.bindings.fields, ∃ inherited,
      (bindingRelation p.bindings, inherited) ∈ annotations ∧ inherited.path.head? = some f.1 ∧ a = renameHead f.2 inherited := by
  simp only [refreshPublication] at h
  split at h
  · exact .inl h
  · rename_i after hafter
    have hkept : ∀ x ∈ (s.columns ⟨"data", p.nodeName⟩).foldl (fun annotations column =>
        if after.contains column then annotations
        else renameColumnAnnotations annotations ⟨"data", p.nodeName⟩ column.1 none) annotations, x ∈ annotations := by
      intro x hx
      refine (foldl_mem (Q := fun _ => False) (fun acc b _ y hy => .inl ?_) x hx).resolve_right id
      split at hy
      · exact hy
      · exact mem_dropColumn hy
    refine (foldl_mem (Q := fun x => x.1 = ⟨"data", p.nodeName⟩ ∧ ∃ f ∈ p.bindings.fields, ∃ inherited,
        (bindingRelation p.bindings, inherited) ∈ annotations ∧ inherited.path.head? = some f.1 ∧
          x.2 = renameHead f.2 inherited) ?_ _ h).imp_left (hkept _)
    intro acc f hf x hx
    split at hx
    · rcases List.mem_append.mp hx with hx | hx
      · exact .inl (mem_dropColumn hx)
      · right
        obtain ⟨stored, hstored, rfl⟩ := List.mem_map.mp hx
        obtain ⟨inherited, hinherited, rfl⟩ := List.mem_map.mp hstored
        obtain ⟨hloaded, hhead⟩ := List.mem_filter.mp hinherited
        obtain ⟨⟨found, _⟩, hfound, rfl⟩ := List.mem_map.mp hloaded
        obtain ⟨hmem, hrelation⟩ := List.mem_filter.mp hfound
        obtain rfl : found = bindingRelation p.bindings := by simpa using hrelation
        exact ⟨rfl, f, hf, _, hkept _ hmem, by simpa using hhead, rfl⟩
    · exact .inl (mem_dropColumn hx)

end Refresh

section Runs

/-- A rename of another relation leaves what a binding says of its source, and
but for a rename of its own Data Block all of it. -/
theorem renamePublicationSource_other {rename : Rename} {publications : List Publication} {i : Nat} {p : Publication}
    (hp : publications[i]? = some p) (hother : rename.recognizes p.bindings.input.source = false) :
    ∃ q, (renamePublicationSource rename publications)[i]? = some q ∧ q.bindings.input = p.bindings.input ∧
      q.bindings.fields.map Prod.fst = p.bindings.fields.map Prod.fst ∧
      (Relation.same rename.source ⟨"data", p.nodeName⟩ = false → q = p) := by
  have hinputs : renameInputs rename p.bindings = p.bindings := by
    simp [renameInputs, hother]
  refine ⟨⟨p.nodeName, renameOutputs rename p.nodeName p.bindings⟩, ?_, ?_, ?_, ?_⟩
  · rw [renamePublicationSource, List.getElem?_map, hp, ← hinputs]
    simp only [Option.map_some, hinputs]
  · simp only [renameOutputs]
    split
    · rfl
    · split <;> rfl
  · simp only [renameOutputs]
    split
    · rfl
    · split
      · simp only [List.map_map]
        rfl
      · rfl
  · intro hblock
    cases rename with
    | table source name => rfl
    | column source before after =>
        rw [Rename.source, Relation.same] at hblock
        rw [renameOutputs, hblock]
        rfl

theorem exec_valid {s t : State} {operations : List Operation} (hs : Valid s) (h : exec apply s operations = some t) : Valid t :=
  exec_invariant (fun hI hstep => (apply_effect hI hstep).valid hI) hs h

theorem exec_bound {same : String → String → Prop} (hsame : ∀ {a b}, same a b → eqIgnoreAsciiCase a b = true)
    (hrefl : ∀ a, same a a) {s t : State} {operations : List Operation} (hs : Valid s)
    (h : exec apply s operations = some t) {i : Nat} {o : Origin} {p : Publication} (hp : s.publications[i]? = some p)
    (hbound : Bound same s o p) : ∃ q, t.publications[i]? = some q ∧ Bound same t o q := by
  have hrun : Valid t ∧ ∃ q, t.publications[i]? = some q ∧ Bound same t o q := by
    refine exec_invariant (I := fun u => Valid u ∧ ∃ q, u.publications[i]? = some q ∧ Bound same u o q) ?_ ⟨hs, p, hp, hbound⟩ h
    rintro u v operation ⟨hu, q, hq, hqbound⟩ hstep
    have heffect := apply_effect hu hstep
    exact ⟨heffect.valid hu, heffect.bound hu hsame hrefl hq hqbound⟩
  exact hrun.2

/-- The spelling the database does not tell apart. -/
def SameName (a b : String) : Prop := eqIgnoreAsciiCase a b = true

/-- A live publication follows its source, its text column, its fields and the
columns that show them through every sequence of renames. -/
theorem publications_follow {s t : State} {operations : List Operation} (hs : Valid s)
    (h : exec apply s operations = some t) :
    (∀ same, same = Eq ∨ same = SameName → ∀ (i : Nat) (o : Origin) (p : Publication),
      s.publications[i]? = some p → Bound same s o p → ∃ q, t.publications[i]? = some q ∧ Bound same t o q ∧
        ∀ rebind annotations relation a, (relation, a) ∈ refreshPublication t rebind annotations q →
          (relation, a) ∈ annotations ∨ ∃ source block k field output inherited, k ∈ o.pairs ∧
            t.catalogue[o.source]? = some source ∧ t.catalogue[o.block]? = some block ∧ relation = block.relation ∧
            source.names[k.1]? = some field ∧ block.names[k.2]? = some output ∧
            Relation.same (bindingRelation q.bindings) source.relation = true ∧
            (bindingRelation q.bindings, inherited) ∈ annotations ∧ inherited.path.head? = some field ∧
            a = renameHead output inherited) ∧
    ∀ (rename : Rename) (i : Nat) (p : Publication), t.publications[i]? = some p →
      rename.recognizes p.bindings.input.source = false →
      ∃ q, (renamePublicationSource rename t.publications)[i]? = some q ∧ q.bindings.input = p.bindings.input ∧
        q.bindings.fields.map Prod.fst = p.bindings.fields.map Prod.fst ∧
        (Relation.same rename.source ⟨"data", p.nodeName⟩ = false → q = p) := by
  refine ⟨fun same hcase i o p hp hbound => ?_, fun rename i p hp hother => renamePublicationSource_other hp hother⟩
  have hsame : ∀ {a b}, same a b → eqIgnoreAsciiCase a b = true := by
    intro a b hab
    rcases hcase with rfl | rfl
    · rw [hab, eqIgnoreAsciiCase_refl]
    · exact hab
  have hrefl : ∀ a, same a a := by
    intro a
    rcases hcase with rfl | rfl
    · rfl
    · exact eqIgnoreAsciiCase_refl a
  obtain ⟨q, hq, hbound⟩ := exec_bound hsame hrefl hs h hp hbound
  refine ⟨q, hq, hbound, fun rebind annotations relation a hmem => (refreshPublication_mem hmem).imp_right ?_⟩
  rintro ⟨hrelation, f, hf, inherited, hinherited, hhead, ha⟩
  obtain ⟨source, block, hsource, hblock, hnames⟩ := hbound
  obtain ⟨k, hk, hfield, houtput⟩ := forall₂_mem_left hnames.fields hf
  refine ⟨source, block, k, f.1, f.2, inherited, hk, hsource, hblock, by rw [hrelation, hnames.nodeName], hfield, houtput, ?_,
    hinherited, hhead, ha⟩
  rw [bindingRelation, Relation.same, hsame hnames.schema, hsame hnames.name]
  rfl

/-- A table whose two columns change names by way of a third, and a Data Block that shows both. -/
def recordsState : State where
  catalogue := [⟨⟨"data", "records"⟩, .table ["text", "left", "right"], ["VARCHAR", "VARCHAR", "VARCHAR"]⟩,
    ⟨⟨"data", "Quotes"⟩, .view ["quote", "left", "right"], ["VARCHAR", "VARCHAR", "VARCHAR"]⟩]
  nodes := ["records", "Quotes"]
  publications := [⟨"Quotes", ⟨⟨⟨none, "records"⟩, "text"⟩, [("left", "left"), ("right", "right")]⟩⟩]
  annotations := []

def recordsRun : List Operation :=
  let records : ObjectTarget := ⟨none, "Records"⟩
  [.renameColumn records "left" "spare", .renameColumn records "right" "left", .renameColumn records "spare" "right",
    .renameColumn ⟨none, "quotes"⟩ "left" "shown", .renameColumn ⟨none, "quotes"⟩ "right" "left", .undo ⟨none, "quotes"⟩,
    .renameNode records "sources", .renameNode ⟨some "Data", "QUOTES"⟩ "speech", .renameColumn ⟨none, "sources"⟩ "Text" "body"]

theorem recordsState_valid : Valid recordsState where
  relations := by decide +kernel
  queries := by
    intro e he
    simp only [recordsState, List.mem_cons, List.not_mem_nil, or_false] at he
    have hdistinct : Distinct ["text", "left", "right"] ∧ Distinct ["quote", "left", "right"] := by
      simp only [Distinct]
      decide +kernel
    rcases he with rfl | rfl
    · exact hdistinct.1
    · exact hdistinct.2
  nodes := by
    intro n hn
    simp only [recordsState, List.mem_cons, List.not_mem_nil, or_false] at hn
    rcases hn with rfl | rfl
    · exact ⟨_, List.mem_cons_self, rfl⟩
    · exact ⟨_, List.mem_cons_of_mem _ List.mem_cons_self, rfl⟩

theorem recordsState_bound :
    Bound Eq recordsState ⟨1, 0, 0, [(1, 1), (2, 2)]⟩ ⟨"Quotes", ⟨⟨⟨none, "records"⟩, "text"⟩, [("left", "left"), ("right", "right")]⟩⟩ :=
  ⟨_, _, rfl, rfl, rfl, rfl, rfl, ⟨_, rfl, rfl⟩, .cons ⟨rfl, rfl⟩ (.cons ⟨rfl, rfl⟩ .nil)⟩

theorem records_followed : ∃ t, exec apply recordsState recordsRun = some t ∧
    ∃ q, t.publications[0]? = some q ∧ Bound Eq t ⟨1, 0, 0, [(1, 1), (2, 2)]⟩ q ∧
      q.bindings.fields = [("right", "shown"), ("left", "right")] := by
  obtain ⟨t, ht, hfields⟩ : ∃ t, exec apply recordsState recordsRun = some t ∧
      (t.publications.map fun q => q.bindings.fields) = [[("right", "shown"), ("left", "right")]] := by
    exact (Option.map_eq_some_iff.mp (show (exec apply recordsState recordsRun).map
      (fun t => t.publications.map fun q => q.bindings.fields) = some [[("right", "shown"), ("left", "right")]] by
        decide +kernel))
  obtain ⟨q, hq, hbound, _⟩ := (publications_follow recordsState_valid ht).1 Eq (.inl rfl) 0 _ _ rfl recordsState_bound
  refine ⟨t, ht, q, hq, hbound, ?_⟩
  have hmap := congrArg (fun l => l[0]?) hfields
  simp only [List.getElem?_map, hq, Option.map_some] at hmap
  exact Option.some.inj hmap

end Runs

end Wordflow.Publications
