import Wordflow.Library.Fallible
import Wordflow.Results.Columns

namespace Wordflow.Results

open Library Library.Identifier Library.Fallible Objects Registry

section Suffixes

/-- The names that are tried for a stem. -/
def tried (stem : String) : Nat → String
  | 0 => stem
  | n + 1 => numbered stem (n + 2)

theorem tried_injective (stem : String) : Function.Injective fun n => asciiLower (tried stem n) := by
  have hlonger : ∀ n, asciiLower stem ≠ asciiLower (numbered stem n) := by
    intro n h
    have hlength := congrArg List.length h
    simp only [asciiLower, numbered, String.toList_append, List.length_map, List.length_append] at hlength
    have hone : "_".toList.length = 1 := rfl
    omega
  intro m n h
  cases m with
  | zero =>
      cases n with
      | zero => rfl
      | succ n => exact absurd h (hlonger _)
  | succ m =>
      cases n with
      | zero => exact absurd h.symm (hlonger _)
      | succ n =>
          have hsame : m + 2 = n + 2 := numbered_injective stem h
          omega

variable {names : Names} {stem : String}

/-- The loop stops at the first of them that is free. -/
theorem nextName_eq (rounds n : Nat) :
    nextName names stem (rounds + 1) (tried stem n) (n + 2) =
      let found := Fresh.firstFree names (fun n => asciiLower (tried stem n)) rounds n
      if asciiLower (tried stem found) ∈ names then none else some (tried stem found) := by
  induction rounds generalizing n with
  | zero => rfl
  | succ rounds ih =>
      rw [nextName, Fresh.firstFree]
      by_cases htaken : asciiLower (tried stem n) ∈ names
      · rw [if_pos htaken, if_pos htaken]
        exact ih (n + 1)
      · simp only [if_neg htaken]

theorem nextName_more {rounds more suffix : Nat} {name found : String} (hle : rounds ≤ more)
    (h : nextName names stem rounds name suffix = some found) : nextName names stem more name suffix = some found := by
  induction rounds generalizing more name suffix with
  | zero => cases h
  | succ rounds ih =>
      obtain ⟨more, rfl⟩ : ∃ m, more = m + 1 := ⟨more - 1, by omega⟩
      rw [nextName] at h ⊢
      by_cases htaken : asciiLower name ∈ names
      · rw [if_pos htaken] at h ⊢
        exact ih (by omega) h
      · rw [if_neg htaken] at h ⊢
        exact h

/-- A stem, with the smallest suffix from 2 on under which it is free. -/
def Smallest (names : Names) (stem name : String) : Prop :=
  asciiLower name ∉ names ∧
    (name = stem ∨ asciiLower stem ∈ names ∧ ∃ n ≥ 2, name = numbered stem n ∧
      ∀ k, 2 ≤ k → k < n → asciiLower (numbered stem k) ∈ names)

/-- The loop ends after at most one round more than there are names. -/
theorem nextName_ends {rounds : Nat} (h : names.length < rounds) :
    nextName names stem rounds stem 2 = some (generatedName names stem) := by
  have hfree := @Fresh.firstFree_free _ _ names _ (tried_injective stem) 0
  have hfound : ∃ found, nextName names stem (names.length + 1) stem 2 = some found := by
    have hloop := @nextName_eq names stem names.length 0
    simp only [if_neg hfree] at hloop
    exact ⟨_, hloop⟩
  obtain ⟨found, hfound⟩ := hfound
  rw [generatedName, hfound, Option.getD_some]
  exact nextName_more h hfound

theorem generatedName_smallest (names : Names) (stem : String) : Smallest names stem (generatedName names stem) := by
  have hfree := @Fresh.firstFree_free _ _ names _ (tried_injective stem) 0
  have hleast (k : Nat) := @Fresh.firstFree_least _ _ names (fun n => asciiLower (tried stem n)) names.length 0 k (Nat.zero_le k)
  have hloop := @nextName_eq names stem names.length 0
  simp only [if_neg hfree] at hloop
  have hname : generatedName names stem = tried stem (Fresh.firstFree names (fun n => asciiLower (tried stem n)) names.length 0) := by
    rw [generatedName]
    exact congrArg (fun found : Option String => found.getD stem) hloop
  rw [hname]
  refine ⟨hfree, ?_⟩
  cases hfound : Fresh.firstFree names (fun n => asciiLower (tried stem n)) names.length 0 with
  | zero => exact .inl rfl
  | succ n =>
      rw [hfound] at hleast
      refine .inr ⟨hleast 0 (Nat.succ_pos n), n + 2, by omega, rfl, fun k hk hlt => ?_⟩
      obtain ⟨k, rfl⟩ : ∃ j, k = j + 2 := ⟨k - 2, by omega⟩
      exact hleast (k + 1) (by omega)

end Suffixes

/-- The names of columns are pairwise distinct without regard to case. -/
def Distinct (fields : List Field) : Prop := (fields.map fun f => asciiLower f.name).Nodup

instance (fields : List Field) : Decidable (Distinct fields) := inferInstanceAs (Decidable (List.Nodup _))

section Publications

variable {columns : List (String × String)} {text : String} {generated : List String} {names names' : Names}
  {fields fields' : List Field} {requested name : String}

/-- The names that are taken are those of the columns so far. -/
structure Tracks (names : Names) (fields : List Field) : Prop where
  known : ∀ x, x ∈ names ↔ ∃ f ∈ fields, asciiLower f.name = x
  distinct : Distinct fields

theorem Tracks.nil : Tracks [] [] := ⟨fun x => by simp, List.nodup_nil⟩

theorem Tracks.push (h : Tracks names fields) {f : Field} (hfree : asciiLower f.name ∉ names) :
    Tracks (asciiLower f.name :: names) (fields ++ [f]) where
  known x := by
    rw [List.mem_cons, h.known]
    constructor
    · rintro (rfl | ⟨g, hg, rfl⟩)
      · exact ⟨f, List.mem_append_right _ (List.mem_singleton_self f), rfl⟩
      · exact ⟨g, List.mem_append_left _ hg, rfl⟩
    · rintro ⟨g, hg, rfl⟩
      rcases List.mem_append.mp hg with hg | hg
      · exact .inr ⟨g, hg, rfl⟩
      · rw [List.mem_singleton.mp hg]
        exact .inl rfl
  distinct := by
    rw [Distinct, List.map_append, List.nodup_append]
    refine ⟨h.distinct, List.nodup_singleton _, ?_⟩
    intro x hx y hy hxy
    obtain ⟨g, hg, rfl⟩ := List.mem_map.mp hx
    rw [List.map_singleton, List.mem_singleton] at hy
    exact hfree ((h.known _).mpr ⟨g, hg, hxy.trans hy⟩)

theorem retainedName_ok (h : retainedName columns text generated requested = .ok name) :
    (columns.find? fun c => eqIgnoreAsciiCase c.1 requested).map Prod.fst = some name ∧
      (eqIgnoreAsciiCase name text = true ∨ ∀ field ∈ generated, eqIgnoreAsciiCase field name = false) := by
  rw [retainedName] at h
  cases hfind : columns.find? fun c => eqIgnoreAsciiCase c.1 requested with
  | none =>
      rw [hfind] at h
      cases h
  | some c =>
      rw [hfind] at h
      obtain ⟨hfree, hname⟩ := guard_eq_ok.mp h
      cases hname
      refine ⟨rfl, ?_⟩
      by_cases htext : eqIgnoreAsciiCase c.1 text = true
      · exact .inl htext
      · refine .inr fun field hfield => ?_
        by_contra hsame
        exact hfree ⟨by simpa using htext, List.any_eq_true.mpr ⟨field, hfield, by simpa using hsame⟩⟩

theorem retainedName_iff : (∃ name, retainedName columns text generated requested = .ok name) ↔
    ∃ name, (columns.find? fun c => eqIgnoreAsciiCase c.1 requested).map Prod.fst = some name ∧
      (eqIgnoreAsciiCase name text = true ∨ ∀ field ∈ generated, eqIgnoreAsciiCase field name = false) := by
  constructor
  · rintro ⟨name, h⟩
    exact ⟨name, retainedName_ok h⟩
  · rintro ⟨name, hfind, hfree⟩
    obtain ⟨c, hc, rfl⟩ := Option.map_eq_some_iff.mp hfind
    refine ⟨c.1, ?_⟩
    rw [retainedName, hc]
    refine guard_eq_ok.mpr ⟨?_, rfl⟩
    rintro ⟨htext, hany⟩
    obtain ⟨field, hfield, hsame⟩ := List.any_eq_true.mp hany
    rcases hfree with h | h
    · exact Bool.false_ne_true (htext.symm.trans h)
    · exact Bool.false_ne_true ((h field hfield).symm.trans hsame)

theorem retainedName_column (h : retainedName columns text generated requested = .ok name) :
    name ∈ columns.map Prod.fst ∧ asciiLower name = asciiLower requested := by
  obtain ⟨c, hc, rfl⟩ := Option.map_eq_some_iff.mp (retainedName_ok h).1
  have hsame := List.find?_some hc
  exact ⟨List.mem_map_of_mem (List.mem_of_find?_eq_some hc), eqIgnoreAsciiCase_iff.mp hsame⟩

theorem retain_tracks (h : Tracks names fields) (name : String) :
    Tracks (retain names fields name).1 (retain names fields name).2 ∧
      asciiLower name ∈ (retain names fields name).1 ∧
      ∃ more, (retain names fields name).2 = fields ++ more ∧ ∀ f ∈ more, f = sourceField name := by
  rw [retain]
  split
  · rename_i htaken
    exact ⟨h, htaken, [], by simp, fun f hf => nomatch hf⟩
  · rename_i hfree
    exact ⟨@Tracks.push _ _ h (sourceField name) hfree, List.mem_cons_self, [sourceField name], rfl,
      fun f hf => List.mem_singleton.mp hf⟩

/-- Source columns are added for what is requested. -/
theorem retainFrom_tracks {requests : List String} (htracks : Tracks names fields)
    (h : retainFrom columns text generated names fields requests = .ok (names', fields')) :
    Tracks names' fields' ∧ (∃ more, fields' = fields ++ more ∧ ∀ f ∈ more, ∃ name ∈ columns.map Prod.fst, f = sourceField name) ∧
      (∀ x ∈ names, x ∈ names') ∧ ∀ r ∈ requests, asciiLower r ∈ names' := by
  induction requests generalizing names fields with
  | nil =>
      cases h
      exact ⟨htracks, ⟨[], by simp, fun f hf => nomatch hf⟩, fun x hx => hx, fun r hr => nomatch hr⟩
  | cons request requests ih =>
      obtain ⟨name, hname, hrest⟩ := bind_eq_ok.mp h
      obtain ⟨hcolumn, hsame⟩ := retainedName_column hname
      obtain ⟨hstep, htaken, added, hadded, hsource⟩ := retain_tracks htracks name
      obtain ⟨htracks', ⟨more, hmore, hsources⟩, hkept, hrequests⟩ := ih hstep hrest
      have hgrows : ∀ x ∈ names, x ∈ (retain names fields name).1 := by
        intro x hx
        obtain ⟨f, hf, hfx⟩ := (htracks.known x).mp hx
        exact (hstep.known x).mpr ⟨f, by rw [hadded]; exact List.mem_append_left _ hf, hfx⟩
      refine ⟨htracks', ⟨added ++ more, by rw [hmore, hadded, List.append_assoc], fun f hf => ?_⟩,
        fun x hx => hkept x (hgrows x hx), fun r hr => ?_⟩
      · rcases List.mem_append.mp hf with hf | hf
        · exact ⟨name, hcolumn, hsource f hf⟩
        · exact hsources f hf
      · rcases List.mem_cons.mp hr with rfl | hr
        · exact hsame ▸ hkept _ htaken
        · exact hrequests r hr

theorem retainFrom_iff {requests : List String} : (∃ r, retainFrom columns text generated names fields requests = .ok r) ↔
    ∀ request ∈ requests, ∃ name, retainedName columns text generated request = .ok name := by
  induction requests generalizing names fields with
  | nil => simp [retainFrom]
  | cons request requests ih =>
      rw [List.forall_mem_cons]
      constructor
      · rintro ⟨r, h⟩
        obtain ⟨name, hname, hrest⟩ := bind_eq_ok.mp h
        exact ⟨⟨name, hname⟩, ih.mp ⟨r, hrest⟩⟩
      · rintro ⟨⟨name, hname⟩, hrest⟩
        obtain ⟨r, hr⟩ := (@ih (retain names fields name).1 (retain names fields name).2).mpr hrest
        exact ⟨r, bind_eq_ok.mpr ⟨name, hname, hr⟩⟩

/-- What the columns of a publication are: the text first, under the name that it has, and each metadata column once. -/
structure Published (columns : List (String × String)) (text : String) (metadata : List String) (fields : List Field) : Prop where
  distinct : Distinct fields
  first : ∃ name ∈ columns.map Prod.fst, asciiLower name = asciiLower text ∧ fields.head? = some (sourceField name)
  ownName : text ∈ columns.map Prod.fst → ((columns.map Prod.fst).map asciiLower).Nodup → fields.head? = some (sourceField text)
  requested : ∀ r ∈ metadata, ∃ name ∈ columns.map Prod.fst,
    (fields.filter fun f => eqIgnoreAsciiCase f.name r) = [sourceField name]

/-- In a list without repetitions a key is found once. -/
theorem filter_of_distinct {f : Field} {r : String} (h : Distinct fields) (hf : f ∈ fields) (hr : asciiLower f.name = asciiLower r) :
    (fields.filter fun f => eqIgnoreAsciiCase f.name r) = [f] := by
  induction fields with
  | nil => cases hf
  | cons g rest ih =>
      obtain ⟨hfresh, hrest⟩ := List.nodup_cons.mp h
      rcases List.mem_cons.mp hf with rfl | hf
      · have hnone : (rest.filter fun f => eqIgnoreAsciiCase f.name r) = [] := by
          rw [List.filter_eq_nil_iff]
          intro g hg hsame
          exact hfresh (List.mem_map.mpr ⟨g, hg, (eqIgnoreAsciiCase_iff.mp hsame).trans hr.symm⟩)
        rw [@List.filter_cons_of_pos _ (fun f => eqIgnoreAsciiCase f.name r) f rest (eqIgnoreAsciiCase_iff.mpr hr), hnone]
      · have hother : ¬eqIgnoreAsciiCase g.name r = true := by
          intro hsame
          exact hfresh (List.mem_map.mpr ⟨f, hf, hr.trans (eqIgnoreAsciiCase_iff.mp hsame).symm⟩)
        rw [@List.filter_cons_of_neg _ (fun f => eqIgnoreAsciiCase f.name r) g rest hother, ih hrest hf]

theorem eq_of_asciiLower {xs : List String} (h : (xs.map asciiLower).Nodup) {a b : String} (ha : a ∈ xs) (hb : b ∈ xs)
    (hab : asciiLower a = asciiLower b) : a = b := List.inj_on_of_nodup_map h ha hb hab

/-- Columns that are added under free names leave what is retained. -/
theorem published_of_tracks {metadata : List String} {more : List Field} {taken : Names}
    (h : publicationFields columns text metadata generated = .ok (names, fields)) (htracks : Tracks taken (fields ++ more)) :
    Published columns text metadata (fields ++ more) := by
  obtain ⟨-, ⟨added, hadded, hsources⟩, -, hrequests⟩ := retainFrom_tracks Tracks.nil h
  rw [List.nil_append] at hadded
  subst hadded
  obtain ⟨name, hname, hrest⟩ := bind_eq_ok.mp h
  obtain ⟨hcolumn, hsame⟩ := retainedName_column hname
  have hfirst : (fields ++ more).head? = some (sourceField name) := by
    have hstart : retain [] [] name = ([asciiLower name], [sourceField name]) := rfl
    rw [hstart] at hrest
    have htracks : Tracks [asciiLower name] [sourceField name] := @Tracks.push [] [] Tracks.nil (sourceField name) (List.not_mem_nil)
    obtain ⟨-, ⟨rest, hrest, -⟩, -⟩ := retainFrom_tracks htracks hrest
    rw [hrest]
    rfl
  refine ⟨htracks.distinct, ⟨name, hcolumn, hsame, hfirst⟩, fun htext hnodup => ?_, fun r hr => ?_⟩
  · rw [hfirst, eq_of_asciiLower hnodup hcolumn htext hsame]
  · have htaken := hrequests r (List.mem_cons_of_mem _ hr)
    obtain ⟨htracks', -⟩ := retainFrom_tracks Tracks.nil h
    obtain ⟨f, hf, hfr⟩ := (htracks'.known _).mp htaken
    obtain ⟨source, hsource, rfl⟩ := hsources f hf
    exact ⟨source, hsource, filter_of_distinct htracks.distinct (List.mem_append_left _ hf) hfr⟩

theorem concordanceMatches_tracks {selected requests : List String} {out : List Field} (htracks : Tracks names fields)
    (h : concordanceMatches names fields selected requests = .ok out) : ∃ taken more, out = fields ++ more ∧ Tracks taken out := by
  induction requests generalizing names fields selected with
  | nil =>
      cases h
      exact ⟨names, [], by simp, htracks⟩
  | cons request requests ih =>
      rw [concordanceMatches] at h
      obtain ⟨-, h⟩ := guard_eq_ok.mp h
      obtain ⟨stem, -, h⟩ := bind_eq_ok.mp h
      have hfree := (generatedName_smallest names stem).1
      obtain ⟨taken, more, rfl, htaken⟩ := ih (@Tracks.push _ _ htracks ⟨quote request, generatedName names stem⟩ hfree) h
      exact ⟨taken, _ :: more, by rw [List.append_assoc]; rfl, htaken⟩

theorem quotationMatches_tracks {requests : List String} {out : List Field} (htracks : Tracks names fields)
    (h : quotationMatches names fields requests = .ok out) : ∃ taken more, out = fields ++ more ∧ Tracks taken out := by
  induction requests generalizing names fields with
  | nil =>
      cases h
      exact ⟨names, [], by simp, htracks⟩
  | cons request requests ih =>
      rw [quotationMatches] at h
      split at h
      · have hfree := (generatedName_smallest names ("QUOTE_" ++ request)).1
        obtain ⟨taken, more, rfl, htaken⟩ :=
          ih (@Tracks.push _ _ htracks ⟨quote request, generatedName names ("QUOTE_" ++ request)⟩ hfree) h
        exact ⟨taken, _ :: more, by rw [List.append_assoc]; rfl, htaken⟩
      · cases h

variable {metadata requests : List String} {projection : Projection} {out : List Field}

theorem concordance_published (h : concordanceColumns columns text projection metadata requests = .ok out) :
    Published columns text metadata out := by
  obtain ⟨⟨names, fields⟩, hretained, h⟩ := bind_eq_ok.mp h
  obtain ⟨htracks, -⟩ := retainFrom_tracks Tracks.nil hretained
  cases projection with
  | documents =>
      cases h
      have hfree := (generatedName_smallest names "CONC_extraction").1
      exact published_of_tracks hretained (htracks.push hfree)
  | «matches» =>
      obtain ⟨taken, more, rfl, htaken⟩ := concordanceMatches_tracks htracks h
      exact published_of_tracks hretained htaken

theorem quotation_published (h : quotationColumns columns text projection metadata requests = .ok out) :
    Published columns text metadata out := by
  obtain ⟨⟨names, fields⟩, hretained, h⟩ := bind_eq_ok.mp h
  obtain ⟨htracks, -⟩ := retainFrom_tracks Tracks.nil hretained
  cases projection with
  | documents =>
      cases h
      have hfree := (generatedName_smallest names "QUOTE_extraction").1
      exact published_of_tracks hretained (htracks.push hfree)
  | «matches» =>
      obtain ⟨taken, more, rfl, htaken⟩ := quotationMatches_tracks htracks h
      exact published_of_tracks hretained htaken

end Publications

section Downloads

variable {schema : Schema} {document : ResultColumn} {hasDocument : Bool} {names : Names} {seen columns : List ResultColumn}
  {selected out : List Field}

/-- The names that the columns keep. -/
def keptNames (document : ResultColumn) (columns : List ResultColumn) : Names :=
  (columns.filter (keepsName document)).map fun column => asciiLower column.column

theorem keptNames_cons_of_keeps {column : ResultColumn} (h : keepsName document column = true) (columns : List ResultColumn) :
    keptNames document (column :: columns) = asciiLower column.column :: keptNames document columns := by
  rw [keptNames, List.filter_cons_of_pos h, List.map_cons, keptNames]

theorem keptNames_cons_of_generated {column : ResultColumn} (h : ¬keepsName document column = true) (columns : List ResultColumn) :
    keptNames document (column :: columns) = keptNames document columns := by
  rw [keptNames, List.filter_cons_of_neg h, keptNames]

/-- What the loop adds for the columns that are left. The names that it makes up are none of the kept ones. -/
structure Adds (document : ResultColumn) (names : Names) (columns : List ResultColumn) (added : List Field) : Prop where
  named : List.Forall₂ (fun column f => keepsName document column = true → f.name = column.column) columns added
  taken : ∀ f ∈ added, asciiLower f.name ∈ names → asciiLower f.name ∈ keptNames document columns
  distinct : Distinct added ↔ (keptNames document columns).Nodup

theorem Adds.keeps {added : List Field} (h : Adds document names columns added) {x : List Char}
    (hx : x ∈ keptNames document columns) : ∃ f ∈ added, asciiLower f.name = x := by
  obtain ⟨column, hcolumn, rfl⟩ := List.mem_map.mp hx
  obtain ⟨hmem, hkeeps⟩ := List.mem_filter.mp hcolumn
  obtain ⟨f, hf, hname⟩ := forall₂_mem_left h.named hmem
  exact ⟨f, hf, congrArg asciiLower (hname hkeeps)⟩

theorem Adds.keep {column : ResultColumn} {added : List Field} {expression : List Char} (hkeeps : keepsName document column = true)
    (hknown : asciiLower column.column ∈ names) (h : Adds document names columns added) :
    Adds document names (column :: columns) (⟨expression, column.column⟩ :: added) where
  named := .cons (fun _ => rfl) h.named
  taken f hf hname := by
    rw [keptNames_cons_of_keeps hkeeps]
    rcases List.mem_cons.mp hf with rfl | hf
    · exact List.mem_cons_self
    · exact List.mem_cons_of_mem _ (h.taken f hf hname)
  distinct := by
    have hsame : asciiLower column.column ∈ added.map (fun f => asciiLower f.name) ↔
        asciiLower column.column ∈ keptNames document columns := by
      constructor
      · intro hmem
        obtain ⟨f, hf, hname⟩ := List.mem_map.mp hmem
        rw [← hname]
        exact h.taken f hf (by rw [hname]; exact hknown)
      · intro hmem
        obtain ⟨f, hf, hname⟩ := h.keeps hmem
        exact List.mem_map.mpr ⟨f, hf, hname⟩
    rw [keptNames_cons_of_keeps hkeeps, Distinct, List.map_cons, List.nodup_cons, List.nodup_cons, hsame, ← h.distinct, Distinct]

theorem Adds.generate {column : ResultColumn} {added : List Field} {f : Field} (hgenerated : ¬keepsName document column = true)
    (hfree : asciiLower f.name ∉ names) (hknown : ∀ x ∈ keptNames document columns, x ∈ names)
    (h : Adds document (asciiLower f.name :: names) columns added) : Adds document names (column :: columns) (f :: added) where
  named := .cons (fun hkeeps => absurd hkeeps hgenerated) h.named
  taken g hg hname := by
    rw [keptNames_cons_of_generated hgenerated]
    rcases List.mem_cons.mp hg with rfl | hg
    · exact absurd hname hfree
    · exact h.taken g hg (List.mem_cons_of_mem _ hname)
  distinct := by
    have hfresh : asciiLower f.name ∉ added.map fun g => asciiLower g.name := by
      intro hmem
      obtain ⟨g, hg, hname⟩ := List.mem_map.mp hmem
      have hkept := h.taken g hg (by rw [hname]; exact List.mem_cons_self)
      rw [hname] at hkept
      exact hfree (hknown _ hkept)
    rw [keptNames_cons_of_generated hgenerated, Distinct, List.map_cons, List.nodup_cons, ← h.distinct, Distinct]
    exact and_iff_right hfresh

theorem selectFrom_adds (hknown : ∀ x ∈ keptNames document columns, x ∈ names)
    (h : selectFrom schema document hasDocument names seen selected columns = .ok out) :
    ∃ added, out = selected ++ added ∧ Adds document names columns added := by
  induction columns generalizing names seen selected with
  | nil =>
      cases h
      refine ⟨[], by simp, ⟨.nil, (fun f hf => nomatch hf), ?_⟩⟩
      exact iff_of_true List.nodup_nil List.nodup_nil
  | cons column columns ih =>
      rw [selectFrom] at h
      obtain ⟨-, h⟩ := guard_eq_ok.mp h
      obtain ⟨expression, -, h⟩ := bind_eq_ok.mp h
      by_cases hkeeps : keepsName document column = true
      · rw [if_pos hkeeps] at h
        rw [keptNames_cons_of_keeps hkeeps, List.forall_mem_cons] at hknown
        obtain ⟨added, rfl, hadded⟩ := ih hknown.2 h
        exact ⟨_ :: added, by rw [List.append_assoc]; rfl, hadded.keep hkeeps hknown.1⟩
      · rw [if_neg hkeeps] at h
        rw [keptNames_cons_of_generated hkeeps] at hknown
        have hfree := (generatedName_smallest names column.column).1
        obtain ⟨added, rfl, hadded⟩ := ih (fun x hx => List.mem_cons_of_mem _ (hknown x hx)) h
        exact ⟨_ :: added, by rw [List.append_assoc]; rfl, @Adds.generate _ _ _ _ _ ⟨_, _⟩ hkeeps hfree hknown hadded⟩

theorem download_adds (h : downloadColumns schema document columns = .ok out) :
    Adds document (keptNames document columns) columns out := by
  rw [downloadColumns] at h
  obtain ⟨-, h⟩ := guard_eq_ok.mp h
  obtain ⟨added, rfl, hadded⟩ := selectFrom_adds (fun x hx => hx) h
  exact hadded

end Downloads

/-- The columns of a publication are always distinct, and those of a download exactly when the names that are kept are:
the names of the metadata columns, and of the document where it is not one of them. -/
theorem outputs_distinct_iff (columns : List (String × String)) (text : String) (metadata requests generated : List String)
    (projection : Projection) (names : Names) (stem : String) (schema : Schema) (document : ResultColumn)
    (requested : List ResultColumn) :
    (∀ out, concordanceColumns columns text projection metadata requests = .ok out → Published columns text metadata out) ∧
    (∀ out, quotationColumns columns text projection metadata requests = .ok out → Published columns text metadata out) ∧
    ((∃ r, publicationFields columns text metadata generated = .ok r) ↔
      ∀ request ∈ text :: metadata, ∃ name,
        (columns.find? fun c => eqIgnoreAsciiCase c.1 request).map Prod.fst = some name ∧
          (eqIgnoreAsciiCase name text = true ∨ ∀ field ∈ generated, eqIgnoreAsciiCase field name = false)) ∧
    (Smallest names stem (generatedName names stem) ∧
      ∀ rounds > names.length, nextName names stem rounds stem 2 = some (generatedName names stem)) ∧
    ∀ out, downloadColumns schema document requested = .ok out →
      List.Forall₂ (fun column f => keepsName document column = true → f.name = column.column) requested out ∧
        (Distinct out ↔ (keptNames document requested).Nodup) := by
  refine ⟨fun _ h => concordance_published h, fun _ h => quotation_published h, ?_,
    ⟨generatedName_smallest names stem, fun _ h => nextName_ends h⟩, fun _ h => ?_⟩
  · rw [publicationFields, retainFrom_iff]
    exact forall₂_congr fun _ _ => retainedName_iff
  · exact ⟨(download_adds h).named, (download_adds h).distinct⟩

section Examples

/-- A source with a column that is named as a suffixed quotation field. -/
def quoteColumns : List (String × String) := [("QUOTE_quote", "VARCHAR"), ("QUOTE_quote_2", "VARCHAR")]

theorem quote_takes_third_name :
    quotationColumns quoteColumns "QUOTE_quote" .matches ["quote_quote_2"] ["quote"] =
      .ok [sourceField "QUOTE_quote", sourceField "QUOTE_quote_2", ⟨quote "quote", "QUOTE_quote_3"⟩] ∧
    Published quoteColumns "QUOTE_quote" ["quote_quote_2"]
      [sourceField "QUOTE_quote", sourceField "QUOTE_quote_2", ⟨quote "quote", "QUOTE_quote_3"⟩] := by
  have hrun : quotationColumns quoteColumns "QUOTE_quote" .matches ["quote_quote_2"] ["quote"] =
      .ok [sourceField "QUOTE_quote", sourceField "QUOTE_quote_2", ⟨quote "quote", "QUOTE_quote_3"⟩] := rfl
  exact ⟨hrun, (outputs_distinct_iff _ _ _ _ [] _ [] "" ⟨[], fun _ => ""⟩ ⟨"", false⟩ []).2.1 _ hrun⟩

/-- Rows with a document column, and a source that has a column of that name. -/
def textRows : Schema := ⟨[("text", .other), ("source", .struct ["text"])], fun _ => ""⟩

theorem text_appears_twice : ∃ out,
    downloadColumns textRows ⟨"text", false⟩ [⟨"text", true⟩, ⟨"text", false⟩] = .ok out ∧ ¬Distinct out :=
  ⟨[⟨"source.\"text\"".toList, "text"⟩, ⟨"\"text\"".toList, "text"⟩], rfl, by decide⟩

end Examples

end Wordflow.Results
