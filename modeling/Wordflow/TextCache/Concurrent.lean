import Mathlib.Data.List.Nodup
import Wordflow.Library.Fallible
import Wordflow.TextCache.Cache

namespace Wordflow.TextCache

open Library.Run Library.Fallible

variable {Scope Value : Type} {hashText : String → String} {f : Scope → String → Value}

section Misses

/-- The distinct texts that a map has no value for, in the order of their first
occurrences. -/
def missingTexts (hashText : String → String) (cached : String → Option Value) (texts : List String) : List String :=
  (texts.filter fun text => (cached (hashText text)).isNone).eraseDups

theorem uniqueMissesFrom_eq (hinjective : Function.Injective hashText) (cached : String → Option Value)
    (texts seen : List String) :
    uniqueMissesFrom cached (seen.map hashText) (texts.map fun text => (hashText text, text)) =
      (missingTexts hashText cached (texts.filter fun text => text ∉ seen)).map fun text => (hashText text, text) := by
  induction texts generalizing seen with
  | nil => rfl
  | cons text rest ih =>
      have hseen : hashText text ∈ seen.map hashText ↔ text ∈ seen := List.mem_map_of_injective hinjective
      rw [List.map_cons, uniqueMissesFrom]
      split
      · rename_i h
        obtain ⟨hnone, hfresh⟩ := h
        rw [hseen] at hfresh
        have hrest := ih (text :: seen)
        rw [List.map_cons] at hrest
        rw [hrest, missingTexts, missingTexts, List.filter_cons_of_pos (by simpa using hfresh),
          List.filter_cons_of_pos (by simpa using hnone), List.eraseDups_cons, List.map_cons, List.filter_filter,
          List.filter_filter, List.filter_filter]
        congr 3
        apply List.filter_congr
        intro other _
        by_cases heq : other = text
        · simp [heq]
        · simp [heq, beq_eq_false_iff_ne.mpr heq]
      · rename_i h
        rw [ih seen]
        by_cases hfresh : text ∈ seen
        · rw [List.filter_cons_of_neg (by simpa using hfresh)]
        · have hnone : ¬(cached (hashText text)).isNone := fun hnone => h ⟨hnone, hseen.not.mpr hfresh⟩
          rw [List.filter_cons_of_pos (by simpa using hfresh), missingTexts, missingTexts,
            List.filter_cons_of_neg (by simpa using hnone)]

theorem uniqueMisses_eq (hinjective : Function.Injective hashText) (cached : String → Option Value)
    (texts : List String) :
    uniqueMisses texts (texts.map hashText) cached =
      (missingTexts hashText cached texts).map fun text => (hashText text, text) := by
  have hzip : (texts.map hashText).zip texts = texts.map fun text => (hashText text, text) := by
    simpa using @List.zip_map' _ _ _ hashText id texts
  have h := uniqueMissesFrom_eq hinjective cached texts []
  rw [List.map_nil] at h
  rw [uniqueMisses, hzip, h]
  simp

theorem mem_missingTexts {cached : String → Option Value} {texts : List String} {text : String} :
    text ∈ missingTexts hashText cached texts ↔ text ∈ texts ∧ (cached (hashText text)).isNone := by
  rw [missingTexts, List.mem_eraseDups, List.mem_filter]

end Misses

/-- Every value of a map belongs to the text whose hash it is stored under. -/
def Sound (hashText : String → String) (f : Scope → String → Value) (scope : Scope) (cached : String → Option Value) :
    Prop :=
  ∀ hash value, cached hash = some value → ∃ text, hash = hashText text ∧ value = f scope text

section Table

variable {scope : Scope} {file : File Scope Value}

theorem Sound.value {cached : String → Option Value} (hinjective : Function.Injective hashText)
    (h : Sound hashText f scope cached) {text : String} {value : Value} (hvalue : cached (hashText text) = some value) :
    value = f scope text := by
  obtain ⟨other, hhash, rfl⟩ := h _ _ hvalue
  rw [hinjective hhash]

@[simp] theorem openCache_rows (file : File Scope Value) : (openCache file).rows = file.rows := rfl

theorem sound_fetchCached (h : Sound hashText f scope (file.rows scope)) (hashes : List String) :
    Sound hashText f scope (fetchCached file scope hashes) := by
  intro hash value hvalue
  obtain ⟨-, hrow⟩ := Option.ite_none_right_eq_some.mp hvalue
  exact h hash value hrow

variable [DecidableEq Scope]

theorem sound_insertOrIgnore {rows : Scope → String → Option Value} (h : ∀ s, Sound hashText f s (rows s))
    {entry : String × Value} {text : String} (hentry : entry = (hashText text, f scope text)) (s : Scope) :
    Sound hashText f s (insertOrIgnore rows scope entry s) := by
  intro hash value hvalue
  simp only [insertOrIgnore] at hvalue
  split at hvalue
  · rename_i hkey
    obtain ⟨rfl, rfl⟩ := hkey
    cases hrow : rows s entry.1 with
    | none =>
        rw [hrow] at hvalue
        rw [hentry] at hvalue ⊢
        exact ⟨text, rfl, (Option.some.inj hvalue).symm⟩
    | some other =>
        rw [hrow] at hvalue
        exact h s _ _ (hrow.trans hvalue)
  · exact h s hash value hvalue

theorem sound_persistNew (h : ∀ s, Sound hashText f s (file.rows s)) (texts : List String) (s : Scope) :
    Sound hashText f s ((persistNew file scope (texts.map fun text => (hashText text, f scope text))).rows s) := by
  change Sound hashText f s (List.foldl (fun rows entry => insertOrIgnore rows scope entry) file.rows _ s)
  generalize file.rows = rows at h
  induction texts generalizing rows with
  | nil => exact h s
  | cons text rest ih => exact ih _ (sound_insertOrIgnore h rfl)

end Table

section Collect

variable {scope : Scope} {cached : String → Option Value} {texts : List String}

theorem sound_insertAll (h : Sound hashText f scope cached) (missing : List String) :
    Sound hashText f scope (insertAll cached (missing.map fun text => (hashText text, f scope text))) := by
  simp only [insertAll]
  induction missing generalizing cached with
  | nil => exact h
  | cons text rest ih =>
      refine ih fun hash value hvalue => ?_
      beta_reduce at hvalue
      by_cases heq : hash = hashText text
      · subst heq
        rw [Function.update_self] at hvalue
        exact ⟨text, rfl, (Option.some.inj hvalue).symm⟩
      · rw [Function.update_of_ne heq] at hvalue
        exact h hash value hvalue

theorem insertAll_isSome {entries : List (String × Value)} {hash : String}
    (h : (cached hash).isSome ∨ hash ∈ entries.map Prod.fst) : (insertAll cached entries hash).isSome := by
  simp only [insertAll]
  induction entries generalizing cached with
  | nil => simpa using h
  | cons entry rest ih =>
      apply ih
      beta_reduce
      by_cases heq : hash = entry.1
      · subst heq
        rw [Function.update_self]
        exact .inl rfl
      · rw [Function.update_of_ne heq]
        exact h.imp_right fun hmem => (List.mem_cons.mp hmem).resolve_left heq

/-- With a value for every text, the result is the value of each in its place. -/
theorem collect_eq (hinjective : Function.Injective hashText) (h : Sound hashText f scope cached)
    (hall : ∀ text ∈ texts, (cached (hashText text)).isSome) :
    collect hashText cached texts = .ok (texts.map (f scope)) := by
  rw [collect, mapM_eq_ok, List.forall₂_map_left_iff, List.forall₂_map_right_iff, List.forall₂_same]
  intro text htext
  obtain ⟨value, hvalue⟩ := Option.isSome_iff_exists.mp (hall text htext)
  rw [hvalue, h.value hinjective hvalue]

end Collect

/-- What holds of a call in each of its phases. -/
def CallSound (hashText : String → String) (f : Scope → String → Value) (c : Call Scope Value) : Prop :=
  match c.phase with
  | .waiting | .leased | .finished (.error _) => True
  | .missing cached misses =>
      Sound hashText f c.scope cached ∧
        misses = (missingTexts hashText cached c.texts).map fun text => (hashText text, text)
  | .computed cached entries =>
      Sound hashText f c.scope cached ∧
        entries = (missingTexts hashText cached c.texts).map fun text => (hashText text, f c.scope text)
  | .collecting cached => Sound hashText f c.scope cached ∧ ∀ text ∈ c.texts, (cached (hashText text)).isSome
  | .finished (.ok values) => values = c.texts.map (f c.scope)

structure Invariant (hashText : String → String) (f : Scope → String → Value) (s : Cache Scope Value) : Prop where
  distinct : (s.calls.map Call.id).Nodup
  stored : ∀ scope, Sound hashText f scope (s.file.rows scope)
  sound : ∀ c ∈ s.calls, CallSound hashText f c
  exclusive : ∀ m ∈ s.maintenances, m.exclusive = true → ∀ c ∈ s.calls, c.phase.holdsLease = false

/-- No call is running, and what is stored was stored by calls. -/
structure Initial (hashText : String → String) (f : Scope → String → Value) (s : Cache Scope Value) : Prop where
  stored : ∀ scope, Sound hashText f scope (s.file.rows scope)
  calls : s.calls = []
  maintenances : s.maintenances = []

theorem Initial.invariant {s : Cache Scope Value} (h : Initial hashText f s) : Invariant hashText f s := by
  refine ⟨?_, h.stored, ?_, ?_⟩
  · rw [h.calls]
    exact List.nodup_nil
  · rw [h.calls]
    exact List.forall_mem_nil _
  · rw [h.maintenances]
    exact List.forall_mem_nil _

def rank : Phase Value → Nat
  | .waiting => 0
  | .leased => 1
  | .missing _ _ => 2
  | .computed _ _ => 3
  | .collecting _ => 4
  | .finished _ => 5

/-- How a call goes on: its phase stays or becomes a later one. -/
structure Next (c d : Call Scope Value) : Prop where
  id : d.id = c.id
  scope : d.scope = c.scope
  texts : d.texts = c.texts
  phase : d.phase = c.phase ∨ rank c.phase < rank d.phase

theorem Next.refl (c : Call Scope Value) : Next c c := ⟨rfl, rfl, rfl, .inl rfl⟩

theorem Next.trans {c d e : Call Scope Value} (hcd : Next c d) (hde : Next d e) : Next c e where
  id := hde.id.trans hcd.id
  scope := hde.scope.trans hcd.scope
  texts := hde.texts.trans hcd.texts
  phase := by
    rcases hcd.phase with hc | hc
    · rw [← hc]
      exact hde.phase
    · rcases hde.phase with hd | hd
      · rw [hd]
        exact .inr hc
      · exact .inr (Nat.lt_trans hc hd)

/-- Every call goes on. -/
def Later (s t : Cache Scope Value) : Prop := ∀ c ∈ s.calls, ∃ d ∈ t.calls, Next c d

theorem Later.refl (s : Cache Scope Value) : Later s s := fun c hc => ⟨c, hc, .refl c⟩

theorem Later.trans {s t u : Cache Scope Value} (hst : Later s t) (htu : Later t u) : Later s u := by
  intro c hc
  obtain ⟨d, hd, hcd⟩ := hst c hc
  obtain ⟨e, he, hde⟩ := htu d hd
  exact ⟨e, he, hcd.trans hde⟩

section Step

variable {s t : Cache Scope Value} {id : Id} {c : Call Scope Value}

theorem findCall_some (h : findCall s id = some c) : c ∈ s.calls ∧ c.id = id :=
  ⟨List.mem_of_find?_eq_some h, by simpa using List.find?_some h⟩

theorem Invariant.found (hs : Invariant hashText f s) (h : findCall s id = some c) {d : Call Scope Value}
    (hd : d ∈ s.calls) (hid : d.id = id) : d = c := by
  obtain ⟨hc, hcid⟩ := findCall_some h
  exact List.inj_on_of_nodup_map hs.distinct hd hc (hid.trans hcid.symm)

theorem Invariant.findCall_eq (hs : Invariant hashText f s) (hc : c ∈ s.calls) (hid : c.id = id) :
    findCall s id = some c := by
  cases hfind : findCall s id with
  | none => simpa [hid] using List.find?_eq_none.mp hfind c hc
  | some d => rw [hs.found hfind hc hid]

/-- A step that moves one call to a later phase, and may change the file. -/
theorem Invariant.setPhase (hs : Invariant hashText f s) (hfind : findCall s id = some c) {file : File Scope Value}
    {phase : Phase Value} (hfile : ∀ scope, Sound hashText f scope (file.rows scope))
    (hphase : CallSound hashText f { c with phase := phase }) (hrank : rank c.phase < rank phase)
    (hlease : phase.holdsLease = true → c.phase.holdsLease = true ∨ ∀ m ∈ s.maintenances, m.exclusive = false) :
    Invariant hashText f (setPhase { s with file := file } id phase) ∧
      Later s (setPhase { s with file := file } id phase) := by
  have hmem : ∀ d ∈ (TextCache.setPhase { s with file := file } id phase).calls,
      d = { c with phase := phase } ∨ d ∈ s.calls := by
    intro d hd
    obtain ⟨e, he, rfl⟩ := List.mem_map.mp hd
    split
    · rename_i hid
      rw [hs.found hfind he hid]
      exact .inl rfl
    · exact .inr he
  refine ⟨⟨?_, hfile, fun d hd => ?_, fun m hm hexclusive d hd => ?_⟩, fun d hd => ?_⟩
  · have hids : (TextCache.setPhase { s with file := file } id phase).calls.map Call.id = s.calls.map Call.id := by
      rw [TextCache.setPhase, List.map_map]
      apply List.map_congr_left
      intro e _
      simp only [Function.comp_apply]
      split <;> rfl
    rw [hids]
    exact hs.distinct
  · rcases hmem d hd with rfl | hd
    · exact hphase
    · exact hs.sound d hd
  · rcases hmem d hd with rfl | hd
    · have hc := hs.exclusive m hm hexclusive c (findCall_some hfind).1
      refine Bool.eq_false_iff.mpr fun hholds => ?_
      rcases hlease hholds with h | h
      · rw [hc] at h
        cases h
      · rw [h m hm] at hexclusive
        cases hexclusive
    · exact hs.exclusive m hm hexclusive d hd
  · refine ⟨_, List.mem_map_of_mem hd, ?_⟩
    split
    · rename_i hid
      obtain rfl := hs.found hfind hd hid
      exact ⟨rfl, rfl, rfl, .inr hrank⟩
    · exact .refl d

theorem callSound_fetch [DecidableEq Scope] (hinjective : Function.Injective hashText) {file : File Scope Value}
    (hfile : ∀ scope, Sound hashText f scope (file.rows scope)) :
    CallSound hashText f { c with phase := (fetch hashText file c.scope c.texts).2 } := by
  have hcached : Sound hashText f c.scope (fetchCached (openCache file) c.scope (c.texts.map hashText)) :=
    sound_fetchCached (hfile c.scope) _
  simp only [fetch]
  split
  · rename_i hempty
    rw [CallSound, hempty]
    rfl
  · rw [uniqueMisses_eq hinjective]
    split
    · rename_i hnone
      refine ⟨hcached, fun text htext => ?_⟩
      have hmiss : text ∉ missingTexts hashText (fetchCached (openCache file) c.scope (c.texts.map hashText)) c.texts := by
        rw [List.map_eq_nil_iff.mp hnone]
        exact List.not_mem_nil
      rw [mem_missingTexts] at hmiss
      simpa [htext, Option.isSome_iff_ne_none] using hmiss
    · exact ⟨hcached, rfl⟩

theorem callSound_encoded [DecidableEq Value] {cached : String → Option Value} {misses : List (String × String)}
    {outcome : Except String (List Value)} (hc : CallSound hashText f { c with phase := .missing cached misses })
    (hanswers : answers f c.scope (misses.map Prod.snd) outcome = true) :
    CallSound hashText f { c with phase := encoded cached misses outcome } := by
  obtain ⟨hcached, hmisses⟩ := hc
  cases outcome with
  | error e => trivial
  | ok values =>
      simp only [encoded]
      split
      · trivial
      · rename_i hlength
        simp only [answers, List.length_map, Bool.or_eq_true, decide_eq_true_eq] at hanswers
        rw [hanswers.resolve_left hlength]
        refine ⟨hcached, ?_⟩
        rw [List.map_map, hmisses, List.map_map, List.map_map, List.zip_map']
        rfl

theorem callSound_persist {cached : String → Option Value} {entries : List (String × Value)}
    (hc : CallSound hashText f { c with phase := .computed cached entries }) :
    CallSound hashText f { c with phase := .collecting (insertAll cached entries) } := by
  obtain ⟨hcached, hentries⟩ := hc
  change entries = (missingTexts hashText cached c.texts).map fun text => (hashText text, f c.scope text) at hentries
  subst hentries
  refine ⟨sound_insertAll hcached _, fun text htext => insertAll_isSome ?_⟩
  cases hvalue : cached (hashText text) with
  | some value => exact .inl rfl
  | none =>
      have hmiss : text ∈ missingTexts hashText cached c.texts :=
        mem_missingTexts.mpr ⟨htext, by rw [hvalue]; rfl⟩
      rw [List.map_map]
      exact .inr (List.mem_map.mpr ⟨text, hmiss, rfl⟩)

theorem callSound_collect (hinjective : Function.Injective hashText) {cached : String → Option Value}
    (hc : CallSound hashText f { c with phase := .collecting cached }) :
    CallSound hashText f { c with phase := .finished (collect hashText cached c.texts) } := by
  rw [collect_eq hinjective hc.1 hc.2]
  rfl

/-- A step of `clear` leaves the calls alone. -/
theorem Invariant.maintain (hs : Invariant hashText f s) {maintenances : List Maintenance}
    (h : ∀ m ∈ maintenances, m.exclusive = true → ∀ c ∈ s.calls, c.phase.holdsLease = false) :
    Invariant hashText f { s with maintenances := maintenances } ∧ Later s { s with maintenances := maintenances } :=
  ⟨⟨hs.distinct, hs.stored, hs.sound, h⟩, .refl s⟩

theorem fetch_rows [DecidableEq Scope] (file : File Scope Value) (scope : Scope) (texts : List String) :
    (fetch hashText file scope texts).1.rows = file.rows := by
  simp only [fetch]
  split <;> rfl

theorem rank_fetch [DecidableEq Scope] (file : File Scope Value) (scope : Scope) (texts : List String) :
    1 < rank (fetch hashText file scope texts).2 := by
  simp only [fetch]
  split
  · simp [rank]
  · split <;> simp [rank]

theorem rank_encoded (cached : String → Option Value) (misses : List (String × String))
    (outcome : Except String (List Value)) : 2 < rank (encoded cached misses outcome) := by
  cases outcome with
  | error e => simp [encoded, rank]
  | ok values =>
      simp only [encoded]
      split <;> simp [rank]

theorem fetch_missing [DecidableEq Scope] {file : File Scope Value} {scope : Scope} {texts : List String}
    {cached : String → Option Value} {misses : List (String × String)}
    (h : (fetch hashText file scope texts).2 = .missing cached misses) :
    missingTexts hashText cached texts = missingTexts hashText (file.rows scope) texts := by
  simp only [fetch] at h
  split at h
  · cases h
  split at h
  · cases h
  obtain ⟨rfl, -⟩ := Phase.missing.inj h
  rw [missingTexts, missingTexts]
  congr 1
  apply List.filter_congr
  intro text htext
  rw [fetchCached, if_pos (List.mem_map_of_mem htext), openCache_rows]

variable [DecidableEq Scope] [DecidableEq Value]

/-- Every step keeps the invariant, and no call goes back. -/
theorem step_spec (hinjective : Function.Injective hashText) (hs : Invariant hashText f s) {e : Event Scope Value}
    (h : step hashText f s e = some t) : Invariant hashText f t ∧ Later s t := by
  cases e with
  | getOrInsert id process scope texts =>
      obtain ⟨⟨hfresh, -⟩, h⟩ := Option.ite_none_right_eq_some.mp h
      obtain rfl := Option.some.inj h
      refine ⟨⟨?_, hs.stored, fun c hc => ?_, fun m hm hexclusive c hc => ?_⟩, fun c hc => ?_⟩
      · rw [List.map_append, List.nodup_append]
        refine ⟨hs.distinct, List.nodup_singleton _, ?_⟩
        rintro id₁ hid₁ id₂ hid₂ rfl
        obtain rfl := List.mem_singleton.mp hid₂
        obtain ⟨c, hc, hid⟩ := List.mem_map.mp hid₁
        rw [hs.findCall_eq hc hid] at hfresh
        cases hfresh
      · rcases List.mem_append.mp hc with hc | hc
        · exact hs.sound c hc
        · obtain rfl := List.mem_singleton.mp hc
          trivial
      · rcases List.mem_append.mp hc with hc | hc
        · exact hs.exclusive m hm hexclusive c hc
        · obtain rfl := List.mem_singleton.mp hc
          rfl
      · exact ⟨c, List.mem_append_left _ hc, .refl c⟩
  | lease id =>
      simp only [step] at h
      split at h
      · rename_i hfind
        split at h
        · cases h
        · rename_i hfree
          obtain rfl := Option.some.inj h
          refine hs.setPhase hfind hs.stored trivial Nat.zero_lt_one fun _ => .inr fun m hm => ?_
          exact Bool.eq_false_iff.mpr fun hm' => hfree (List.any_eq_true.mpr ⟨m, hm, hm'⟩)
      · cases h
  | fetch id =>
      simp only [step] at h
      split at h
      · rename_i cid process scope texts hfind
        obtain rfl := Option.some.inj h
        refine hs.setPhase hfind (fun scope => ?_) ?_ (rank_fetch s.file scope texts) fun _ => .inl rfl
        · rw [fetch_rows]
          exact hs.stored scope
        · exact @callSound_fetch _ _ _ _ ⟨cid, process, scope, texts, .leased⟩ _ hinjective _ hs.stored
      · cases h
  | encode id passed outcome =>
      simp only [step] at h
      split at h
      · rename_i hfind
        obtain ⟨⟨hpassed, hanswers⟩, h⟩ := Option.ite_none_right_eq_some.mp h
        obtain rfl := Option.some.inj h
        rw [hpassed] at hanswers
        exact hs.setPhase hfind hs.stored (callSound_encoded (hs.sound _ (findCall_some hfind).1) hanswers)
          (rank_encoded _ _ outcome) fun _ => .inl rfl
      · cases h
  | persist id =>
      simp only [step] at h
      split at h
      · rename_i hfind
        obtain rfl := Option.some.inj h
        have hc := hs.sound _ (findCall_some hfind).1
        refine hs.setPhase hfind ?_ (callSound_persist hc) (Nat.lt_succ_self 3) fun _ => .inl rfl
        obtain ⟨-, hentries⟩ := hc
        rw [hentries]
        exact sound_persistNew hs.stored _
      · cases h
  | collect id =>
      simp only [step] at h
      split at h
      · rename_i hfind
        obtain rfl := Option.some.inj h
        exact hs.setPhase hfind hs.stored (callSound_collect hinjective (hs.sound _ (findCall_some hfind).1))
          (Nat.lt_succ_self 4) fun hholds => by cases hholds
      · cases h
  | fault id opened message =>
      simp only [step] at h
      split at h
      · rename_i c hfind
        split at h
        · cases h
        · rename_i hopen
          obtain rfl := Option.some.inj h
          refine hs.setPhase hfind ?_ trivial ?_ fun hholds => by cases hholds
          · split
            · exact hs.stored
            · exact hs.stored
          · cases hphase : c.phase with
            | finished _ => simp [hphase, Phase.isFinished] at hopen
            | _ => simp [rank]
      · cases h
  | clear id process =>
      simp only [step] at h
      split at h
      · cases h
      split at h
      · obtain rfl := Option.some.inj h
        exact ⟨hs, .refl s⟩
      · obtain rfl := Option.some.inj h
        refine hs.maintain fun m hm hexclusive => ?_
        rcases List.mem_append.mp hm with hm | hm
        · exact hs.exclusive m hm hexclusive
        · obtain rfl := List.mem_singleton.mp hm
          cases hexclusive
  | lockExclusive id =>
      simp only [step] at h
      split at h
      · split at h
        · obtain rfl := Option.some.inj h
          exact hs.maintain fun m hm => hs.exclusive m (List.mem_filter.mp hm).1
        · rename_i hfree
          obtain rfl := Option.some.inj h
          refine hs.maintain fun m _ _ c hc => Bool.eq_false_iff.mpr fun hholds => hfree ?_
          rw [fileBusy, Bool.or_eq_true]
          exact .inl (List.any_eq_true.mpr ⟨c, hc, hholds⟩)
      · cases h
  | remove id =>
      obtain ⟨-, h⟩ := Option.ite_none_right_eq_some.mp h
      obtain rfl := Option.some.inj h
      exact ⟨⟨hs.distinct, fun scope hash value hvalue => (by cases hvalue), hs.sound, hs.exclusive⟩, .refl s⟩
  | release id =>
      obtain rfl := Option.some.inj h
      exact hs.maintain fun m hm => hs.exclusive m (List.mem_filter.mp hm).1

theorem run_invariant (hinjective : Function.Injective hashText) (hs : Invariant hashText f s)
    {es : List (Event Scope Value)} (h : exec (step hashText f) s es = some t) : Invariant hashText f t :=
  exec_invariant (fun hI hstep => (step_spec hinjective hI hstep).1) hs h

theorem run_later (hinjective : Function.Injective hashText) (hs : Invariant hashText f s)
    {es : List (Event Scope Value)} (h : exec (step hashText f) s es = some t) : Later s t :=
  exec_relates Later.refl (fun hst htu => hst.trans htu) (fun hI hstep => (step_spec hinjective hI hstep).1)
    (fun hI hstep => (step_spec hinjective hI hstep).2) hs h

/-- Where a call stands at the end of a run, from where it stood before. -/
theorem run_next (hinjective : Function.Injective hashText) (hs : Invariant hashText f s)
    {es : List (Event Scope Value)} (h : exec (step hashText f) s es = some t) (hc : c ∈ s.calls)
    {d : Call Scope Value} (hd : findCall t c.id = some d) : Next c d := by
  obtain ⟨e, he, hnext⟩ := run_later hinjective hs h c hc
  rwa [(run_invariant hinjective hs h).found hd he hnext.id] at hnext

/-- What a call passes to its encoder was missing when it read the cache. -/
theorem passed_missing (hinjective : Function.Injective hashText) (hs : Invariant hashText f s)
    {later : List (Event Scope Value)} {passed : List String} {outcome : Except String (List Value)}
    (h : exec (step hashText f) s (.fetch id :: later ++ [.encode id passed outcome]) = some t) :
    ∃ c ∈ s.calls, c.id = id ∧ passed = missingTexts hashText (s.file.rows c.scope) c.texts := by
  rw [List.cons_append, exec_cons] at h
  obtain ⟨s₁, hfetch, h⟩ := h
  obtain ⟨u, hlater, hencode⟩ := exec_concat.mp h
  obtain ⟨hs₁, -⟩ := step_spec hinjective hs hfetch
  simp only [step] at hfetch
  split at hfetch
  case h_2 => cases hfetch
  rename_i cid process scope texts hfind
  obtain rfl := Option.some.inj hfetch
  obtain ⟨hc, hid⟩ := findCall_some hfind
  refine ⟨_, hc, hid, ?_⟩
  simp only [step] at hencode
  split at hencode
  case h_2 => cases hencode
  rename_i did dprocess dscope dtexts cached misses hfound
  obtain ⟨⟨rfl, -⟩, -⟩ := Option.ite_none_right_eq_some.mp hencode
  change cid = id at hid
  subst hid
  have hfetched := List.mem_map_of_mem (f := fun c : Call Scope Value =>
    if c.id = cid then { c with phase := (fetch hashText s.file scope texts).2 } else c) hc
  rw [if_pos rfl] at hfetched
  have hnext := run_next hinjective hs₁ hlater hfetched hfound
  obtain ⟨-, hmisses⟩ := (run_invariant hinjective hs₁ hlater).sound _ (findCall_some hfound).1
  obtain rfl : dtexts = texts := hnext.texts
  have hphase : (fetch hashText s.file scope dtexts).2 = .missing cached misses := by
    refine (hnext.phase.resolve_right fun hrank => ?_).symm
    have hlow : rank (fetch hashText s.file scope dtexts).2 ≤ 1 := Nat.le_of_lt_succ hrank
    exact absurd (rank_fetch s.file scope dtexts) (Nat.not_lt.mpr hlow)
  change misses = (missingTexts hashText cached dtexts).map fun text => (hashText text, text) at hmisses
  change misses.map Prod.snd = missingTexts hashText (s.file.rows scope) dtexts
  rw [← fetch_missing hphase, hmisses, List.map_map]
  exact List.map_id _

/-- A call whose encoder fails stores nothing. -/
theorem failed_stores_nothing (hinjective : Function.Injective hashText) (hs : Invariant hashText f s)
    {passed : List String} {outcome : Except String (List Value)}
    (hfailed : ∀ values, outcome = .ok values → values.length ≠ passed.length)
    (h : step hashText f s (.encode id passed outcome) = some t) :
    t.file = s.file ∧ ∀ later, exec (step hashText f) t (later ++ [.persist id]) = none := by
  obtain ⟨ht, -⟩ := step_spec hinjective hs h
  simp only [step] at h
  split at h
  case h_2 => cases h
  rename_i cid process scope texts cached misses hfind
  obtain ⟨⟨hpassed, -⟩, h⟩ := Option.ite_none_right_eq_some.mp h
  obtain rfl := Option.some.inj h
  refine ⟨rfl, fun later => Option.eq_none_iff_forall_ne_some.mpr fun u hlater => ?_⟩
  obtain ⟨hc, hid⟩ := findCall_some hfind
  change cid = id at hid
  subst hid
  obtain ⟨e, hend⟩ : ∃ e, encoded cached misses outcome = .finished (.error e) := by
    cases outcome with
    | error e => exact ⟨e, rfl⟩
    | ok values =>
        have hlength : values.length ≠ misses.length := by
          have := hfailed values rfl
          rwa [hpassed, List.length_map] at this
        simp only [encoded, if_pos hlength]
        exact ⟨_, rfl⟩
  have hfinished := List.mem_map_of_mem (f := fun c : Call Scope Value =>
    if c.id = cid then { c with phase := encoded cached misses outcome } else c) hc
  rw [if_pos rfl] at hfinished
  obtain ⟨v, hlater, hpersist⟩ := exec_concat.mp hlater
  simp only [step] at hpersist
  split at hpersist
  case h_2 => cases hpersist
  rename_i hfound
  have hnext := (run_next hinjective ht hlater hfinished hfound).phase
  simp [hend, rank] at hnext

/-- `clear` removes the file only where no call holds its lease. -/
theorem removed_unleased (hs : Invariant hashText f s) (h : step hashText f s (.remove id) = some t) :
    ∀ c ∈ s.calls, c.phase.holdsLease = false := by
  obtain ⟨hany, -⟩ := Option.ite_none_right_eq_some.mp h
  obtain ⟨m, hm, hexclusive⟩ := List.any_eq_true.mp hany
  exact hs.exclusive m hm (Bool.and_eq_true_iff.mp hexclusive).2

end Step

/-- Any number of calls and of runs of `clear`, in any order of their locked
sections. -/
theorem cache_right [DecidableEq Scope] [DecidableEq Value] (hinjective : Function.Injective hashText)
    {s₀ s : Cache Scope Value} (h₀ : Initial hashText f s₀) {es : List (Event Scope Value)}
    (h : exec (step hashText f) s₀ es = some s) :
    (∀ c ∈ s.calls, ∀ values, c.phase = .finished (.ok values) → values = c.texts.map (f c.scope)) ∧
    (∀ id later passed outcome t,
      exec (step hashText f) s (.fetch id :: later ++ [.encode id passed outcome]) = some t →
        ∃ c ∈ s.calls, c.id = id ∧ passed = missingTexts hashText (s.file.rows c.scope) c.texts) ∧
    (∀ scope hash value, s.file.rows scope hash = some value → ∃ text, hash = hashText text ∧ value = f scope text) ∧
    (∀ id passed outcome t, step hashText f s (.encode id passed outcome) = some t →
      (∀ values, outcome = .ok values → values.length ≠ passed.length) →
        t.file = s.file ∧ ∀ later, exec (step hashText f) t (later ++ [.persist id]) = none) ∧
    ∀ id t, step hashText f s (.remove id) = some t → ∀ c ∈ s.calls, c.phase.holdsLease = false := by
  have hs := run_invariant hinjective h₀.invariant h
  refine ⟨fun c hc values hphase => ?_, fun id later passed outcome t hrun => passed_missing hinjective hs hrun,
    hs.stored, fun id passed outcome t hstep hfailed => failed_stores_nothing hinjective hs hfailed hstep,
    fun id t hstep => removed_unleased hs hstep⟩
  have hsound := hs.sound c hc
  rw [CallSound, hphase] at hsound
  exact hsound

/-- The content hash of two texts, and a mark of the rest. -/
def sampleHash (text : String) : String :=
  if text = "alpha" then "8ed3f6ad685b959ead7022518e1af76cd816f8e8ec7ccdda1ed4018e8f2223f8"
  else if text = "beta" then "f44e64e75f3948e9f73f8dfa94721c4ce8cbb4f265c4790c702b2d41cfbf2753"
  else "text:" ++ text

def sampleValue (_ : Unit) (text : String) : String := "value:" ++ text

/-- Two calls that miss the same text, and a `clear` that finds them at work. -/
def race : List (Event Unit String) :=
  [.getOrInsert 1 7 () ["alpha", "beta", "alpha"], .lease 1, .getOrInsert 2 8 () ["beta"], .lease 2, .fetch 1, .fetch 2,
    .clear 3 9, .lockExclusive 3, .encode 1 ["alpha", "beta"] (.ok ["value:alpha", "value:beta"]),
    .encode 2 ["beta"] (.ok ["value:beta"]), .persist 2, .persist 1, .collect 1, .collect 2]

def results (s : Cache Unit String) : List (Option (List String)) :=
  s.calls.map fun c =>
    match c.phase with
    | .finished (.ok values) => some values
    | _ => none

theorem sampleHash_injective : Function.Injective sampleHash := by
  have hleft : ∀ {text hash : String}, hash = "text:" ++ text → hash.toList.head? = some 't' := by
    rintro text hash rfl
    simp
  intro a b h
  simp only [sampleHash] at h
  by_cases ha : a = "alpha" <;> by_cases ha' : a = "beta" <;> by_cases hb : b = "alpha" <;> by_cases hb' : b = "beta"
  all_goals simp only [ha, ha', hb, hb', if_true, if_false] at h ⊢
  all_goals first
    | rfl
    | exact absurd h (by decide)
    | exact absurd (hleft h) (by decide)
    | exact absurd (hleft h.symm) (by decide)
    | exact (String.append_right_inj "text:").mp h

theorem race_right : ∃ s, exec (step sampleHash sampleValue) ⟨.absent, [], []⟩ race = some s ∧
    results s = [some ["value:alpha", "value:beta", "value:alpha"], some ["value:beta"]] ∧
    ∀ c ∈ s.calls, ∀ values, c.phase = .finished (.ok values) → values = c.texts.map (sampleValue c.scope) := by
  obtain ⟨s, hrun⟩ : ∃ s, exec (step sampleHash sampleValue) ⟨.absent, [], []⟩ race = some s :=
    Option.isSome_iff_exists.mp (by decide)
  have hresults : (exec (step sampleHash sampleValue) ⟨.absent, [], []⟩ race).map results =
      some [some ["value:alpha", "value:beta", "value:alpha"], some ["value:beta"]] := by decide
  rw [hrun] at hresults
  have hinitial : Initial sampleHash sampleValue ⟨.absent, [], []⟩ :=
    ⟨fun _ _ _ hvalue => (by cases hvalue), rfl, rfl⟩
  exact ⟨s, hrun, Option.some.inj hresults, (cache_right sampleHash_injective hinitial hrun).1⟩

end Wordflow.TextCache
