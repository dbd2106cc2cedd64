import Wordflow.Quotes.Rules

namespace Wordflow.Quotes

open Library Library.Partial

variable {lower : String → String} {doc : Document}

/-- The words a candidate names are words of the document. -/
structure Candidate.Sound (doc : Document) (c : Candidate) : Prop where
  words : doc.Within c.words
  speaker : ∀ s, c.speaker = some s → doc.Within s
  verb : ∀ v, c.verb = some v → doc.Within v

section Words

theorem trimStart_returns (rounds : Nat) {words : Range} (h : words.stop ≤ doc.words.length) :
    Returns (trimStart doc rounds words) fun t => t.stop ≤ doc.words.length := by
  induction rounds generalizing words with
  | zero => exact returns_some h
  | succ rounds ih =>
      refine Returns.ite (fun hlt => ?_) fun _ => returns_some h
      refine (returns_getElem? (hlt.trans_le h)).bind fun w _ => ?_
      exact Returns.ite (fun _ => ih h) fun _ => returns_some h

theorem trimStop_returns (rounds : Nat) {words : Range} (h : words.stop ≤ doc.words.length) :
    Returns (trimStop doc rounds words) fun t => t.stop ≤ doc.words.length := by
  induction rounds generalizing words with
  | zero => exact returns_some h
  | succ rounds ih =>
      refine Returns.ite (fun hlt => ?_) fun _ => returns_some h
      have hlast : words.stop - 1 < doc.words.length := by omega
      refine (returns_getElem? hlast).bind fun w _ => ?_
      exact Returns.ite (fun _ => @ih ⟨words.start, words.stop - 1⟩ hlast.le) fun _ => returns_some h

theorem trim_returns {words : Range} (h : words.stop ≤ doc.words.length) :
    Returns (trim doc words) fun t => t.stop ≤ doc.words.length :=
  (trimStart_returns _ h).bind fun _ ht => trimStop_returns _ ht

theorem within_of_nonempty {words : Range} (h : words.stop ≤ doc.words.length) (hne : ¬words.isEmpty = true) :
    doc.Within words := by
  refine ⟨?_, h⟩
  simpa [Range.isEmpty] using hne

theorem pairs_within : ∀ p ∈ pairs doc, doc.Within p := by
  suffices ∀ (words : List Word) (n : Nat) (s : Option Nat × List Range), n + words.length = doc.words.length →
      (∀ start, s.1 = some start → start < n) → (∀ p ∈ s.2, doc.Within p) →
      ∀ p ∈ ((words.zipIdx n).foldl pairStep s).2, doc.Within p from
    this doc.words 0 (none, []) (Nat.zero_add _) (fun _ h => nomatch h) (fun _ h => nomatch h)
  intro words
  induction words with
  | nil => exact fun n s _ _ hs => hs
  | cons w words ih =>
      intro n s hn hopen hs
      rw [List.length_cons] at hn
      rw [List.zipIdx_cons, List.foldl_cons, pairStep]
      split
      · cases hstart : s.1 with
        | none =>
            refine ih (n + 1) _ (by omega) (fun start hsome => ?_) hs
            cases hsome
            exact Nat.lt_succ_self n
        | some start =>
            refine ih (n + 1) _ (by omega) (fun _ hnone => nomatch hnone) fun p hp => ?_
            rcases List.mem_append.mp hp with hp | hp
            · exact hs p hp
            · have hlt := hopen start hstart
              rw [List.mem_singleton.mp hp]
              exact ⟨Nat.lt_succ_of_lt hlt, by simp only; omega⟩
      · exact ih (n + 1) s (by omega) (fun start hstart => Nat.lt_succ_of_lt (hopen start hstart)) hs

theorem searchVerb_returns {indices : List Nat} (h : ∀ i ∈ indices, i < doc.words.length) :
    Returns (searchVerb doc indices) fun r => ∀ v, r = some v → v < doc.words.length := by
  induction indices with
  | nil => exact returns_some fun v hv => nomatch hv
  | cons i indices ih =>
      obtain ⟨hi, hrest⟩ := List.forall_mem_cons.mp h
      refine (returns_getElem? hi).bind fun w _ => Returns.ite (fun _ => returns_some fun v hv => ?_) fun _ => ?_
      · cases hv
        exact hi
      · exact Returns.ite (fun _ => returns_some fun v hv => nomatch hv) fun _ => ih hrest

theorem closestVerb_returns {words : Range} (h : doc.Within words) :
    Returns (closestVerb doc words) fun r => ∀ v, r = some v → v < doc.words.length := by
  obtain ⟨hlt, hle⟩ := h
  have hpreceding : ∀ i ∈ (List.range' (words.start - 4) (words.start - (words.start - 4))).reverse, i < doc.words.length := by
    intro i hi
    rw [List.mem_reverse, List.mem_range'_1] at hi
    omega
  have hfollowing : ∀ i ∈ List.range' words.stop (min (words.stop + 5) doc.words.length - words.stop), i < doc.words.length := by
    intro i hi
    rw [List.mem_range'_1] at hi
    omega
  refine (searchVerb_returns hpreceding).bind fun r hr => ?_
  cases r with
  | none => exact searchVerb_returns hfollowing
  | some v => exact returns_some hr

end Words

section Candidates

variable (hsound : doc.Sound)

include hsound

theorem midpoint_returns {words : Range} (h : doc.Within words) : Returns (midpoint doc words) fun _ => True :=
  (hsound.wordSpan h).bind fun _ _ => returns_some trivial

omit hsound in
theorem marks_returns {pair : Range} (h : doc.Within pair) : Returns (marks doc pair) fun _ => True := by
  obtain ⟨hlt, hle⟩ := h
  have hlast : pair.stop - 1 < doc.words.length := by omega
  refine (returns_getElem? (hlt.trans_le hle)).bind fun _ _ => (returns_getElem? hlast).bind fun _ _ => ?_
  exact returns_some trivial

theorem kind_returns {words speaker verb : Range} {pair : Option Range} (hwords : doc.Within words)
    (hspeaker : doc.Within speaker) (hverb : doc.Within verb) (hpair : ∀ p, pair = some p → doc.Within p) :
    Returns (kind doc words speaker verb pair) fun _ => True := by
  refine (midpoint_returns hsound hwords).bind fun _ _ => (midpoint_returns hsound hspeaker).bind fun _ _ =>
    (midpoint_returns hsound hverb).bind fun _ _ => ?_
  cases pair with
  | none => exact returns_some trivial
  | some pair => exact (marks_returns (hpair pair rfl)).bind fun _ _ => returns_some trivial

theorem validSpeaker_returns {words : Range} (h : doc.Within words) : Returns (validSpeaker lower doc words) fun _ => True :=
  (hsound.wordSpan h).bind fun _ hspan => (Document.text_returns hspan).bind fun _ _ => returns_some trivial

theorem subjectOf_returns {verb : Nat} {word : Word} (hverb : verb < doc.words.length) (hword : word ∈ doc.words) :
    Returns (subjectOf doc verb word) fun r => ∀ i, r = some i → i < doc.words.length := by
  refine (hsound.subject hverb).bind fun r hr => ?_
  cases r with
  | some subject => exact returns_some hr
  | none =>
      cases hhead : word.head with
      | none => exact returns_some fun i hi => nomatch hi
      | some head => exact hsound.subject (hsound.heads word hword head hhead)

variable {i : Nat} {word : Word} (hi : i < doc.words.length) (hword : word ∈ doc.words)

include hi hword

theorem complement_returns {quoted : List Range} (hquoted : ∀ p ∈ quoted, doc.Within p) :
    Returns (complement lower doc quoted i word) fun cs => ∀ c ∈ cs, c.Sound doc := by
  have hnone : Returns (some ([] : List Candidate)) fun cs => ∀ c ∈ cs, c.Sound doc := returns_some fun c hc => nomatch hc
  rw [complement]
  cases hhead : word.head with
  | none => exact hnone
  | some verb =>
      have hverb := hsound.heads word hword verb hhead
      refine Returns.ite (fun _ => hnone) fun _ => (returns_getElem? hverb).bind fun reporting hreporting => ?_
      refine Returns.ite (fun _ => hnone) fun _ => (subjectOf_returns hsound hverb hreporting.2).bind fun r hr => ?_
      cases r with
      | none => exact hnone
      | some subject =>
          refine (hsound.subtree (hr subject rfl)).bind fun speaker hspeaker => ?_
          refine (hsound.subtree hi).bind fun whole hwhole => (trim_returns hwhole.2).bind fun words hwords => ?_
          refine Returns.ite (fun _ => hnone) fun hne => (validSpeaker_returns hsound hspeaker).bind fun valid _ => ?_
          refine Returns.ite (fun _ => hnone) fun _ => ?_
          have hwithin := within_of_nonempty hwords hne
          have hpair : ∀ p, (quoted.find? fun pair => decide (pair.start ≤ words.start) && decide (words.stop ≤ pair.stop)) =
              some p → doc.Within p := fun p hp => hquoted p (List.mem_of_find?_eq_some hp)
          refine (kind_returns hsound hwithin hspeaker (Document.within_single hverb) hpair).bind fun kind _ => ?_
          refine returns_some fun c hc => ?_
          rw [List.mem_singleton.mp hc]
          refine ⟨hwithin, fun s hs => ?_, fun v hv => ?_⟩
          · cases hs
            exact hspeaker
          · cases hv
            exact Document.within_single hverb

omit hword in
theorem parataxisPair_returns {speaker pair : Range} (hspeaker : doc.Within speaker) (hpair : doc.Within pair) :
    Returns (parataxisPair doc i speaker pair) fun cs => ∀ c ∈ cs, c.Sound doc := by
  have hnone : Returns (some ([] : List Candidate)) fun cs => ∀ c ∈ cs, c.Sound doc := returns_some fun c hc => nomatch hc
  refine (closestVerb_returns hpair).bind fun closest _ => Returns.ite (fun _ => hnone) fun _ => ?_
  refine (trim_returns hpair.2).bind fun words hwords => Returns.ite (fun _ => hnone) fun hne => ?_
  have hwithin := within_of_nonempty hwords hne
  have hsome : ∀ p, some pair = some p → doc.Within p := fun p hp => Option.some.inj hp ▸ hpair
  refine (kind_returns hsound hwithin hspeaker (Document.within_single hi) hsome).bind fun kind _ => returns_some fun c hc => ?_
  rw [List.mem_singleton.mp hc]
  refine ⟨hwithin, fun s hs => ?_, fun v hv => ?_⟩
  · cases hs
    exact hspeaker
  · cases hv
    exact Document.within_single hi

omit hword in
theorem parataxis_returns {quoted : List Range} (hquoted : ∀ p ∈ quoted, doc.Within p) :
    Returns (parataxis lower doc quoted i word) fun cs => ∀ c ∈ cs, c.Sound doc := by
  have hnone : Returns (some ([] : List Candidate)) fun cs => ∀ c ∈ cs, c.Sound doc := returns_some fun c hc => nomatch hc
  refine Returns.ite (fun _ => hnone) fun _ => (hsound.subject hi).bind fun r hr => ?_
  cases r with
  | none => exact hnone
  | some subject =>
      refine (hsound.subtree (hr subject rfl)).bind fun speaker hspeaker => (validSpeaker_returns hsound hspeaker).bind fun _ _ => ?_
      refine Returns.ite (fun _ => hnone) fun _ => collect_returns fun pair hpair => ?_
      exact parataxisPair_returns hsound hi hspeaker (hquoted pair hpair)

omit hi in
theorem speakerHead_returns {next : Word} (hnext : next ∈ doc.words) :
    Returns (speakerHead doc i word next) fun r => ∀ head, r = some head → head < doc.words.length := by
  have hheads : ∀ head ∈ word.head.toList ++ next.head.toList, head < doc.words.length := by
    intro head hhead
    rcases List.mem_append.mp hhead with hhead | hhead
    · exact hsound.heads word hword head (Option.mem_toList.mp hhead)
    · exact hsound.heads next hnext head (Option.mem_toList.mp hhead)
  refine (find_returns fun head hhead => ?_).mono fun r hr head hsome => hheads head (hr head hsome)
  refine Returns.ite (fun _ => returns_some trivial) fun _ => ?_
  exact (returns_getElem? (hheads head hhead)).bind fun _ _ => returns_some trivial

omit hword in
theorem accordingTo_returns {head : Nat} {sentence : Range} (hhead : head < doc.words.length) (hnext : i + 1 < doc.words.length)
    (hsentence : sentence.stop ≤ doc.words.length) :
    Returns (accordingTo doc i head sentence) fun cs => ∀ c ∈ cs, c.Sound doc := by
  have hnone : Returns (some ([] : List Candidate)) fun cs => ∀ c ∈ cs, c.Sound doc := returns_some fun c hc => nomatch hc
  refine (hsound.subtree hhead).bind fun subtree hsubtree => ?_
  refine (@trim_returns _ ⟨max (i + 2) subtree.start, subtree.stop⟩ hsubtree.2).bind fun speaker hspeaker => ?_
  refine Returns.ite (fun _ => hnone) fun hne => ?_
  have hwords : Returns (statedWords doc i speaker sentence) fun t => t.stop ≤ doc.words.length :=
    Returns.ite (fun _ => trim_returns hsentence) fun _ => trim_returns hi.le
  refine hwords.bind fun words hwords => ?_
  refine Returns.ite (fun _ => hnone) fun hwordsNe => returns_some fun c hc => ?_
  rw [List.mem_singleton.mp hc]
  refine ⟨within_of_nonempty hwords hwordsNe, fun s hs => ?_, fun v hv => ?_⟩
  · cases hs
    exact within_of_nonempty hspeaker hne
  · cases hv
    exact ⟨by simp only; omega, hnext⟩

theorem according_returns : Returns (according doc i word) fun cs => ∀ c ∈ cs, c.Sound doc := by
  have hnone : Returns (some ([] : List Candidate)) fun cs => ∀ c ∈ cs, c.Sound doc := returns_some fun c hc => nomatch hc
  refine Returns.ite (fun _ => hnone) fun hguard => ?_
  have hnext : i + 1 < doc.words.length := by
    simp only [Bool.or_eq_true, decide_eq_true_eq, not_or] at hguard
    omega
  refine (returns_getElem? hnext).bind fun next hmem => Returns.ite (fun _ => hnone) fun _ => ?_
  refine (speakerHead_returns hsound hword hmem.2).bind fun r hr => ?_
  cases r with
  | none => exact hnone
  | some head =>
      cases hfind : doc.sentences.find? fun s => s.contains i with
      | none => exact hnone
      | some sentence =>
          have hsentence := hsound.sentences sentence (List.mem_of_find?_eq_some hfind)
          exact accordingTo_returns hsound hi (hr head rfl) hnext hsentence.2

end Candidates

/-- The quotes so far, with the spans of the normalized text that they come from. -/
structure Extracted (source : List Char) (spans : List Range) (quotes : List Quote) : Prop where
  projected : List.Forall₂ (fun span q => Projects source span q.quote) spans quotes
  slices : ∀ q ∈ quotes, IsSlice source q.quote ∧ (∀ s, q.speaker = some s → IsSlice source s) ∧
    ∀ v, q.verb = some v → IsSlice source v
  disjoint : quotes.Pairwise fun p q => overlaps p.quote q.quote = false
  indexed : ∀ (i : Nat) (q : Quote), quotes[i]? = some q → q.index = i

/-- A candidate that is too short, that stands for no source text, or that is overlapped by a quote, such as its own. -/
def Settled (doc : Document) (source : List Char) (quotes : List Quote) (c : Candidate) : Prop :=
  ∃ span text, doc.wordSpan c.words = some span ∧ doc.text span = some text ∧ (List.count ' ' text + 1 < 4 ∨
    (Normalized.new source).project source span = some none ∨
      ∃ quote, (Normalized.new source).project source span = some (some quote) ∧ ∃ q ∈ quotes, overlaps q.quote quote = true)

section Extract

variable (hsound : doc.Sound) (source : List Char)

include hsound

theorem syntactic_returns {quoted : List Range} (hquoted : ∀ p ∈ quoted, doc.Within p) :
    Returns (syntactic lower doc quoted) fun cs => ∀ c ∈ cs, c.Sound doc := by
  refine collect_returns fun x hx => ?_
  obtain ⟨word, i⟩ := x
  have hword : word ∈ doc.words := List.fst_mem_of_mem_zipIdx hx
  have hi : i < doc.words.length := by simpa using List.snd_lt_of_mem_zipIdx hx
  refine (complement_returns hsound hi hword hquoted).bind fun complements hcomplements => ?_
  refine (parataxis_returns hsound hi hquoted).bind fun clauses hclauses => ?_
  refine (according_returns hsound hi hword).bind fun phrases hphrases => returns_some fun c hc => ?_
  rcases List.mem_append.mp hc with hc | hc
  · rcases List.mem_append.mp hc with hc | hc
    · exact hcomplements c hc
    · exact hclauses c hc
  · exact hphrases c hc

theorem floatings_returns {quoted : List Range} {candidates : List Candidate} (hquoted : ∀ p ∈ quoted, doc.Within p)
    (hcandidates : ∀ c ∈ candidates, c.Sound doc) :
    Returns (floatings doc quoted candidates) fun cs => ∀ c ∈ cs, c.Sound doc := by
  refine collect_returns fun x hx => ?_
  obtain ⟨⟨previous, sentence⟩, before⟩ := x
  have hprevious : previous ∈ doc.sentences := (List.of_mem_zip (List.fst_mem_of_mem_zipIdx hx)).1
  refine (hsound.wordSpan (hsound.sentences previous hprevious)).bind fun previousSpan _ => ?_
  have hprior : ∀ c ∈ candidates, Returns (isPrior doc previousSpan c) fun _ => True :=
    fun c hc => (hsound.wordSpan (hcandidates c hc).words).bind fun _ _ => returns_some trivial
  refine (find_returns hprior).bind fun r hr => ?_
  cases r with
  | none => exact returns_some fun c hc => nomatch hc
  | some prior =>
      refine returns_some fun c hc => ?_
      obtain ⟨pair, hpair, rfl⟩ := List.mem_map.mp hc
      exact ⟨hquoted pair (List.mem_of_mem_filter hpair), (hcandidates prior (hr prior rfl)).speaker, fun v hv => nomatch hv⟩

theorem heuristics_returns {quoted : List Range} (hquoted : ∀ p ∈ quoted, doc.Within p) :
    Returns (collect (heuristicAt doc) quoted) fun cs => ∀ c ∈ cs, c.Sound doc := by
  refine collect_returns fun pair hpair => ?_
  refine Returns.ite (fun _ => returns_some fun c hc => nomatch hc) fun _ => ?_
  refine (closestVerb_returns (hquoted pair hpair)).bind fun verb hverb => ?_
  have hbuild : ∀ subject : Option Nat, (∀ s, subject = some s → s < doc.words.length) →
      Returns (some [({
        words := pair
        speaker := subject.map fun s => ⟨s, s + 1⟩
        verb := verb.map fun v => ⟨v, v + 1⟩
        kind := "Heuristic"
        floating := false } : Candidate)]) fun cs => ∀ c ∈ cs, c.Sound doc := by
    intro subject hsubject
    refine returns_some fun c hc => ?_
    rw [List.mem_singleton.mp hc]
    refine ⟨hquoted pair hpair, fun s hs => ?_, fun v hv => ?_⟩
    · obtain ⟨i, hi, rfl⟩ := Option.map_eq_some_iff.mp hs
      exact Document.within_single (hsubject i hi)
    · obtain ⟨i, hi, rfl⟩ := Option.map_eq_some_iff.mp hv
      exact Document.within_single (hverb i hi)
  cases verb with
  | none => exact hbuild none fun s hs => nomatch hs
  | some v => exact (hsound.subject (hverb v rfl)).bind fun subject hsubject => hbuild subject hsubject

omit hsound in
theorem Settled.append {quotes : List Quote} {c : Candidate} (h : Settled doc source quotes c) (more : List Quote) :
    Settled doc source (quotes ++ more) c := by
  obtain ⟨span, text, hspan, htext, hreason⟩ := h
  refine ⟨span, text, hspan, htext, hreason.imp_right (Or.imp_right ?_)⟩
  rintro ⟨quote, hquote, q, hq, hoverlaps⟩
  exact ⟨quote, hquote, q, List.mem_append_left _ hq, hoverlaps⟩

theorem projectWords_returns {words : Option Range} (h : ∀ w, words = some w → doc.Within w) :
    Returns (projectWords doc (Normalized.new source) source words) fun r => ∀ q, r = some q → IsSlice source q := by
  cases words with
  | none => exact returns_some fun q hq => nomatch hq
  | some words =>
      exact (hsound.wordSpan (h words rfl)).bind fun span _ => (project_returns source span).mono fun r hr q hq => (hr q hq).1

omit hsound in
theorem Extracted.push {spans : List Range} {quotes : List Quote} {span : Range} {q : Quote}
    (h : Extracted source spans quotes) (hprojects : Projects source span q.quote)
    (hslices : IsSlice source q.quote ∧ (∀ s, q.speaker = some s → IsSlice source s) ∧ ∀ v, q.verb = some v → IsSlice source v)
    (hfree : ∀ p ∈ quotes, overlaps p.quote q.quote = false) (hindex : q.index = quotes.length) :
    Extracted source (spans ++ [span]) (quotes ++ [q]) := by
  refine ⟨List.rel_append h.projected (.cons hprojects .nil), fun p hp => ?_, ?_, fun i p hp => ?_⟩
  · rcases List.mem_append.mp hp with hp | hp
    · exact h.slices p hp
    · rw [List.mem_singleton.mp hp]
      exact hslices
  · refine List.pairwise_append.mpr ⟨h.disjoint, List.pairwise_singleton _ _, fun p hp r hr => ?_⟩
    rw [List.mem_singleton.mp hr]
    exact hfree p hp
  · rcases Nat.lt_or_ge i quotes.length with hlt | hge
    · rw [List.getElem?_append_left hlt] at hp
      exact h.indexed i p hp
    · rw [List.getElem?_append_right hge, List.getElem?_singleton] at hp
      split at hp
      · cases hp
        omega
      · cases hp

/-- A candidate leaves the quotes as they are or adds its own behind them, and is settled either way. -/
theorem accept_returns {spans : List Range} {quotes : List Quote} {c : Candidate} (hc : c.Sound doc)
    (h : Extracted source spans quotes) :
    Returns (accept doc (Normalized.new source) source quotes c) fun result =>
      (∃ more, result = quotes ++ more) ∧ (∃ spans, Extracted source spans result) ∧ Settled doc source result c := by
  obtain ⟨span, hspan, hreadable⟩ := hsound.wordSpan hc.words
  obtain ⟨text, htext, -⟩ := Document.text_returns hreadable
  have hsame : ∃ more, quotes = quotes ++ more := ⟨[], (List.append_nil _).symm⟩
  simp only [accept, hspan, htext, Option.bind_eq_bind, Option.bind_some]
  refine Returns.ite (fun hshort => ?_) fun _ => ?_
  · exact returns_some ⟨hsame, ⟨spans, h⟩, span, text, hspan, htext, .inl hshort⟩
  · obtain ⟨projected, hprojected, hslice⟩ := project_returns source span
    rw [hprojected, Option.bind_some]
    cases projected with
    | none => exact returns_some ⟨hsame, ⟨spans, h⟩, span, text, hspan, htext, .inr (.inl hprojected)⟩
    | some quote =>
        obtain ⟨hcut, hprojects⟩ := hslice quote rfl
        refine Returns.ite (fun hoverlap => ?_) fun hfree => ?_
        · obtain ⟨q, hq, hoverlaps⟩ := List.any_eq_true.mp hoverlap
          exact returns_some ⟨hsame, ⟨spans, h⟩, span, text, hspan, htext, .inr (.inr ⟨quote, hprojected, q, hq, hoverlaps⟩)⟩
        · refine (projectWords_returns hsound source hc.speaker).bind fun speaker hspeaker => ?_
          refine (projectWords_returns hsound source hc.verb).bind fun verb hverb => returns_some ⟨⟨_, rfl⟩, ⟨spans ++ [span], ?_⟩, ?_⟩
          · refine h.push source hprojects ⟨hcut, hspeaker, hverb⟩ (fun p hp => ?_) rfl
            simpa using fun hoverlaps => hfree (List.any_eq_true.mpr ⟨p, hp, hoverlaps⟩)
          · refine ⟨span, text, hspan, htext, .inr (.inr ⟨quote, hprojected, _, List.mem_append_right _ List.mem_cons_self, ?_⟩)⟩
            simp [overlaps, hcut.1]

theorem accepts_returns {candidates : List Candidate} (hcandidates : ∀ c ∈ candidates, c.Sound doc) {spans : List Range}
    {quotes : List Quote} (h : Extracted source spans quotes) :
    Returns (candidates.foldlM (accept doc (Normalized.new source) source) quotes) fun result =>
      (∃ more, result = quotes ++ more) ∧ (∃ spans, Extracted source spans result) ∧
        ∀ c ∈ candidates, Settled doc source result c := by
  induction candidates generalizing spans quotes with
  | nil => exact returns_some ⟨⟨[], (List.append_nil _).symm⟩, ⟨spans, h⟩, fun c hc => nomatch hc⟩
  | cons c candidates ih =>
      obtain ⟨hc, hrest⟩ := List.forall_mem_cons.mp hcandidates
      rw [List.foldlM_cons]
      refine (accept_returns hsound source hc h).bind fun middle hmiddle => ?_
      obtain ⟨⟨more, rfl⟩, ⟨spans', hextracted⟩, hsettled⟩ := hmiddle
      refine (ih hrest hextracted).mono fun result hresult => ?_
      obtain ⟨⟨more', rfl⟩, hspans, hall⟩ := hresult
      exact ⟨⟨more ++ more', List.append_assoc _ _ _⟩, hspans, List.forall_mem_cons.mpr ⟨hsettled.append source more', hall⟩⟩

omit hsound in
/-- Quotes that are apart in the source share no more of the normalized text than characters that stand for no source text. -/
theorem Extracted.shared {spans : List Range} {quotes : List Quote} (h : Extracted source spans quotes) :
    spans.Pairwise fun s t => ∀ x, s.contains x = true → t.contains x = true →
      (Normalized.new source).project source ⟨x, x + 1⟩ = some none := by
  have hempty : ∀ (s t : Range) (a b : SourceSpan) (x : Nat), Projects source s a → Projects source t b → a.stop ≤ b.start →
      t.start ≤ x → x < s.stop → (Normalized.new source).project source ⟨x, x + 1⟩ = some none := by
    intro s t a b x ha hb hle hstart hstop
    obtain ⟨hlast, -⟩ := List.getElem?_eq_some_iff.mp ha.2
    obtain ⟨here, hhere⟩ : ∃ m, (Normalized.new source).mapping[x]? = some m :=
      ⟨_, List.getElem?_eq_getElem (hstop.trans hlast)⟩
    obtain ⟨next, hnext⟩ : ∃ m, (Normalized.new source).mapping[x + 1]? = some m :=
      ⟨_, List.getElem?_eq_getElem (hlast.trans_le' hstop)⟩
    have hlow := mapping_monotone source hstart hb.1 hhere
    have hhigh := mapping_monotone source hstop hnext ha.2
    have hge : here ≥ next := by omega
    simp only [Normalized.project, hhere, hnext, if_pos hge]
  obtain ⟨hprojected, -, hdisjoint, -⟩ := h
  induction hprojected with
  | nil => exact List.Pairwise.nil
  | cons hfirst hrest ih =>
      obtain ⟨hapart, hdisjoint⟩ := List.pairwise_cons.mp hdisjoint
      refine List.pairwise_cons.mpr ⟨fun t ht x hs hcontains => ?_, ih hdisjoint⟩
      obtain ⟨q, hq, hprojects⟩ := Library.Fallible.forall₂_mem_left hrest ht
      have hfree := hapart q hq
      simp only [Range.contains, Bool.and_eq_true, decide_eq_true_eq] at hs hcontains
      simp only [overlaps, Bool.and_eq_false_iff, decide_eq_false_iff_not, Nat.not_lt] at hfree
      rcases hfree with hle | hle
      · exact hempty _ _ _ _ x hprojects hfirst hle hs.1 hcontains.2
      · exact hempty _ _ _ _ x hfirst hprojects hle hcontains.1 hs.2

end Extract

/-- Over tokens in the order of the words the extraction returns, on circles of heads too. Its quotes, speakers and cues are
parts of the source; the quotes are apart in the source and numbered; and those of the syntactic candidates come first, as if
there were no others. -/
theorem extract_returns {text : List Char} {parsed : List Sentence} {doc : Document} (h : Document.new text parsed = .ok doc)
    (hordered : ∀ s ∈ parsed, s.LeftToRight) (lower : String → String) (source : List Char) :
    ∃ quotes, extract lower doc (Normalized.new source) source = some quotes ∧
      (∃ spans, Extracted source spans quotes ∧ spans.Pairwise fun s t => ∀ x, s.contains x = true → t.contains x = true →
        (Normalized.new source).project source ⟨x, x + 1⟩ = some none) ∧
      ∃ candidates kept more, syntactic lower doc (pairs doc) = some candidates ∧
        candidates.foldlM (accept doc (Normalized.new source) source) [] = some kept ∧ quotes = kept ++ more ∧
          ∀ c ∈ candidates, Settled doc source kept c := by
  have hsound := Document.new_sound h hordered
  obtain ⟨candidates, hcandidates, hsyntactic⟩ := @syntactic_returns lower _ hsound _ pairs_within
  obtain ⟨floating, hfloating, hfloatingSound⟩ := floatings_returns hsound pairs_within hsyntactic
  obtain ⟨heuristics, hheuristics, hheuristicsSound⟩ := heuristics_returns hsound pairs_within
  have hstart : Extracted source [] [] :=
    ⟨.nil, fun q hq => (nomatch hq), List.Pairwise.nil, fun i q hq => (nomatch hq)⟩
  obtain ⟨kept, hkept, -, ⟨spans, hextracted⟩, hsettled⟩ := accepts_returns hsound source hsyntactic hstart
  have hothers : ∀ c ∈ floating ++ heuristics, c.Sound doc := by
    intro c hc
    exact (List.mem_append.mp hc).elim (hfloatingSound c) (hheuristicsSound c)
  obtain ⟨quotes, hquotes, ⟨more, hmore⟩, ⟨spans', hall⟩, -⟩ := accepts_returns hsound source hothers hextracted
  refine ⟨quotes, ?_, ⟨spans', hall, hall.shared source⟩, candidates, kept, more, hcandidates, hkept, hmore, hsettled⟩
  simp only [extract, hcandidates, hfloating, hheuristics, Option.bind_eq_bind, Option.bind_some]
  rw [List.append_assoc, List.foldlM_append, hkept]
  exact hquotes

section Samples

def asciiLowercase (s : String) : String := String.ofList (Identifier.asciiLower s)

/-- Two words of a speaker whose tokens come in the other order. -/
def turned : List Sentence :=
  [{ words := [⟨1, 2, "go", "VERB", "ccomp"⟩, ⟨2, 0, "said", "VERB", "root"⟩, ⟨3, 2, "Bo", "PROPN", "nsubj"⟩,
      ⟨4, 3, "Lee", "PROPN", "flat"⟩]
     tokens := [⟨1, 1, 0, 2⟩, ⟨2, 2, 3, 7⟩, ⟨4, 4, 8, 11⟩, ⟨3, 3, 12, 14⟩] }]

def turnedText : List Char := "go said Lee Bo".toList

/-- Two clauses that both take in the full stop that the normalization puts for the line's end. -/
def shared : List Sentence :=
  [{ words := [⟨1, 3, "According", "ADP", "case"⟩, ⟨2, 11, "to", "ADP", "ccomp"⟩, ⟨3, 0, "Ann", "PROPN", "obl"⟩,
      ⟨4, 3, "Bo", "PROPN", "flat"⟩, ⟨5, 3, "Lee", "PROPN", "flat"⟩, ⟨6, 2, "stop", "PUNCT", "punct"⟩,
      ⟨7, 0, "we", "PRON", "dep"⟩, ⟨8, 0, "must", "AUX", "dep"⟩, ⟨9, 0, "all", "PRON", "dep"⟩, ⟨10, 0, "go", "VERB", "dep"⟩,
      ⟨11, 0, "said", "VERB", "dep"⟩, ⟨12, 11, "Jo", "PROPN", "nsubj"⟩]
     tokens := [⟨1, 1, 0, 9⟩, ⟨2, 2, 10, 12⟩, ⟨3, 3, 13, 16⟩, ⟨4, 4, 17, 19⟩, ⟨5, 5, 20, 23⟩, ⟨6, 6, 23, 24⟩,
      ⟨7, 7, 26, 28⟩, ⟨8, 8, 29, 33⟩, ⟨9, 9, 34, 37⟩, ⟨10, 10, 38, 40⟩, ⟨11, 11, 41, 45⟩, ⟨12, 12, 46, 48⟩] }]

def sharedSource : List Char := "According to Ann Bo Lee\nwe must all go said Jo".toList

theorem exists_of_check {ε α : Type} {x : Except ε α} {p : α → Bool} (h : (x.toOption.any p) = true) :
    ∃ a, x = .ok a ∧ p a = true := by
  cases x with
  | error e => cases h
  | ok a => exact ⟨a, rfl, h⟩

/-- A document with two quotes that share a full stop of the normalized text. -/
theorem shared_returns : ∃ doc quotes, Document.new (Normalized.new sharedSource).text shared = .ok doc ∧
    extract asciiLowercase doc (Normalized.new sharedSource) sharedSource = some quotes ∧
      quotes.Pairwise fun p q => overlaps p.quote q.quote = false := by
  obtain ⟨doc, hdoc, -⟩ := exists_of_check (x := Document.new (Normalized.new sharedSource).text shared) (p := fun _ => true)
    (by decide +kernel)
  have hordered : ∀ s ∈ shared, s.LeftToRight := by
    intro s hs
    rw [List.mem_singleton.mp hs]
    unfold Sentence.LeftToRight
    decide
  obtain ⟨quotes, hquotes, ⟨spans, hextracted, -⟩, -⟩ := extract_returns hdoc hordered asciiLowercase sharedSource
  exact ⟨doc, quotes, hdoc, hquotes, hextracted.disjoint⟩

/-- Tokens out of order make a slice run backwards; and two quotes from spans that share a character of the normalized text
are both reported. -/
theorem turned_fails_shared_overlaps :
    (∃ doc, Document.new turnedText turned = .ok doc ∧
      extract asciiLowercase doc (Normalized.new turnedText) turnedText = none) ∧
    ∃ doc c d p q, Document.new (Normalized.new sharedSource).text shared = .ok doc ∧
      syntactic asciiLowercase doc (pairs doc) = some [c, d] ∧ doc.wordSpan c.words = some ⟨23, 48⟩ ∧
      doc.wordSpan d.words = some ⟨10, 24⟩ ∧
      extract asciiLowercase doc (Normalized.new sharedSource) sharedSource = some [p, q] ∧
      (Normalized.new sharedSource).project sharedSource ⟨23, 48⟩ = some (some p.quote) ∧
      (Normalized.new sharedSource).project sharedSource ⟨10, 24⟩ = some (some q.quote) := by
  constructor
  · obtain ⟨doc, hdoc, hnone⟩ := exists_of_check (x := Document.new turnedText turned)
      (p := fun doc => (extract asciiLowercase doc (Normalized.new turnedText) turnedText).isNone) (by decide +kernel)
    exact ⟨doc, hdoc, Option.isNone_iff_eq_none.mp hnone⟩
  · let c : Candidate := ⟨⟨5, 12⟩, some ⟨2, 5⟩, some ⟨0, 2⟩, "AccordingTo", false⟩
    let d : Candidate := ⟨⟨1, 6⟩, some ⟨11, 12⟩, some ⟨10, 11⟩, "CVS", false⟩
    let p : Quote := ⟨some ⟨"Ann Bo Lee".toList, 13, 23⟩, ⟨"\nwe must all go said Jo".toList, 23, 46⟩,
      some ⟨"According to".toList, 0, 12⟩, "AccordingTo", 7, false, 0⟩
    let q : Quote := ⟨some ⟨"Jo".toList, 44, 46⟩, ⟨"to Ann Bo Lee".toList, 10, 23⟩, some ⟨"said".toList, 39, 43⟩, "CVS", 5, false, 1⟩
    obtain ⟨doc, hdoc, hchecked⟩ := exists_of_check (x := Document.new (Normalized.new sharedSource).text shared)
      (p := fun doc => decide (syntactic asciiLowercase doc (pairs doc) = some [c, d] ∧
        doc.wordSpan c.words = some ⟨23, 48⟩ ∧ doc.wordSpan d.words = some ⟨10, 24⟩ ∧
        extract asciiLowercase doc (Normalized.new sharedSource) sharedSource = some [p, q] ∧
        (Normalized.new sharedSource).project sharedSource ⟨23, 48⟩ = some (some p.quote) ∧
        (Normalized.new sharedSource).project sharedSource ⟨10, 24⟩ = some (some q.quote))) (by decide +kernel)
    exact ⟨doc, c, d, p, q, hdoc, of_decide_eq_true hchecked⟩

end Samples

end Wordflow.Quotes
