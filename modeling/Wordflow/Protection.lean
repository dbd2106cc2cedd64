import Wordflow.Library.Run
import Wordflow.Objects

namespace Wordflow.Protection

open Library.Run Library.Identifier Objects

variable {Id : Type} [DecidableEq Id]

inductive Purpose
  | mutation
  | manual
  | analysis
  deriving DecidableEq, Repr

/-- `targets` is `none` for arbitrary SQL; application operations name what
they write. -/
structure Entry where
  targets : Option (List ObjectTarget)
  purpose : Purpose
  deriving DecidableEq, Repr

abbrev Entries (Id : Type) := List (Id × Entry)

def same (a b : ObjectTarget) : Bool :=
  eqIgnoreAsciiCase (a.schema.getD "data") (b.schema.getD "data") && eqIgnoreAsciiCase a.name b.name

def overlaps (a b : Option (List ObjectTarget)) : Bool :=
  match a, b with
  | some a, some b => a.any fun a => b.any fun b => same a b
  | _, _ => true

def lookup (entries : Entries Id) (id : Id) : Option Entry :=
  (entries.find? fun e => e.1 == id).map Prod.snd

def editingActive (entry : Entry) : Error :=
  let target := ((entry.targets.bind List.head?).map ObjectTarget.toText).getD ""
  ⟨"editing_active",
    if entry.purpose = .analysis then
      "Table " ++ target ++ " is protected by an Annotation Run. Wait for it or Stop first"
    else
      "Table " ++ target ++
        " is protected by an editing operation. Finish it with Save or Cancel first"⟩

/-- The critical section of `Protection::reserve`. The new lease's id is the
argument `id`; the map that is left behind is returned in either case. -/
def reserve (entries : Entries Id) (id : Id) (targets : Option (List ObjectTarget))
    (purpose : Purpose) : Except Error Id × Entries Id :=
  match entries.find? (fun e => e.2.purpose != .mutation && overlaps e.2.targets targets) with
  | some (_, entry) => (.error (editingActive entry), entries)
  | none => (.ok id, entries ++ [(id, ⟨targets, purpose⟩)])

inductive Request
  | mutation (targets : Option (List ObjectTarget))
  | editing (target : ObjectTarget)
  | analysis (target : ObjectTarget)
  deriving DecidableEq, Repr

def request (entries : Entries Id) (id : Id) : Request → Except Error Id × Entries Id
  | .mutation targets => reserve entries id targets .mutation
  | .editing target => reserve entries id (some [target]) .manual
  | .analysis target => reserve entries id (some [target]) .analysis

/-- One look of `Lease::ready` at the map: `none` is the panic of indexing an
absent entry. -/
def busy (entries : Entries Id) (id : Id) : Option Bool :=
  (lookup entries id).map fun entry =>
    entries.any fun e => e.1 != id && e.2.purpose == .mutation && overlaps entry.targets e.2.targets

def dropLease (entries : Entries Id) (id : Id) : Entries Id := entries.filter fun e => e.1 != id

/-- The map together with the leases callers hold. A lease is created by an
accepted reservation and given up once, by its drop. -/
structure State (Id : Type) where
  entries : Entries Id
  live : List Id
  deriving DecidableEq

def init : State Id := ⟨[], []⟩

/-- `ready` is a look that lets its caller go on, `waiting` one that does not;
a caller that waits may look again or give up without touching the map. -/
inductive Event (Id : Type)
  | reserve (id : Id) (what : Request)
  | ready (id : Id)
  | waiting (id : Id)
  | drop (id : Id)
  deriving DecidableEq

/-- A reservation brings an id that no present entry uses (a random UUID), and
only the owner of a lease can wait on it or drop it. -/
def step (s : State Id) : Event Id → Option (State Id)
  | .reserve id what =>
      if (lookup s.entries id).isSome then none
      else
        match request s.entries id what with
        | (.ok id, entries) => some ⟨entries, id :: s.live⟩
        | (.error _, entries) => some ⟨entries, s.live⟩
  | .ready id => if id ∈ s.live ∧ busy s.entries id = some false then some s else none
  | .waiting id => if id ∈ s.live ∧ busy s.entries id = some true then some s else none
  | .drop id => if id ∈ s.live then some ⟨dropLease s.entries id, s.live.erase id⟩ else none

theorem same_comm (a b : ObjectTarget) : same a b = same b a := by
  simp only [same, eqIgnoreAsciiCase_comm]

theorem overlaps_comm (a b : Option (List ObjectTarget)) : overlaps a b = overlaps b a := by
  cases a <;> cases b <;> try rfl
  rename_i a b
  rw [Bool.eq_iff_iff]
  simp only [overlaps, List.any_eq_true]
  constructor <;> rintro ⟨x, hx, y, hy, h⟩ <;> exact ⟨y, hy, x, hx, same_comm x y ▸ h⟩

def Protects (entry : Entry) : Prop := entry.purpose ≠ .mutation

def Apart (a b : Entry) : Prop := overlaps a.targets b.targets = false

theorem Apart.symm {a b : Entry} (h : Apart a b) : Apart b a := by
  simpa [Apart, overlaps_comm] using h

theorem lookup_eq_some {entries : Entries Id} (hnodup : (entries.map Prod.fst).Nodup) {id : Id}
    {entry : Entry} : lookup entries id = some entry ↔ (id, entry) ∈ entries := by
  induction entries with
  | nil => simp [lookup]
  | cons e entries ih =>
      rcases e with ⟨key, value⟩
      simp only [List.map_cons, List.nodup_cons] at hnodup
      by_cases hk : key = id
      · subst hk
        have hfresh : (key, entry) ∉ entries := fun h =>
          hnodup.1 (List.mem_map.mpr ⟨_, h, rfl⟩)
        simp [lookup, hfresh, eq_comm]
      · have hne : (id, entry) ≠ (key, value) := fun h => hk (congrArg Prod.fst h).symm
        simpa [lookup, hk, hne, List.mem_cons] using ih hnodup.2

theorem lookup_isSome {entries : Entries Id} {id : Id} :
    (lookup entries id).isSome = true ↔ id ∈ entries.map Prod.fst := by
  simp [lookup]

omit [DecidableEq Id] in
theorem reserve_ok {entries : Entries Id} {id new : Id} {targets : Option (List ObjectTarget)}
    {purpose : Purpose} (h : (reserve entries id targets purpose).1 = .ok new) :
    new = id ∧ (reserve entries id targets purpose).2 = entries ++ [(id, ⟨targets, purpose⟩)] ∧
      ∀ e ∈ entries, Protects e.2 → Apart e.2 ⟨targets, purpose⟩ := by
  simp only [reserve] at h ⊢
  cases hf : entries.find? (fun e => e.2.purpose != .mutation && overlaps e.2.targets targets) with
  | some e => simp [hf] at h
  | none =>
      simp only [hf, Except.ok.injEq] at h
      refine ⟨h.symm, rfl, fun e he hp => ?_⟩
      have hn := List.find?_eq_none.mp hf e he
      have hm : (e.2.purpose != .mutation) = true := by simpa [Protects] using hp
      simpa [hm, Apart] using hn

omit [DecidableEq Id] in
theorem reserve_error {entries : Entries Id} {id : Id} {targets : Option (List ObjectTarget)}
    {purpose : Purpose} {error : Error} (h : (reserve entries id targets purpose).1 = .error error) :
    (reserve entries id targets purpose).2 = entries := by
  simp only [reserve] at h ⊢
  split at h <;> simp_all

def Request.entry : Request → Entry
  | .mutation targets => ⟨targets, .mutation⟩
  | .editing target => ⟨some [target], .manual⟩
  | .analysis target => ⟨some [target], .analysis⟩

omit [DecidableEq Id] in
theorem request_eq (entries : Entries Id) (id : Id) (what : Request) :
    request entries id what = reserve entries id what.entry.targets what.entry.purpose := by
  cases what <;> rfl

omit [DecidableEq Id] in
theorem request_error {entries : Entries Id} {id : Id} {what : Request} {error : Error}
    (h : (request entries id what).1 = .error error) : (request entries id what).2 = entries := by
  rw [request_eq] at h ⊢
  exact reserve_error h

structure Invariant (s : State Id) : Prop where
  nodup : (s.entries.map Prod.fst).Nodup
  live_nodup : s.live.Nodup
  live_iff : ∀ id, id ∈ s.live ↔ id ∈ s.entries.map Prod.fst
  exclusive : ∀ a ∈ s.entries, ∀ b ∈ s.entries, a.1 ≠ b.1 → Protects a.2 → Protects b.2 → Apart a.2 b.2

omit [DecidableEq Id] in
theorem invariant_init : Invariant (init : State Id) :=
  ⟨by simp [init], by simp [init], by simp [init], by simp [init]⟩

theorem step_cases {s t : State Id} {e : Event Id} (h : step s e = some t) :
    (∃ id what, e = .reserve id what ∧ id ∉ s.entries.map Prod.fst ∧
      (∀ a ∈ s.entries, Protects a.2 → Apart a.2 what.entry) ∧
      t = ⟨s.entries ++ [(id, what.entry)], id :: s.live⟩) ∨
    (∃ id what, e = .reserve id what ∧ t = s) ∨
    (∃ id, e = .ready id ∧ busy s.entries id = some false ∧ t = s) ∨
    (∃ id, e = .waiting id ∧ t = s) ∨
    (∃ id, e = .drop id ∧ id ∈ s.live ∧ t = ⟨dropLease s.entries id, s.live.erase id⟩) := by
  cases e with
  | reserve id what =>
      simp only [step] at h
      split at h
      · contradiction
      · rename_i hfresh
        rw [lookup_isSome] at hfresh
        split at h
        · rename_i new entries hr
          have hok : (request s.entries id what).1 = .ok new := by rw [hr]
          rw [request_eq] at hok hr
          obtain ⟨rfl, hentries, hapart⟩ := reserve_ok hok
          rw [hr] at hentries
          simp only at hentries
          subst hentries
          exact .inl ⟨new, what, rfl, hfresh, hapart, (Option.some.inj h).symm⟩
        · rename_i error entries hr
          have he : (request s.entries id what).1 = .error error := by rw [hr]
          have hentries := request_error he
          rw [hr] at hentries
          simp only at hentries
          subst hentries
          exact .inr (.inl ⟨id, what, rfl, (Option.some.inj h).symm⟩)
  | ready id =>
      simp only [step] at h
      split at h
      · rename_i hr
        exact .inr (.inr (.inl ⟨id, rfl, hr.2, (Option.some.inj h).symm⟩))
      · contradiction
  | waiting id =>
      simp only [step] at h
      split at h
      · exact .inr (.inr (.inr (.inl ⟨id, rfl, (Option.some.inj h).symm⟩)))
      · contradiction
  | drop id =>
      simp only [step] at h
      split at h
      · rename_i hlive
        exact .inr (.inr (.inr (.inr ⟨id, rfl, hlive, (Option.some.inj h).symm⟩)))
      · contradiction

theorem mem_dropLease {entries : Entries Id} {id : Id} {e : Id × Entry} :
    e ∈ dropLease entries id ↔ e ∈ entries ∧ e.1 ≠ id := by
  simp [dropLease]

theorem invariant_step {s t : State Id} {e : Event Id} (hs : Invariant s) (h : step s e = some t) :
    Invariant t := by
  obtain ⟨id, what, -, hfresh, hapart, rfl⟩ | ⟨id, what, -, rfl⟩ | ⟨id, -, -, rfl⟩ | ⟨id, -, rfl⟩ |
    ⟨id, -, hlive, rfl⟩ := step_cases h
  · refine ⟨?_, ?_, ?_, ?_⟩
    · simpa [List.nodup_append, hs.nodup] using fun a b hab hne => hfresh (List.mem_map.mpr ⟨(a, b), hab, hne⟩)
    · exact List.nodup_cons.mpr ⟨fun hid => hfresh ((hs.live_iff id).mp hid), hs.live_nodup⟩
    · intro other
      simp only [List.mem_cons, List.map_append, List.map_cons, List.map_nil, List.mem_append,
        List.not_mem_nil, or_false, hs.live_iff other]
      exact or_comm
    · intro a ha b hb hne hpa hpb
      rcases List.mem_append.mp ha with ha | ha <;> rcases List.mem_append.mp hb with hb | hb
      · exact hs.exclusive a ha b hb hne hpa hpb
      · obtain rfl := List.mem_singleton.mp hb
        exact hapart a ha hpa
      · obtain rfl := List.mem_singleton.mp ha
        exact (hapart b hb hpb).symm
      · obtain rfl := List.mem_singleton.mp ha
        obtain rfl := List.mem_singleton.mp hb
        exact absurd rfl hne
  · exact hs
  · exact hs
  · exact hs
  · refine ⟨?_, hs.live_nodup.erase id, ?_, ?_⟩
    · exact hs.nodup.sublist (List.filter_sublist.map Prod.fst)
    · intro other
      rw [hs.live_nodup.mem_erase_iff, hs.live_iff other]
      simp only [dropLease, List.mem_map, List.mem_filter, bne_iff_ne]
      constructor
      · rintro ⟨hne, e, he, rfl⟩
        exact ⟨e, ⟨he, hne⟩, rfl⟩
      · rintro ⟨e, ⟨he, hne⟩, rfl⟩
        exact ⟨hne, e, he, rfl⟩
    · intro a ha b hb
      exact hs.exclusive a (mem_dropLease.mp ha).1 b (mem_dropLease.mp hb).1

theorem invariant_exec {s : State Id} {es : List (Event Id)} (h : exec step init es = some s) :
    Invariant s :=
  exec_invariant (fun hs h => invariant_step hs h) invariant_init h

def Admitted (id : Id) (s : State Id) : Prop :=
  ∀ a ∈ s.entries, a.1 = id → Protects a.2 →
    ∀ b ∈ s.entries, b.2.purpose = .mutation → Apart a.2 b.2

theorem admitted_ready {s : State Id} {id : Id} (hs : Invariant s)
    (h : busy s.entries id = some false) : Admitted id s := by
  rintro ⟨_, entry⟩ ha rfl hp b hb hm
  rename_i id
  have hl : lookup s.entries id = some entry := (lookup_eq_some hs.nodup).mpr ha
  simp only [busy, hl, Option.map_some, Option.some.injEq, List.any_eq_false, Bool.and_eq_true,
    bne_iff_ne, beq_iff_eq, not_and, Bool.not_eq_true] at h
  refine h b hb ⟨fun hid => ?_, hm⟩
  have he : b.2 = entry := by
    have hb' : (id, b.2) ∈ s.entries := hid ▸ hb
    exact Option.some.inj ((lookup_eq_some hs.nodup).mpr hb' ▸ hl)
  exact hp (he ▸ hm)

/-- As long as the lease is not dropped, a writer that overlaps it is turned
away, so the map stays clear of them. -/
theorem admitted_step {s t : State Id} {id : Id} {e : Event Id} (hs : Invariant s)
    (hlive : id ∈ s.live) (hadm : Admitted id s) (hdrop : e ≠ .drop id) (h : step s e = some t) :
    id ∈ t.live ∧ Admitted id t := by
  obtain ⟨new, what, -, hfresh, hapart, rfl⟩ | ⟨_, what, -, rfl⟩ | ⟨_, -, -, rfl⟩ | ⟨_, -, rfl⟩ |
    ⟨other, rfl, -, rfl⟩ := step_cases h
  · refine ⟨List.mem_cons_of_mem _ hlive, ?_⟩
    have hne : new ≠ id := fun hid => hfresh (hid ▸ (hs.live_iff id).mp hlive)
    intro a ha hid hp b hb hm
    have ha : a ∈ s.entries := by
      rcases List.mem_append.mp ha with ha | ha
      · exact ha
      · obtain rfl := List.mem_singleton.mp ha
        exact absurd hid hne
    rcases List.mem_append.mp hb with hb | hb
    · exact hadm a ha hid hp b hb hm
    · obtain rfl := List.mem_singleton.mp hb
      exact hapart a ha hp
  · exact ⟨hlive, hadm⟩
  · exact ⟨hlive, hadm⟩
  · exact ⟨hlive, hadm⟩
  · have hne : id ≠ other := fun hid => hdrop (hid ▸ rfl)
    refine ⟨(List.mem_erase_of_ne hne).mpr hlive, ?_⟩
    intro a ha hid hp b hb hm
    exact hadm a (mem_dropLease.mp ha).1 hid hp b (mem_dropLease.mp hb).1 hm

theorem admitted_exec {s t : State Id} {id : Id} {es : List (Event Id)} (hs : Invariant s)
    (hlive : id ∈ s.live) (hadm : Admitted id s) (hdrop : Event.drop id ∉ es)
    (h : exec step s es = some t) : Admitted id t := by
  let Held (s : State Id) : Prop := Invariant s ∧ id ∈ s.live ∧ Admitted id s
  have hstep {s t : State Id} {e : Event Id} (hI : Held s) (hne : e ≠ .drop id)
      (h : step s e = some t) : Held t :=
    ⟨invariant_step hI.1 h, admitted_step hI.1 hI.2.1 hI.2.2 hne h⟩
  have hne : ∀ e ∈ es, e ≠ .drop id := fun e he heq => hdrop (heq ▸ he)
  exact (exec_preserves hstep ⟨hs, hlive, hadm⟩ hne h).2.2

omit [DecidableEq Id] in
theorem entries_eq_nil {s : State Id} (hs : Invariant s) (h : s.live = []) : s.entries = [] := by
  refine List.eq_nil_iff_forall_not_mem.mpr fun e he => ?_
  have hl := (hs.live_iff e.1).mpr (List.mem_map.mpr ⟨e, he, rfl⟩)
  simp [h] at hl

theorem exec_drop_all {s : State Id} (hs : Invariant s) :
    exec step s (s.live.map .drop) = some init := by
  rcases s with ⟨entries, live⟩
  induction live generalizing entries with
  | nil =>
      obtain rfl : entries = [] := entries_eq_nil hs rfl
      rfl
  | cons id live ih =>
      have hstep : step ⟨entries, id :: live⟩ (.drop id) = some ⟨dropLease entries id, live⟩ := by
        simp [step]
      exact exec_cons.mpr ⟨_, hstep, ih _ (invariant_step hs hstep)⟩

omit [DecidableEq Id] in
theorem request_empty (id : Id) (what : Request) :
    request ([] : Entries Id) id what = (.ok id, [(id, what.entry)]) := by
  rw [request_eq]
  rfl

/-- Editors and writers exclude each other in every interleaving of
reservations, waits and drops. -/
theorem editors_and_writers_exclude {s : State Id} {es : List (Event Id)}
    (h : exec step init es = some s) :
    (∀ id, id ∈ s.live ↔ ∃ entry, lookup s.entries id = some entry) ∧
    (∀ id₁ id₂ a b, id₁ ≠ id₂ → lookup s.entries id₁ = some a → lookup s.entries id₂ = some b →
      Protects a → Protects b → overlaps a.targets b.targets = false) ∧
    (∀ es₁ es₂ id, es = es₁ ++ .ready id :: es₂ → .drop id ∉ es₂ →
      ∀ a, lookup s.entries id = some a → Protects a →
      ∀ writer b, lookup s.entries writer = some b → b.purpose = .mutation →
        overlaps a.targets b.targets = false) ∧
    (∀ id what error, (request s.entries id what).1 = .error error →
      (request s.entries id what).2 = s.entries) ∧
    exec step s (s.live.map .drop) = some init ∧
    (s.live = [] → s.entries = [] ∧ ∀ id what, (request s.entries id what).1 = .ok id) := by
  have hs := invariant_exec h
  refine ⟨?_, ?_, ?_, fun id what error => request_error, exec_drop_all hs, ?_⟩
  · intro id
    rw [hs.live_iff, ← lookup_isSome, Option.isSome_iff_exists]
  · intro id₁ id₂ a b hne ha hb
    exact hs.exclusive _ ((lookup_eq_some hs.nodup).mp ha) _ ((lookup_eq_some hs.nodup).mp hb) hne
  · rintro es₁ es₂ id rfl hdrop a ha hp writer b hb hm
    obtain ⟨u, hu, hrest⟩ := exec_append.mp h
    obtain ⟨v, hv, ht⟩ := exec_cons.mp hrest
    have hready : id ∈ u.live ∧ busy u.entries id = some false ∧ v = u := by
      simp only [step] at hv
      split at hv
      · rename_i hr
        exact ⟨hr.1, hr.2, (Option.some.inj hv).symm⟩
      · contradiction
    obtain ⟨hlive, hbusy, rfl⟩ := hready
    have hv := invariant_exec hu
    have hadm := admitted_exec hv hlive (admitted_ready hv hbusy) hdrop ht
    exact hadm _ ((lookup_eq_some hs.nodup).mp ha) rfl hp _ ((lookup_eq_some hs.nodup).mp hb) hm
  · intro hl
    have he := entries_eq_nil hs hl
    refine ⟨he, fun id what => ?_⟩
    rw [he, request_empty]

/-- An editor that has to wait for a writer, and turns a second writer away. -/
def contended : List (Event Nat) :=
  [.reserve 0 (.mutation (some [⟨none, "docs"⟩])), .reserve 1 (.editing ⟨some "DATA", "DOCS"⟩),
    .reserve 2 (.mutation none), .waiting 1, .drop 0, .ready 1, .reserve 3 (.mutation (some [⟨none, "tags"⟩]))]

def contendedEnd : State Nat :=
  ⟨[(1, ⟨some [⟨some "DATA", "DOCS"⟩], .manual⟩), (3, ⟨some [⟨none, "tags"⟩], .mutation⟩)], [3, 1]⟩

theorem contended_excludes :
    exec step init contended = some contendedEnd ∧
      overlaps (some [⟨some "DATA", "DOCS"⟩]) (some [⟨none, "tags"⟩]) = false := by
  have hrun : exec step init contended = some contendedEnd := by decide
  refine ⟨hrun, ?_⟩
  exact (editors_and_writers_exclude hrun).2.2.1 (contended.take 5) (contended.drop 6) 1 (by decide)
    (by decide) ⟨some [⟨some "DATA", "DOCS"⟩], .manual⟩ (by decide) (by simp [Protects]) 3
    ⟨some [⟨none, "tags"⟩], .mutation⟩ (by decide) rfl

end Wordflow.Protection
