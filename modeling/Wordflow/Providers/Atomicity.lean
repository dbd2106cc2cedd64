import Wordflow.Providers.Connections

namespace Wordflow.Providers

open Library Library.Attempt

section Runs

variable {Id : Type} [LinearOrder Id]

inductive Operation (Id : Type)
  | create (id revision : Id) (request : CreateConnection)
  | update (id revision : Id) (request : UpdateConnection)
  | annotationConcurrency (id : Id) (concurrency : Nat)
  | remove (id : Id)

def perform (host : Host Id) (faults : Faults) : Operation Id → Attempt Error (Stores Id) (Option (ConnectionInfo Id))
  | .create id revision request => some <$> create host faults id revision request
  | .update id revision request => some <$> update host faults id revision request
  | .annotationConcurrency id concurrency => some <$> annotationConcurrency faults id concurrency
  | .remove id => do
      remove faults id
      return none

/-- The identity of a new connection is not in use. -/
def Operation.Fresh (s : Stores Id) : Operation Id → Prop
  | .create id _ _ => s.connections.get? id = none
  | _ => True

def Stores.empty : Stores Id := ⟨.empty, none, .empty, .empty⟩

/-- The runs from no connections in which every change back succeeds. -/
inductive Reachable (host : Host Id) : Stores Id → Prop
  | start : Reachable host .empty
  | step {s t : Stores Id} {operation : Operation Id} {faults : Faults} {outcome : Except Error (Option (ConnectionInfo Id))}
      (h : Reachable host s) (hfresh : operation.Fresh s) (hrestore : faults.restore = none)
      (hrun : runOn (perform host faults operation) s = (outcome, t)) : Reachable host t

structure Consistent (s : Stores Id) : Prop where
  file : s.file.getD [] = s.connections.entries.map Prod.snd
  ids : ∀ id row, s.connections.get? id = some row → row.id = id
  secrets : ∀ id key, s.secrets.get? id = some key → ∃ row, s.connections.get? id = some row ∧ row.credentialMode = .remembered
  sessions : ∀ id key, s.sessions.get? id = some key → ∃ row, s.connections.get? id = some row ∧ row.credentialMode = .session

end Runs

section Calls

variable {Id : Type} [LinearOrder Id] {fault : Option Error} {s t : Stores Id} {row : Connection Id} {id : Id}

/-- The key that a connection uses. -/
def keyOf (s : Stores Id) (row : Connection Id) : Option String :=
  match row.credentialMode with
  | .none | .browser => none
  | .session => s.sessions.get? row.id
  | .remembered => s.secrets.get? row.id

theorem removeSecret_atomic (fault : Option Error) (id : Id) (s : Stores Id) : Atomic (removeSecret fault id) s := by
  intro e t h
  cases fault with
  | none => exact nomatch (Prod.mk.inj h).1
  | some _ => exact (Prod.mk.inj h).2.symm

theorem removeSecret_ok {a : Unit} (h : runOn (removeSecret fault id) s = (.ok a, t)) :
    t = { s with secrets := s.secrets.remove id } := by
  cases fault with
  | none => exact (Prod.mk.inj h).2.symm
  | some _ => exact nomatch (Prod.mk.inj h).1

theorem setSecret_atomic (fault : Option Error) (id : Id) (key : String) (s : Stores Id) : Atomic (setSecret fault id key) s := by
  intro e t h
  cases fault with
  | none => exact nomatch (Prod.mk.inj h).1
  | some _ => exact (Prod.mk.inj h).2.symm

theorem setSecret_ok {key : String} {a : Unit} (h : runOn (setSecret fault id key) s = (.ok a, t)) :
    t = { s with secrets := s.secrets.insert id key } := by
  cases fault with
  | none => exact (Prod.mk.inj h).2.symm
  | some _ => exact nomatch (Prod.mk.inj h).1

variable {rows : OrderedMap.Map Id (Connection Id)}

theorem persist_atomic (fault : Option Error) (rows : OrderedMap.Map Id (Connection Id)) (s : Stores Id) :
    Atomic (persist fault rows) s := by
  intro e t h
  cases fault with
  | none => exact nomatch (Prod.mk.inj h).1
  | some _ => exact (Prod.mk.inj h).2.symm

theorem persist_ok {a : Unit} (h : runOn (persist fault rows) s = (.ok a, t)) :
    t = { s with file := some (rows.entries.map Prod.snd) } := by
  cases fault with
  | none => exact (Prod.mk.inj h).2.symm
  | some _ => exact nomatch (Prod.mk.inj h).1

theorem connection_quiet (id : Id) (s : Stores Id) : Quiet (connection id) s := by
  intro r t h
  rw [connection, runOn_bind, runOn_get] at h
  simp only at h
  split at h
  · exact (Prod.mk.inj h).2.symm
  · exact (Prod.mk.inj h).2.symm

theorem connection_ok (h : runOn (connection id) s = (.ok row, t)) : s.connections.get? id = some row := by
  rw [connection, runOn_bind, runOn_get] at h
  simp only at h
  split at h
  · rename_i found hfound
    obtain ⟨rfl⟩ := (Prod.mk.inj h).1
    exact hfound
  · exact nomatch (Prod.mk.inj h).1

theorem credential_quiet (fault : Option Error) (row : Connection Id) (s : Stores Id) : Quiet (credential fault row) s := by
  intro r t h
  cases hmode : row.credentialMode with
  | none | browser | session =>
      rw [credential, hmode] at h
      exact (Prod.mk.inj h).2.symm
  | remembered =>
      rw [credential, hmode] at h
      cases fault with
      | none => exact (Prod.mk.inj h).2.symm
      | some _ => exact (Prod.mk.inj h).2.symm

theorem credential_ok {key : Option String} (h : runOn (credential fault row) s = (.ok key, t)) : key = keyOf s row := by
  cases hmode : row.credentialMode with
  | none | browser | session =>
      rw [credential, hmode] at h
      obtain ⟨rfl⟩ := (Prod.mk.inj h).1
      rw [keyOf, hmode]
  | remembered =>
      rw [credential, hmode] at h
      cases fault with
      | none =>
          obtain ⟨rfl⟩ := (Prod.mk.inj h).1
          rw [keyOf, hmode]
      | some _ => exact nomatch (Prod.mk.inj h).1

theorem previousKey_quiet (fault : Option Error) (row : Connection Id) (update : CredentialUpdate) (s : Stores Id) :
    Quiet (previousKey fault row update) s := by
  intro r t h
  cases update with
  | keep => exact (Prod.mk.inj h).2.symm
  | session | remember | browser | remove =>
      rw [previousKey, map_eq_pure_bind] at h
      · rcases (credential_quiet _ _ _).bind_cases h with ⟨_, -, rfl⟩ | ⟨_, -, h⟩
        · rfl
        · exact (Prod.mk.inj h).2.symm
      · exact nofun

theorem previousKey_ok {update : CredentialUpdate} {previous : Option (Option String)}
    (h : runOn (previousKey fault row update) s = (.ok previous, t)) : update = .keep ∧ previous = none ∨ previous = some (keyOf s row) := by
  cases update with
  | keep =>
      obtain ⟨⟨rfl⟩, -⟩ := Prod.mk.inj h
      exact .inl ⟨rfl, rfl⟩
  | session | remember | browser | remove =>
      rw [previousKey, map_eq_pure_bind] at h
      · rcases (credential_quiet _ _ _).bind_cases h with ⟨_, herror, -⟩ | ⟨key, hkey, h⟩
        · cases herror
        · obtain ⟨⟨rfl⟩, -⟩ := Prod.mk.inj h
          rw [credential_ok hkey]
          exact .inr rfl
      · exact nofun

/-- What the reply tells never fails. -/
theorem info_run (fault : Option Error) (row : Connection Id) (s : Stores Id) : ∃ reply, runOn (info fault row) s = (.ok reply, s) := by
  rw [info, result, runOn_bind, runOn_tryCatch, map_eq_pure_bind, runOn_bind]
  rcases hrun : runOn (credential fault row) s with ⟨e | key, t⟩
  · obtain rfl := credential_quiet _ _ _ _ _ hrun
    exact ⟨_, rfl⟩
  · obtain rfl := credential_quiet _ _ _ _ _ hrun
    exact ⟨_, rfl⟩

theorem validateEndpoint_quiet (host : Host Id) (provider : Provider) (endpoint : Option String) (s : Stores Id) :
    Quiet (validateEndpoint host provider endpoint) s := by
  intro r t h
  unfold validateEndpoint at h
  split at h
  · exact require_quiet _ _ _ _ _ h
  split at h
  · exact (Prod.mk.inj h).2.symm
  split at h
  · exact (Prod.mk.inj h).2.symm
  · exact require_quiet _ _ _ _ _ h

end Calls

section Keys

variable {Id : Type} [LinearOrder Id] {host : Host Id} {fault : Option Error} {s t : Stores Id} {row : Connection Id} {id : Id}

/-- The stores hold a key for a connection only as its mode says. -/
structure Owned (s : Stores Id) (id : Id) (mode : CredentialMode) : Prop where
  secret : ∀ key, s.secrets.get? id = some key → mode = .remembered
  session : ∀ key, s.sessions.get? id = some key → mode = .session

/-- Nothing but the keys of one connection differs. -/
structure Elsewhere (id : Id) (s t : Stores Id) : Prop where
  connections : t.connections = s.connections
  file : t.file = s.file
  secrets : ∀ other, other ≠ id → t.secrets.get? other = s.secrets.get? other
  sessions : ∀ other, other ≠ id → t.sessions.get? other = s.sessions.get? other

theorem Elsewhere.refl (id : Id) (s : Stores Id) : Elsewhere id s s := ⟨rfl, rfl, fun _ _ => rfl, fun _ _ => rfl⟩

/-- Stores that differ elsewhere are the same when they hold the same keys of that connection. -/
theorem Elsewhere.eq (h : Elsewhere id s t) (hsecret : t.secrets.get? id = s.secrets.get? id)
    (hsession : t.sessions.get? id = s.sessions.get? id) : t = s := by
  obtain ⟨hconnections, hfile, hsecrets, hsessions⟩ := h
  have hsecrets' : t.secrets = s.secrets := by
    apply OrderedMap.Map.ext_get?
    intro other
    by_cases hother : other = id
    · rw [hother, hsecret]
    · exact hsecrets other hother
  have hsessions' : t.sessions = s.sessions := by
    apply OrderedMap.Map.ext_get?
    intro other
    by_cases hother : other = id
    · rw [hother, hsession]
    · exact hsessions other hother
  obtain ⟨connections, file, sessions, secrets⟩ := t
  simp only at hconnections hfile hsecrets' hsessions'
  rw [hconnections, hfile, hsecrets', hsessions']

theorem Elsewhere.setSecrets (h : Elsewhere id s t) {secrets : OrderedMap.Map Id String}
    (hsecrets : ∀ other, other ≠ id → secrets.get? other = t.secrets.get? other) : Elsewhere id s { t with secrets := secrets } :=
  ⟨h.connections, h.file, fun other hother => (hsecrets other hother).trans (h.secrets other hother), h.sessions⟩

theorem Elsewhere.setSessions (h : Elsewhere id s t) {sessions : OrderedMap.Map Id String}
    (hsessions : ∀ other, other ≠ id → sessions.get? other = t.sessions.get? other) : Elsewhere id s { t with sessions := sessions } :=
  ⟨h.connections, h.file, h.secrets, fun other hother => (hsessions other hother).trans (h.sessions other hother)⟩

theorem Owned.no_secret {mode : CredentialMode} (h : Owned s id mode) (hmode : mode ≠ .remembered) : s.secrets.get? id = none :=
  Option.eq_none_iff_forall_ne_some.mpr fun key hkey => hmode (h.secret key hkey)

theorem Owned.no_session {mode : CredentialMode} (h : Owned s id mode) (hmode : mode ≠ .session) : s.sessions.get? id = none :=
  Option.eq_none_iff_forall_ne_some.mpr fun key hkey => hmode (h.session key hkey)

theorem forgetSecret_ok {c : Prop} [Decidable c] {a : Unit} (h : runOn (whenever c (removeSecret fault id)) s = (.ok a, t)) :
    t = { s with secrets := if c then s.secrets.remove id else s.secrets } := by
  by_cases hc : c
  · rw [whenever, if_pos hc] at h
    rw [if_pos hc]
    exact removeSecret_ok h
  · rw [whenever, if_neg hc] at h
    rw [if_neg hc]
    exact (Prod.mk.inj h).2.symm

/-- The keys of a connection after its secret is forgotten. -/
theorem forgotten (howned : Owned s id row.credentialMode) {secrets : OrderedMap.Map Id String}
    (h : secrets = if row.credentialMode = .remembered then s.secrets.remove id else s.secrets) :
    secrets.get? id = none ∧ ∀ other, other ≠ id → secrets.get? other = s.secrets.get? other := by
  by_cases hmode : row.credentialMode = .remembered
  · rw [h, if_pos hmode]
    exact ⟨OrderedMap.Map.get?_remove_self, fun other hother => OrderedMap.Map.get?_remove_of_ne hother⟩
  · rw [h, if_neg hmode]
    exact ⟨howned.no_secret hmode, fun _ _ => rfl⟩

theorem changeCredential_atomic (fault : Option Error) (row : Connection Id) (update : CredentialUpdate) (s : Stores Id) :
    Atomic (changeCredential host fault row update) s := by
  intro e t h
  cases update with
  | keep => exact nomatch (Prod.mk.inj h).1
  | browser =>
      rcases (require_quiet _ _ _).bind_cases h with ⟨_, -, rfl⟩ | ⟨_, -, h⟩
      · rfl
      · exact nomatch (Prod.mk.inj h).1
  | remember key =>
      rcases (require_quiet _ _ _).bind_cases h with ⟨_, -, rfl⟩ | ⟨_, -, h⟩
      · rfl
      rcases (require_quiet _ _ _).bind_cases h with ⟨_, -, rfl⟩ | ⟨_, -, h⟩
      · rfl
      rcases (setSecret_atomic _ _ _ _).bind_cases h with ⟨_, -, rfl⟩ | ⟨_, _, -, h⟩
      · rfl
      · exact nomatch (Prod.mk.inj h).1
  | session key =>
      rcases (require_quiet _ _ _).bind_cases h with ⟨_, -, rfl⟩ | ⟨_, -, h⟩
      · rfl
      rcases (require_quiet _ _ _).bind_cases h with ⟨_, -, rfl⟩ | ⟨_, -, h⟩
      · rfl
      rcases (whenever_atomic (removeSecret_atomic _ _ _)).bind_cases h with ⟨_, -, rfl⟩ | ⟨_, _, -, h⟩
      · rfl
      · exact nomatch (Prod.mk.inj h).1
  | remove =>
      rcases (whenever_atomic (removeSecret_atomic _ _ _)).bind_cases h with ⟨_, -, rfl⟩ | ⟨_, _, -, h⟩
      · rfl
      · exact nomatch (Prod.mk.inj h).1

/-- A key that is changed belongs to the connection as it is then. -/
theorem changeCredential_ok {update : CredentialUpdate} {row' : Connection Id} (hhost : host.browserOwned = false)
    (howned : Owned s row.id row.credentialMode) (h : runOn (changeCredential host fault row update) s = (.ok row', t)) :
    row'.id = row.id ∧ Elsewhere row.id s t ∧ Owned t row.id row'.credentialMode ∧ (update = .keep → t = s) := by
  cases update with
  | keep =>
      obtain ⟨⟨rfl⟩, rfl⟩ := Prod.mk.inj h
      exact ⟨rfl, .refl _ _, howned, fun _ => rfl⟩
  | browser =>
      rcases (require_quiet _ _ _).bind_cases h with ⟨_, herror, -⟩ | ⟨_, hx, -⟩
      · cases herror
      · exact absurd (hhost.symm.trans (require_ok hx)) Bool.false_ne_true
  | remember key =>
      rcases (require_quiet _ _ _).bind_cases h with ⟨_, herror, -⟩ | ⟨_, -, h⟩
      · cases herror
      rcases (require_quiet _ _ _).bind_cases h with ⟨_, herror, -⟩ | ⟨_, -, h⟩
      · cases herror
      rcases (setSecret_atomic _ _ _ _).bind_cases h with ⟨_, herror, -⟩ | ⟨_, _, hx, h⟩
      · cases herror
      obtain rfl := setSecret_ok hx
      obtain ⟨⟨rfl⟩, rfl⟩ := Prod.mk.inj h
      refine ⟨rfl, ?_, ⟨fun _ _ => rfl, fun key hkey => ?_⟩, fun heq => nomatch heq⟩
      · exact ((Elsewhere.refl _ _).setSecrets fun other hother => OrderedMap.Map.get?_insert_of_ne hother).setSessions
          fun other hother => OrderedMap.Map.get?_remove_of_ne hother
      · rw [OrderedMap.Map.get?_remove_self] at hkey
        cases hkey
  | session key =>
      rcases (require_quiet _ _ _).bind_cases h with ⟨_, herror, -⟩ | ⟨_, -, h⟩
      · cases herror
      rcases (require_quiet _ _ _).bind_cases h with ⟨_, herror, -⟩ | ⟨_, -, h⟩
      · cases herror
      rcases (whenever_atomic (removeSecret_atomic _ _ _)).bind_cases h with ⟨_, herror, -⟩ | ⟨_, _, hx, h⟩
      · cases herror
      obtain rfl := forgetSecret_ok hx
      obtain ⟨⟨rfl⟩, rfl⟩ := Prod.mk.inj h
      obtain ⟨hsecret, hsecrets⟩ := forgotten howned rfl
      refine ⟨rfl, ?_, ⟨fun key hkey => ?_, fun _ _ => rfl⟩, fun heq => nomatch heq⟩
      · exact ((Elsewhere.refl _ _).setSecrets hsecrets).setSessions fun other hother => OrderedMap.Map.get?_insert_of_ne hother
      · exact nomatch hsecret.symm.trans hkey
  | remove =>
      rcases (whenever_atomic (removeSecret_atomic _ _ _)).bind_cases h with ⟨_, herror, -⟩ | ⟨_, _, hx, h⟩
      · cases herror
      obtain rfl := forgetSecret_ok hx
      obtain ⟨⟨rfl⟩, rfl⟩ := Prod.mk.inj h
      obtain ⟨hsecret, hsecrets⟩ := forgotten howned rfl
      refine ⟨rfl, ?_, ⟨fun key hkey => ?_, fun key hkey => ?_⟩, fun heq => nomatch heq⟩
      · exact ((Elsewhere.refl _ _).setSecrets hsecrets).setSessions fun other hother => OrderedMap.Map.get?_remove_of_ne hother
      · exact nomatch hsecret.symm.trans hkey
      · rw [OrderedMap.Map.get?_remove_self] at hkey
        cases hkey

theorem restoreSecret_run {old new : Connection Id} (howned : Owned s old.id old.credentialMode)
    (howned' : Owned t old.id new.credentialMode) :
    ∃ secrets : OrderedMap.Map Id String, secrets.get? old.id = s.secrets.get? old.id ∧
      (∀ other, other ≠ old.id → secrets.get? other = t.secrets.get? other) ∧
      runOn (restoreSecret none old new (keyOf s old)) t = (.ok (), { t with secrets := secrets }) := by
  unfold restoreSecret
  by_cases hold : old.credentialMode = .remembered
  · rw [if_pos hold, keyOf, hold]
    cases hkey : s.secrets.get? old.id with
    | none =>
        refine ⟨t.secrets.remove old.id, OrderedMap.Map.get?_remove_self, fun other hother => ?_, ?_⟩
        · exact OrderedMap.Map.get?_remove_of_ne hother
        · rfl
    | some key =>
        refine ⟨t.secrets.insert old.id key, OrderedMap.Map.get?_insert_self, fun other hother => ?_, ?_⟩
        · exact OrderedMap.Map.get?_insert_of_ne hother
        · rfl
  · rw [if_neg hold, howned.no_secret hold, whenever]
    by_cases hnew : new.credentialMode = .remembered
    · rw [if_pos hnew]
      exact ⟨t.secrets.remove old.id, OrderedMap.Map.get?_remove_self, fun other hother => OrderedMap.Map.get?_remove_of_ne hother, rfl⟩
    · rw [if_neg hnew]
      exact ⟨t.secrets, howned'.no_secret hnew, fun _ _ => rfl, rfl⟩

theorem restoreSession_run {old : Connection Id} (howned : Owned s old.id old.credentialMode) (t : Stores Id) :
    ∃ sessions : OrderedMap.Map Id String, sessions.get? old.id = s.sessions.get? old.id ∧
      (∀ other, other ≠ old.id → sessions.get? other = t.sessions.get? other) ∧
      runOn (restoreSession old (keyOf s old)) t = (.ok (), { t with sessions := sessions }) := by
  have hremoved : (t.sessions.remove old.id).get? old.id = none := OrderedMap.Map.get?_remove_self
  unfold restoreSession
  rw [runOn_bind, runOn_modify]
  cases hold : old.credentialMode with
  | none | browser | remembered =>
      rw [howned.no_session (by rw [hold]; decide)]
      exact ⟨t.sessions.remove old.id, hremoved, fun other hother => OrderedMap.Map.get?_remove_of_ne hother, rfl⟩
  | session =>
      rw [keyOf, hold]
      simp only
      cases hkey : s.sessions.get? old.id with
      | none => exact ⟨t.sessions.remove old.id, hremoved, fun other hother => OrderedMap.Map.get?_remove_of_ne hother, rfl⟩
      | some key =>
          refine ⟨(t.sessions.remove old.id).insert old.id key, OrderedMap.Map.get?_insert_self, fun other hother => ?_, rfl⟩
          rw [OrderedMap.Map.get?_insert_of_ne hother, OrderedMap.Map.get?_remove_of_ne hother]

/-- A change back that succeeds gives the connection its key as it was. -/
theorem restoreCredential_run {old new : Connection Id} (howned : Owned s old.id old.credentialMode)
    (helse : Elsewhere old.id s t) (howned' : Owned t old.id new.credentialMode) :
    runOn (restoreCredential none old new (keyOf s old)) t = (.ok (), s) := by
  obtain ⟨secrets, hsecret, hsecrets, hrun⟩ := restoreSecret_run howned howned'
  obtain ⟨sessions, hsession, hsessions, hrun'⟩ := restoreSession_run howned { t with secrets := secrets }
  rw [restoreCredential, runOn_bind, hrun]
  simp only
  rw [hrun', ((helse.setSecrets hsecrets).setSessions hsessions).eq hsecret hsession]

theorem Consistent.owned (h : Consistent s) (hrow : s.connections.get? id = some row) : Owned s id row.credentialMode := by
  constructor
  · intro key hkey
    obtain ⟨found, hfound, hmode⟩ := h.secrets id key hkey
    obtain ⟨rfl⟩ := hrow.symm.trans hfound
    exact hmode
  · intro key hkey
    obtain ⟨found, hfound, hmode⟩ := h.sessions id key hkey
    obtain ⟨rfl⟩ := hrow.symm.trans hfound
    exact hmode

/-- A new identity has no key. -/
theorem Consistent.owned_fresh (h : Consistent s) (hfresh : s.connections.get? id = none) (mode : CredentialMode) : Owned s id mode := by
  constructor
  · intro key hkey
    obtain ⟨found, hfound, -⟩ := h.secrets id key hkey
    exact nomatch hfresh.symm.trans hfound
  · intro key hkey
    obtain ⟨found, hfound, -⟩ := h.sessions id key hkey
    exact nomatch hfresh.symm.trans hfound

theorem Consistent.committed (h : Consistent s) (helse : Elsewhere id s t) (hid : row.id = id) (howned : Owned t id row.credentialMode) :
    Consistent { t with
      file := some ((t.connections.insert id row).entries.map Prod.snd)
      connections := t.connections.insert id row } := by
  refine ⟨rfl, fun other found hfound => ?_, fun other key hkey => ?_, fun other key hkey => ?_⟩
  · by_cases hother : other = id
    · rw [hother, OrderedMap.Map.get?_insert_self] at hfound
      obtain ⟨rfl⟩ := hfound
      rw [hid, hother]
    · rw [OrderedMap.Map.get?_insert_of_ne hother, helse.connections] at hfound
      exact h.ids other found hfound
  · by_cases hother : other = id
    · subst hother
      exact ⟨row, OrderedMap.Map.get?_insert_self, howned.secret key hkey⟩
    · rw [OrderedMap.Map.get?_insert_of_ne hother, helse.connections]
      exact h.secrets other key ((helse.secrets other hother).symm.trans hkey)
  · by_cases hother : other = id
    · subst hother
      exact ⟨row, OrderedMap.Map.get?_insert_self, howned.session key hkey⟩
    · rw [OrderedMap.Map.get?_insert_of_ne hother, helse.connections]
      exact h.sessions other key ((helse.sessions other hother).symm.trans hkey)

theorem Consistent.removed (h : Consistent s) (helse : Elsewhere id s t) (hsecret : t.secrets.get? id = none)
    (hsession : t.sessions.get? id = none) :
    Consistent { t with
      file := some ((t.connections.remove id).entries.map Prod.snd)
      connections := t.connections.remove id } := by
  refine ⟨rfl, fun other found hfound => ?_, fun other key hkey => ?_, fun other key hkey => ?_⟩
  · rw [OrderedMap.Map.get?_remove, helse.connections] at hfound
    exact h.ids other found hfound.1
  · have hother : other ≠ id := by
      rintro rfl
      exact nomatch hsecret.symm.trans hkey
    rw [OrderedMap.Map.get?_remove_of_ne hother, helse.connections]
    exact h.secrets other key ((helse.secrets other hother).symm.trans hkey)
  · have hother : other ≠ id := by
      rintro rfl
      exact nomatch hsession.symm.trans hkey
    rw [OrderedMap.Map.get?_remove_of_ne hother, helse.connections]
    exact h.sessions other key ((helse.sessions other hother).symm.trans hkey)

/-- What is left of a new connection whose file could not be written. -/
theorem dropped_run (howned : Owned s id .none) (helse : Elsewhere id s t) (howned' : Owned t id row.credentialMode)
    (hid : row.id = id) (error : Error) :
    runOn (do
      modify fun s => { s with sessions := s.sessions.remove row.id }
      whenever (row.credentialMode = .remembered) (tryCatch (removeSecret none row.id) fun _ => pure ())
      throw error : Attempt Error (Stores Id) Unit) t = (.error error, s) := by
  subst hid
  obtain ⟨hsecret, hsecrets⟩ := forgotten howned' rfl
  have hrun : runOn (whenever (row.credentialMode = .remembered) (tryCatch (removeSecret none row.id) fun _ => pure ()))
      { t with sessions := t.sessions.remove row.id } = (.ok (), { t with
        sessions := t.sessions.remove row.id
        secrets := if row.credentialMode = .remembered then t.secrets.remove row.id else t.secrets }) := by
    rw [whenever]
    split
    · rfl
    · rfl
  rw [runOn_bind, runOn_modify]
  simp only
  rw [runOn_bind, hrun]
  simp only
  rw [runOn_throw, ((helse.setSecrets hsecrets).setSessions fun other hother => OrderedMap.Map.get?_remove_of_ne hother).eq
    (hsecret.trans (howned.no_secret (by decide)).symm)
    (OrderedMap.Map.get?_remove_self.trans (howned.no_session (by decide)).symm)]

end Keys

section Steps

variable {Id α : Type} [LinearOrder Id] {host : Host Id} {faults : Faults} {fault : Option Error} {s t u : Stores Id}
  {id revision : Id} {row : Connection Id}

/-- The file is written, or what was changed before is changed back. -/
theorem persist_or_undo {rows : OrderedMap.Map Id (Connection Id)} {undo : Error → Attempt Error (Stores Id) Unit}
    {rest : Unit → Attempt Error (Stores Id) α} {r : Except Error α} (hundo : ∀ e, runOn (undo e) t = (.error e, s))
    (h : runOn (tryCatch (persist fault rows) undo >>= rest) t = (r, u)) :
    (∃ e, r = .error e ∧ u = s) ∨ runOn (rest ()) { t with file := some (rows.entries.map Prod.snd) } = (r, u) := by
  rcases bind_cases h with ⟨e, hpersist, rfl⟩ | ⟨_, _, hpersist, hrest⟩
  · rcases catch_cases hpersist with ⟨_, -, herror⟩ | ⟨error, _, hfail, hback⟩
    · cases herror
    · obtain rfl := persist_atomic _ _ _ _ _ hfail
      rw [hundo] at hback
      exact .inl ⟨e, rfl, (Prod.mk.inj hback).2.symm⟩
  · rcases catch_cases hpersist with ⟨_, hwritten, -⟩ | ⟨error, _, hfail, hback⟩
    · obtain rfl := persist_ok hwritten
      exact .inr hrest
    · obtain rfl := persist_atomic _ _ _ _ _ hfail
      rw [hundo] at hback
      exact nomatch (Prod.mk.inj hback).1

theorem reply_run (fault : Option Error) (rows : OrderedMap.Map Id (Connection Id)) (row : Connection Id) (s : Stores Id) :
    ∃ reply, runOn (do
      modify fun s => { s with connections := rows }
      info fault row : Attempt Error (Stores Id) (ConnectionInfo Id)) s = (.ok reply, { s with connections := rows }) := by
  obtain ⟨reply, hreply⟩ := info_run fault row { s with connections := rows }
  exact ⟨reply, hreply⟩

/-- A step keeps the stores consistent, and leaves them as they are where it fails. -/
def Keeps (x : Attempt Error (Stores Id) α) (s : Stores Id) : Prop :=
  ∀ r t, runOn x s = (r, t) → (∃ e, r = .error e ∧ t = s) ∨ (∃ a, r = .ok a) ∧ Consistent t

theorem create_keeps (hhost : host.browserOwned = false) (h : Consistent s) (hfresh : s.connections.get? id = none)
    (hrestore : faults.restore = none) (request : CreateConnection) : Keeps (create host faults id revision request) s := by
  intro r t hrun
  rcases (require_quiet _ _ _).bind_cases hrun with herror | ⟨_, -, hrun⟩
  · exact .inl herror
  rcases (require_quiet _ _ _).bind_cases hrun with herror | ⟨_, -, hrun⟩
  · exact .inl herror
  rcases (validateEndpoint_quiet _ _ _ _).bind_cases hrun with herror | ⟨_, -, hrun⟩
  · exact .inl herror
  rcases (changeCredential_atomic _ _ _ _).bind_cases hrun with herror | ⟨row, s₁, hchange, hrun⟩
  · exact .inl herror
  obtain ⟨hid, helse, howned, -⟩ := changeCredential_ok hhost (h.owned_fresh hfresh _) hchange
  rw [runOn_bind, runOn_get, hrestore] at hrun
  rcases persist_or_undo (dropped_run (h.owned_fresh hfresh _) helse howned hid) hrun with herror | hrun
  · exact .inl herror
  obtain ⟨reply, hreply⟩ := reply_run faults.report (s₁.connections.insert row.id row) row
    { s₁ with file := some ((s₁.connections.insert row.id row).entries.map Prod.snd) }
  rw [hreply] at hrun
  obtain ⟨rfl, rfl⟩ := Prod.mk.inj hrun
  refine .inr ⟨⟨reply, rfl⟩, ?_⟩
  rw [hid]
  exact h.committed helse hid howned

theorem update_keeps (hhost : host.browserOwned = false) (h : Consistent s) (hrestore : faults.restore = none)
    (request : UpdateConnection) : Keeps (update host faults id revision request) s := by
  intro r t hrun
  rcases (require_quiet _ _ _).bind_cases hrun with herror | ⟨_, -, hrun⟩
  · exact .inl herror
  rcases (connection_quiet _ _).bind_cases hrun with herror | ⟨original, hrow, hrun⟩
  · exact .inl herror
  have horiginal := connection_ok hrow
  obtain rfl := h.ids id original horiginal
  have howned := h.owned horiginal
  rcases (previousKey_quiet _ _ _ _).bind_cases hrun with herror | ⟨previous, hkey, hrun⟩
  · exact .inl herror
  rcases (changeCredential_atomic _ _ _ _).bind_cases hrun with herror | ⟨row, s₁, hchange, hrun⟩
  · exact .inl herror
  obtain ⟨hid, helse, howned', hkeep⟩ := changeCredential_ok hhost (by exact howned) hchange
  rw [runOn_bind, runOn_get, hrestore] at hrun
  have hundo : ∀ error, runOn (do
      undoUpdate none original row previous
      throw error : Attempt Error (Stores Id) Unit) s₁ = (.error error, s) := by
    intro error
    rw [runOn_bind]
    rcases previousKey_ok hkey with ⟨hupdate, rfl⟩ | rfl
    · rw [hkeep hupdate]
      rfl
    · rw [undoUpdate, restoreCredential_run howned helse howned']
      rfl
  rcases persist_or_undo hundo hrun with herror | hrun
  · exact .inl herror
  obtain ⟨reply, hreply⟩ := reply_run faults.report (s₁.connections.insert original.id row) row
    { s₁ with file := some ((s₁.connections.insert original.id row).entries.map Prod.snd) }
  rw [hreply] at hrun
  obtain ⟨rfl, rfl⟩ := Prod.mk.inj hrun
  exact .inr ⟨⟨reply, rfl⟩, h.committed helse hid howned'⟩

theorem annotationConcurrency_keeps (h : Consistent s) (concurrency : Nat) : Keeps (annotationConcurrency faults id concurrency) s := by
  intro r t hrun
  rcases (connection_quiet _ _).bind_cases hrun with herror | ⟨row, hrow, hrun⟩
  · exact .inl herror
  rcases (require_quiet _ _ _).bind_cases hrun with herror | ⟨_, -, hrun⟩
  · exact .inl herror
  rw [runOn_bind, runOn_get] at hrun
  rcases (persist_atomic _ _ _).bind_cases hrun with herror | ⟨_, _, hpersist, hrun⟩
  · exact .inl herror
  obtain rfl := persist_ok hpersist
  have hfound := connection_ok hrow
  obtain ⟨reply, hreply⟩ := reply_run faults.report
    (s.connections.insert id { row with annotationConcurrency := some concurrency })
    { row with annotationConcurrency := some concurrency } { s with file := some _ }
  rw [hreply] at hrun
  obtain ⟨rfl, rfl⟩ := Prod.mk.inj hrun
  refine .inr ⟨⟨reply, rfl⟩, ?_⟩
  have howned := h.owned hfound
  exact h.committed (.refl _ _) (h.ids id row hfound) howned

theorem remove_keeps (h : Consistent s) (hrestore : faults.restore = none) : Keeps (remove faults id) s := by
  intro r t hrun
  rcases (connection_quiet _ _).bind_cases hrun with herror | ⟨row, hrow, hrun⟩
  · exact .inl herror
  have hfound := connection_ok hrow
  obtain rfl := h.ids id row hfound
  have howned := h.owned hfound
  rcases (credential_quiet _ _ _).bind_cases hrun with herror | ⟨previous, hkey, hrun⟩
  · exact .inl herror
  obtain rfl := credential_ok hkey
  rcases (whenever_atomic (removeSecret_atomic _ _ _)).bind_cases hrun with herror | ⟨_, s₁, hforget, hrun⟩
  · exact .inl herror
  obtain rfl := forgetSecret_ok hforget
  obtain ⟨hsecret, hsecrets⟩ := forgotten howned rfl
  have helse := (Elsewhere.refl row.id s).setSecrets hsecrets
  rw [runOn_bind, runOn_get, hrestore] at hrun
  have hundo : ∀ error, runOn (do
      restoreCredential none row row (keyOf s row)
      throw error : Attempt Error (Stores Id) Unit) { s with secrets :=
        if row.credentialMode = .remembered then s.secrets.remove row.id else s.secrets } = (.error error, s) := by
    intro error
    rw [runOn_bind, restoreCredential_run howned helse ⟨fun key hkey => (nomatch hsecret.symm.trans hkey), howned.session⟩]
    rfl
  rcases persist_or_undo hundo hrun with herror | hrun
  · exact .inl herror
  obtain ⟨rfl, rfl⟩ := Prod.mk.inj hrun
  have helse' := helse.setSessions fun other hother => OrderedMap.Map.get?_remove_of_ne hother
  exact .inr ⟨⟨(), rfl⟩, h.removed helse' hsecret OrderedMap.Map.get?_remove_self⟩

theorem Keeps.map {x : Attempt Error (Stores Id) α} {β : Type} {f : α → β} (hx : Keeps x s) : Keeps (f <$> x) s := by
  intro r t hrun
  rw [map_eq_pure_bind] at hrun
  rcases bind_cases hrun with ⟨e, hstep, rfl⟩ | ⟨a, s', hstep, hrest⟩
  · rcases hx _ _ hstep with ⟨_, -, rfl⟩ | ⟨⟨a, ha⟩, -⟩
    · exact .inl ⟨e, rfl, rfl⟩
    · cases ha
  · obtain ⟨rfl, rfl⟩ := Prod.mk.inj hrest
    rcases hx _ _ hstep with ⟨_, ha, -⟩ | ⟨-, h⟩
    · cases ha
    · exact .inr ⟨⟨_, rfl⟩, h⟩

theorem perform_keeps {operation : Operation Id} (hhost : host.browserOwned = false) (h : Consistent s)
    (hfresh : operation.Fresh s) (hrestore : faults.restore = none) : Keeps (perform host faults operation) s := by
  cases operation with
  | create id revision request => exact (create_keeps hhost h hfresh hrestore request).map
  | update id revision request => exact (update_keeps hhost h hrestore request).map
  | annotationConcurrency id concurrency => exact (annotationConcurrency_keeps h concurrency).map
  | remove id =>
      intro r t hrun
      rcases bind_cases hrun with ⟨e, hstep, rfl⟩ | ⟨a, s', hstep, hrest⟩
      · rcases remove_keeps h hrestore _ _ hstep with ⟨_, -, rfl⟩ | ⟨⟨a, ha⟩, -⟩
        · exact .inl ⟨e, rfl, rfl⟩
        · cases ha
      · obtain ⟨rfl, rfl⟩ := Prod.mk.inj hrest
        rcases remove_keeps h hrestore _ _ hstep with ⟨_, ha, -⟩ | ⟨-, hkeeps⟩
        · cases ha
        · exact .inr ⟨⟨_, rfl⟩, hkeeps⟩

theorem Reachable.consistent (hhost : host.browserOwned = false) (h : Reachable host s) : Consistent s := by
  induction h with
  | start => exact ⟨rfl, nofun, nofun, nofun⟩
  | step _ hfresh hrestore hrun ih =>
      rcases perform_keeps hhost ih hfresh hrestore _ _ hrun with ⟨_, -, rfl⟩ | ⟨-, hconsistent⟩
      · exact ih
      · exact hconsistent

/-- After any run, an operation that fails leaves the connections, their file and every key as they were, and the keys that
are kept are always those of connections that use them. -/
theorem failed_change_keeps_connections (hhost : host.browserOwned = false) (h : Reachable host s) {operation : Operation Id}
    {outcome : Except Error (Option (ConnectionInfo Id))} (hfresh : operation.Fresh s) (hrestore : faults.restore = none)
    (hrun : runOn (perform host faults operation) s = (outcome, t)) :
    Consistent t ∧ ∀ e, outcome = .error e → t.connections = s.connections ∧ t.file = s.file ∧
      ∀ id fault, (runOn (resolve host fault id) t).1 = (runOn (resolve host fault id) s).1 := by
  refine ⟨(h.step hfresh hrestore hrun).consistent hhost, ?_⟩
  rintro e rfl
  rcases perform_keeps hhost (h.consistent hhost) hfresh hrestore _ _ hrun with ⟨_, -, rfl⟩ | ⟨⟨_, ha⟩, -⟩
  · exact ⟨rfl, rfl, fun _ _ => rfl⟩
  · cases ha

end Steps

section Examples

def desktop : Host Nat where
  browserOwned := false
  requestKey := none
  parseUrl := fun _ => none
  apple := ⟨0, 0, "Apple Foundation Models (on-device)", .apple, none, .none, some 1⟩
  availability := .error ⟨"provider_unavailable", "Apple Foundation Models requires macOS 26 or later"⟩

def noFaults : Faults := ⟨none, none, none, none, none⟩

def diskFull : Faults := { noFaults with persist := some ⟨"io_error", "No space left on device"⟩ }

/-- The stores with one connection whose key is remembered. -/
def oneConnection : Stores Nat :=
  (runOn (perform desktop noFaults (.create 1 2 ⟨"Work", .openai, none, .remember "old"⟩)) .empty).2

theorem new_key_is_not_kept : ∃ t, runOn (perform desktop diskFull (.update 1 3 ⟨"Changed", .session "new"⟩)) oneConnection =
    (.error ⟨"io_error", "No space left on device"⟩, t) ∧ Consistent t ∧ t.connections = oneConnection.connections ∧
      (runOn (resolve desktop none 1) t).1 = (runOn (resolve desktop none 1) oneConnection).1 := by
  have hreach : Reachable desktop oneConnection :=
    @Reachable.step _ _ desktop _ _ (.create 1 2 ⟨"Work", .openai, none, .remember "old"⟩) noFaults _ .start rfl rfl Prod.mk.eta.symm
  have hrun : runOn (perform desktop diskFull (.update 1 3 ⟨"Changed", .session "new"⟩)) oneConnection =
      (.error ⟨"io_error", "No space left on device"⟩, oneConnection) := by decide
  obtain ⟨hconsistent, hkept⟩ := failed_change_keeps_connections rfl hreach (by trivial) rfl hrun
  obtain ⟨hconnections, -, hresolve⟩ := hkept _ rfl
  exact ⟨_, hrun, hconsistent, hconnections, hresolve 1 none⟩

end Examples

end Wordflow.Providers
