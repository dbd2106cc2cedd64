import Mathlib.Data.List.Nodup
import Wordflow.Gateway.Auth
import Wordflow.Library.Fallible

namespace Wordflow.Gateway

open Library Library.OrderedMap Library.Run Objects

section Protocol

variable {Digest : Type} [LinearOrder Digest] {auth : Auth Digest} {s t : State Digest}

def consumedSerial : Entry Digest → Option Nat
  | .consumed serial .. => some serial
  | _ => none

def grantedSerial : Entry Digest → Option Nat
  | .granted serial .. => some serial
  | _ => none

/-- The numbers of the sign-ins consumed so far. -/
def consumed (log : List (Entry Digest)) : List Nat := log.filterMap consumedSerial

/-- The numbers of the sign-ins that have a session. -/
def granted (log : List (Entry Digest)) : List Nat := log.filterMap grantedSerial

def Call.serial? : Call Digest → Option Nat
  | .exchanging login _ => some login.serial
  | .storing serial .. => some serial
  | _ => none

/-- A sign-in was issued and later consumed by a callback that presented its
state, its provider and its binding before it expired. -/
def Admitted (auth : Auth Digest) (log : List (Entry Digest)) (serial : Nat) : Prop :=
  ∃ (login : Login Digest) (provider : String) (query : Query) (headers : Headers) (instant : Nat),
    [.consumed serial provider query headers instant, .issued query.state login].Sublist log ∧
    login.serial = serial ∧ login.provider = provider ∧
    (cookie headers (loginCookie query.state)).map auth.hash = some login.binding ∧ instant < login.expires

omit [LinearOrder Digest] in
theorem Admitted.mono {log log' : List (Entry Digest)} {serial : Nat} (h : Admitted auth log serial)
    (hlog : log.Sublist log') : Admitted auth log' serial := by
  obtain ⟨login, provider, query, headers, instant, hsub, hrest⟩ := h
  exact ⟨login, provider, query, headers, instant, hsub.trans hlog, hrest⟩

/-- The pending sign-ins are issued, distinct, not yet consumed, and few. -/
structure Pending (s : State Digest) : Prop where
  limit : s.transactions.size ≤ pendingLimit
  issued : ∀ state login, s.transactions.get? state = some login →
    login.serial < s.issued ∧ .issued state login ∈ s.log ∧ login.serial ∉ consumed s.log
  distinct : ∀ state state' login login', s.transactions.get? state = some login →
    s.transactions.get? state' = some login' → login.serial = login'.serial → state = state'
  bounded : ∀ n ∈ consumed s.log, n < s.issued

/-- A consumed sign-in is at work in one call at most, or has its one session. -/
structure Once (auth : Auth Digest) (s : State Digest) : Prop where
  consumed_nodup : (consumed s.log).Nodup
  granted_nodup : (granted s.log).Nodup
  granted_consumed : ∀ n ∈ granted s.log, n ∈ consumed s.log
  working : ∀ id call n, s.calls.get? id = some call → call.serial? = some n →
    n ∈ consumed s.log ∧ n ∉ granted s.log ∧ Admitted auth s.log n
  alone : ∀ id id' call call' n, s.calls.get? id = some call → s.calls.get? id' = some call' →
    call.serial? = some n → call'.serial? = some n → id = id'
  evidence : ∀ after before n claims account token,
    s.log = after ++ .granted n claims account token :: before → Admitted auth before n

/-- The tables: identities and ids are unique, and every session was granted to
the account of its row. -/
structure Stored (s : State Digest) : Prop where
  ids : (s.accounts.map AccountRow.id).Nodup
  identities : (s.accounts.map fun row => (row.issuer, row.subject)).Nodup
  known : ∀ n claims account token, .granted n claims account token ∈ s.log →
    ∃ row ∈ s.accounts, row.id = account ∧ row.issuer = claims.issuer ∧ row.subject = claims.subject
  sessions : ∀ token row, s.sessions.get? token = some row →
    ∃ n claims, .granted n claims row.accountId token ∈ s.log

structure Invariant (auth : Auth Digest) (s : State Digest) : Prop where
  pending : Pending s
  once : Once auth s
  stored : Stored s

/-- An entry that neither consumes a sign-in nor grants a session. -/
def Entry.quiet (entry : Entry Digest) : Prop := consumedSerial entry = none ∧ grantedSerial entry = none

omit [LinearOrder Digest] in
theorem evidence_cons {entry : Entry Digest} {log : List (Entry Digest)} (hentry : grantedSerial entry = none)
    (h : ∀ after before n claims account token, log = after ++ .granted n claims account token :: before →
      Admitted auth before n)
    {after before : List (Entry Digest)} {n : Nat} {claims : Claims} {account : String} {token : Digest}
    (heq : entry :: log = after ++ .granted n claims account token :: before) : Admitted auth before n := by
  cases after with
  | nil =>
      obtain ⟨rfl, -⟩ := List.cons.inj heq
      simp [grantedSerial] at hentry
  | cons first rest => exact h rest before n claims account token (List.cons.inj heq).2

theorem Invariant.write {entry : Entry Digest} (hs : Invariant auth s) (hentry : entry.quiet) :
    Invariant auth (write s entry) := by
  have hconsumed : consumed (Gateway.write s entry).log = consumed s.log := by
    simp [consumed, Gateway.write, hentry.1]
  have hgranted : granted (Gateway.write s entry).log = granted s.log := by
    simp [granted, Gateway.write, hentry.2]
  refine ⟨⟨hs.pending.limit, fun state login h => ?_, hs.pending.distinct, ?_⟩,
    ⟨?_, ?_, ?_, fun id call n hid hn => ?_, hs.once.alone,
      fun after before n claims account token => evidence_cons hentry.2 hs.once.evidence⟩,
    ⟨hs.stored.ids, hs.stored.identities, fun n claims account token h => ?_, fun token row h => ?_⟩⟩
  · obtain ⟨hlt, hin, hnot⟩ := hs.pending.issued state login h
    exact ⟨hlt, List.mem_cons_of_mem _ hin, hconsumed ▸ hnot⟩
  · exact hconsumed ▸ hs.pending.bounded
  · exact hconsumed ▸ hs.once.consumed_nodup
  · exact hgranted ▸ hs.once.granted_nodup
  · exact hconsumed ▸ hgranted ▸ hs.once.granted_consumed
  · obtain ⟨hc, hg, ha⟩ := hs.once.working id call n hid hn
    exact ⟨hconsumed ▸ hc, hgranted ▸ hg, ha.mono (List.sublist_cons_self _ _)⟩
  · rcases List.mem_cons.mp h with rfl | h
    · simp [Entry.quiet, grantedSerial] at hentry
    · exact hs.stored.known n claims account token h
  · obtain ⟨n, claims, h⟩ := hs.stored.sessions token row h
    exact ⟨n, claims, List.mem_cons_of_mem _ h⟩

/-- Calls may end or go on, and sessions may go; the rest stays. -/
theorem Invariant.frame (hs : Invariant auth s) (htransactions : t.transactions = s.transactions)
    (hissued : t.issued = s.issued) (haccounts : t.accounts = s.accounts) (hlog : t.log = s.log)
    (hcalls : ∀ id call n, t.calls.get? id = some call → call.serial? = some n →
      ∃ call', s.calls.get? id = some call' ∧ call'.serial? = some n)
    (hsessions : ∀ token row, t.sessions.get? token = some row → s.sessions.get? token = some row) :
    Invariant auth t := by
  refine ⟨⟨?_, ?_, ?_, ?_⟩, ⟨?_, ?_, ?_, fun id call n hid hn => ?_, fun id id' call call' n hid hid' hn hn' => ?_, ?_⟩,
    ⟨?_, ?_, ?_, fun token row h => ?_⟩⟩
  · exact htransactions ▸ hs.pending.limit
  · rw [htransactions, hissued, hlog]
    exact hs.pending.issued
  · exact htransactions ▸ hs.pending.distinct
  · rw [hissued, hlog]
    exact hs.pending.bounded
  · exact hlog ▸ hs.once.consumed_nodup
  · exact hlog ▸ hs.once.granted_nodup
  · exact hlog ▸ hs.once.granted_consumed
  · obtain ⟨call', hcall', hn'⟩ := hcalls id call n hid hn
    exact hlog ▸ hs.once.working id call' n hcall' hn'
  · obtain ⟨c, hc, hcn⟩ := hcalls id call n hid hn
    obtain ⟨c', hc', hcn'⟩ := hcalls id' call' n hid' hn'
    exact hs.once.alone id id' c c' n hc hc' hcn hcn'
  · exact hlog ▸ hs.once.evidence
  · exact haccounts ▸ hs.stored.ids
  · exact haccounts ▸ hs.stored.identities
  · rw [hlog, haccounts]
    exact hs.stored.known
  · exact hlog ▸ hs.stored.sessions token row (hsessions token row h)

theorem Invariant.removeCall (hs : Invariant auth s) (id : Nat) :
    Invariant auth { s with calls := s.calls.remove id } :=
  hs.frame (t := { s with calls := s.calls.remove id }) rfl rfl rfl rfl
    (fun _ call _ hid hn => ⟨call, (Map.get?_remove.mp hid).1, hn⟩) (fun _ _ h => h)

theorem Invariant.finish {entry : Entry Digest} (hs : Invariant auth s) (id : Nat) (hentry : entry.quiet) :
    Invariant auth (finish s id entry) := (hs.removeCall id).write hentry

theorem Invariant.refuse (hs : Invariant auth s) (id : Nat) (error : Error) : Invariant auth (refuse s id error) :=
  (hs.removeCall id).write ⟨rfl, rfl⟩

/-- A call that works on no sign-in is set. -/
theorem Invariant.setCall {call : Call Digest} (hs : Invariant auth s) (id : Nat)
    (hcall : ∀ n, call.serial? = some n → ∃ call', s.calls.get? id = some call' ∧ call'.serial? = some n) :
    Invariant auth (setCall s id call) := by
  refine hs.frame (t := Gateway.setCall s id call) rfl rfl rfl rfl (fun id' call' n hid hn => ?_) (fun _ _ h => h)
  simp only [Gateway.setCall, Map.get?_insert] at hid
  split at hid
  · rename_i heq
    subst heq
    obtain rfl := Option.some.inj hid
    exact hcall n hn
  · exact ⟨call', hid, hn⟩

/-- A new sign-in has a number of its own. -/
theorem Invariant.issue (hs : Invariant auth s) (hroom : s.transactions.size < pendingLimit) {state : String}
    {login : Login Digest} (hserial : login.serial = s.issued) :
    Invariant auth (Gateway.write { s with
      transactions := s.transactions.insert state login
      issued := s.issued + 1 } (.issued state login)) := by
  have hold : ∀ key old, s.transactions.get? key = some old → old.serial ≠ s.issued := fun key old h =>
    (hs.pending.issued key old h).1.ne
  have hfresh : s.issued ∉ consumed s.log := fun h => Nat.lt_irrefl _ (hs.pending.bounded _ h)
  refine ⟨⟨length_insert_le.trans hroom, fun key old h => ?_, fun key key' old old' h h' heq => ?_, fun n hn => ?_⟩,
    ⟨hs.once.consumed_nodup, hs.once.granted_nodup, hs.once.granted_consumed, fun id call n hid hn => ?_,
      hs.once.alone, fun after before n claims account token => evidence_cons rfl hs.once.evidence⟩,
    ⟨hs.stored.ids, hs.stored.identities, fun n claims account token h => ?_, fun token row h => ?_⟩⟩
  · simp only [Gateway.write, Map.get?_insert] at h
    split at h
    · rename_i hkey
      obtain rfl := Option.some.inj h
      exact ⟨hserial ▸ Nat.lt_succ_self _, hkey ▸ List.mem_cons_self .., hserial ▸ hfresh⟩
    · obtain ⟨hlt, hin, hnot⟩ := hs.pending.issued key old h
      exact ⟨Nat.lt_succ_of_lt hlt, List.mem_cons_of_mem _ hin, hnot⟩
  · simp only [Gateway.write, Map.get?_insert] at h h'
    split at h <;> split at h'
    · rename_i hkey hkey'
      exact hkey.trans hkey'.symm
    · obtain rfl := Option.some.inj h
      exact absurd (heq.symm.trans hserial) (hold key' old' h')
    · obtain rfl := Option.some.inj h'
      exact absurd (heq.trans hserial) (hold key old h)
    · exact hs.pending.distinct key key' old old' h h' heq
  · exact Nat.lt_succ_of_lt (hs.pending.bounded n hn)
  · obtain ⟨hc, hg, ha⟩ := hs.once.working id call n hid hn
    exact ⟨hc, hg, ha.mono (List.sublist_cons_self _ _)⟩
  · exact hs.stored.known n claims account token ((List.mem_cons.mp h).resolve_left (by simp))
  · obtain ⟨n, claims, h⟩ := hs.stored.sessions token row h
    exact ⟨n, claims, List.mem_cons_of_mem _ h⟩

theorem Invariant.login (hs : Invariant auth s) (id : Nat) (provider state nonce verifier binding : String) :
    Invariant auth (login auth s id provider state nonce verifier binding) := by
  simp only [Gateway.login]
  split
  · exact hs.refuse id _
  · have hretained : Invariant auth { s with
        transactions := s.transactions.filter fun _ login => s.instant < login.expires } := by
      refine ⟨⟨?_, fun key login h => ?_, fun key key' login login' h h' => ?_, hs.pending.bounded⟩,
        { hs.once with }, { hs.stored with }⟩
      · exact (List.length_filter_le _ _).trans hs.pending.limit
      · exact hs.pending.issued key login (Map.get?_filter _ |>.mp h).1
      · exact hs.pending.distinct key key' login login' (Map.get?_filter _ |>.mp h).1 (Map.get?_filter _ |>.mp h').1
    split
    · exact hretained.refuse id _
    · rename_i hfull
      exact hretained.issue (not_le.mp hfull) rfl

/-- A pending sign-in is taken out, and recorded as consumed. -/
theorem Invariant.consume (hs : Invariant auth s) {query : Query} {login : Login Digest}
    (hlogin : s.transactions.get? query.state = some login) (provider : String) (headers : Headers) :
    Invariant auth (Gateway.write { s with transactions := s.transactions.remove query.state }
      (.consumed login.serial provider query headers s.instant)) := by
  obtain ⟨hlt, hin, hnot⟩ := hs.pending.issued _ _ hlogin
  refine ⟨⟨?_, fun key old h => ?_, fun key key' old old' h h' heq => ?_, fun n hn => ?_⟩,
    ⟨?_, hs.once.granted_nodup, fun n hn => List.mem_cons_of_mem _ (hs.once.granted_consumed n hn),
      fun id call n hid hn => ?_, hs.once.alone,
      fun after before n claims account token => evidence_cons rfl hs.once.evidence⟩,
    ⟨hs.stored.ids, hs.stored.identities, fun n claims account token h => ?_, fun token row h => ?_⟩⟩
  · exact (List.length_filter_le _ _).trans hs.pending.limit
  · obtain ⟨hget, hne⟩ := Map.get?_remove.mp h
    obtain ⟨hlt', hin', hnot'⟩ := hs.pending.issued key old hget
    refine ⟨hlt', List.mem_cons_of_mem _ hin', ?_⟩
    simp only [consumed, Gateway.write, List.filterMap_cons, consumedSerial, List.mem_cons, not_or]
    exact ⟨fun heq => hne (hs.pending.distinct key _ old login hget hlogin heq), hnot'⟩
  · exact hs.pending.distinct key key' old old' (Map.get?_remove.mp h).1 (Map.get?_remove.mp h').1 heq
  · simp only [consumed, Gateway.write, List.filterMap_cons, consumedSerial, List.mem_cons] at hn
    rcases hn with rfl | hn
    · exact hlt
    · exact hs.pending.bounded n hn
  · simp only [consumed, Gateway.write, List.filterMap_cons, consumedSerial]
    exact List.nodup_cons.mpr ⟨hnot, hs.once.consumed_nodup⟩
  · obtain ⟨hc, hg, ha⟩ := hs.once.working id call n hid hn
    exact ⟨List.mem_cons_of_mem _ hc, hg, ha.mono (List.sublist_cons_self _ _)⟩
  · exact hs.stored.known n claims account token ((List.mem_cons.mp h).resolve_left (by simp))
  · obtain ⟨n, claims, h⟩ := hs.stored.sessions token row h
    exact ⟨n, claims, List.mem_cons_of_mem _ h⟩

/-- A consumed sign-in goes to work in a new call. -/
theorem Invariant.employ {call : Call Digest} {n : Nat} (hs : Invariant auth s) {id : Nat}
    (hserial : call.serial? = some n) (hconsumed : n ∈ consumed s.log) (hgranted : n ∉ granted s.log)
    (hadmitted : Admitted auth s.log n)
    (hfree : ∀ id' call', s.calls.get? id' = some call' → call'.serial? ≠ some n) :
    Invariant auth (Gateway.setCall s id call) := by
  refine ⟨{ hs.pending with }, { hs.once with working := ?_, alone := ?_ }, { hs.stored with }⟩
  · intro id' call' m hid hm
    simp only [Gateway.setCall, Map.get?_insert] at hid
    split at hid
    · obtain rfl := Option.some.inj hid
      obtain rfl := Option.some.inj (hserial.symm.trans hm)
      exact ⟨hconsumed, hgranted, hadmitted⟩
    · exact hs.once.working id' call' m hid hm
  · intro id' id'' call' call'' m hid hid' hm hm'
    simp only [Gateway.setCall, Map.get?_insert] at hid hid'
    split at hid <;> split at hid'
    · rename_i heq heq'
      exact heq.trans heq'.symm
    · obtain rfl := Option.some.inj hid
      obtain rfl := Option.some.inj (hserial.symm.trans hm)
      exact absurd hm' (hfree id'' call'' hid')
    · obtain rfl := Option.some.inj hid'
      obtain rfl := Option.some.inj (hserial.symm.trans hm')
      exact absurd hm (hfree id' call' hid)
    · exact hs.once.alone id' id'' call' call'' m hid hid' hm hm'

theorem Invariant.callback (hs : Invariant auth s) (id : Nat) (provider : String) (query : Query) (headers : Headers) :
    Invariant auth (callback auth s id provider query headers) := by
  simp only [Gateway.callback]
  split
  · exact hs.refuse id _
  · rename_i login hlogin
    have hconsumed := hs.consume hlogin provider headers
    obtain ⟨-, hin, hnot⟩ := hs.pending.issued _ _ hlogin
    split
    · exact hconsumed.refuse id _
    · rename_i hmatch
      simp only [not_or, ne_eq, not_not, not_le] at hmatch
      split
      · exact hconsumed.refuse id _
      · split
        · exact hconsumed.refuse id _
        · refine hconsumed.employ (n := login.serial) rfl ?_ ?_ ?_ ?_
          · exact List.mem_cons_self ..
          · exact fun h => hnot (hs.once.granted_consumed _ h)
          · refine ⟨login, provider, query, headers, s.instant, ?_, rfl, hmatch.1, hmatch.2.2, hmatch.2.1⟩
            exact (List.singleton_sublist.mpr hin).cons_cons _
          · exact fun id' call' hid hn => hnot (hs.once.working id' call' _ hid hn).1

/-- An account keeps its id and its identity whatever its name becomes. -/
def AccountRow.rename (claims : Claims) (row : AccountRow) : AccountRow :=
  if row.issuer = claims.issuer ∧ row.subject = claims.subject then { row with name := claims.name } else row

@[simp]
theorem AccountRow.rename_id (claims : Claims) (row : AccountRow) : (row.rename claims).id = row.id := by
  unfold rename
  split <;> rfl

@[simp]
theorem AccountRow.rename_issuer (claims : Claims) (row : AccountRow) : (row.rename claims).issuer = row.issuer := by
  unfold rename
  split <;> rfl

@[simp]
theorem AccountRow.rename_subject (claims : Claims) (row : AccountRow) :
    (row.rename claims).subject = row.subject := by
  unfold rename
  split <;> rfl

theorem provision_cases {claims : Claims} {uuid account : String} {accounts : List AccountRow}
    (h : provision s claims uuid = .ok (account, accounts)) :
    (∃ found ∈ s.accounts, found.issuer = claims.issuer ∧ found.subject = claims.subject ∧ found.id = account ∧
      accounts = s.accounts.map (AccountRow.rename claims)) ∨
    ((∀ row ∈ s.accounts, ¬ (row.issuer = claims.issuer ∧ row.subject = claims.subject)) ∧
      (∀ row ∈ s.accounts, row.id ≠ account) ∧
      accounts = s.accounts ++ [⟨account, claims.issuer, claims.subject, claims.name⟩]) := by
  simp only [provision] at h
  split at h
  · rename_i found hfound
    obtain ⟨rfl, rfl⟩ := Prod.mk.inj (Except.ok.inj h)
    have hmatch : found.issuer = claims.issuer ∧ found.subject = claims.subject := by
      simpa using List.find?_some hfound
    exact .inl ⟨found, List.mem_of_find?_eq_some hfound, hmatch.1, hmatch.2, rfl, rfl⟩
  · rename_i hnone
    split at h
    · contradiction
    · rename_i hany
      obtain ⟨rfl, rfl⟩ := Prod.mk.inj (Except.ok.inj h)
      refine .inr ⟨fun row hrow => ?_, fun row hrow heq => ?_, rfl⟩
      · simpa using List.find?_eq_none.mp hnone row hrow
      · exact hany (List.any_eq_true.mpr ⟨row, hrow, by simpa using heq⟩)

theorem provision_spec {claims : Claims} {uuid account : String} {accounts : List AccountRow}
    (hids : (s.accounts.map AccountRow.id).Nodup)
    (hpairs : (s.accounts.map fun row => (row.issuer, row.subject)).Nodup)
    (h : provision s claims uuid = .ok (account, accounts)) :
    (accounts.map AccountRow.id).Nodup ∧ (accounts.map fun row => (row.issuer, row.subject)).Nodup ∧
      (∀ row ∈ s.accounts, ∃ row' ∈ accounts, row'.id = row.id ∧ row'.issuer = row.issuer ∧ row'.subject = row.subject) ∧
      ∃ row ∈ accounts, row.id = account ∧ row.issuer = claims.issuer ∧ row.subject = claims.subject := by
  rcases provision_cases h with ⟨found, hfound, hissuer, hsubject, rfl, rfl⟩ | ⟨hnew, hfree, rfl⟩
  · refine ⟨by simpa [Function.comp_def] using hids, by simpa [Function.comp_def] using hpairs, fun row hrow => ?_, ?_⟩
    · exact ⟨row.rename claims, List.mem_map_of_mem hrow, by simp⟩
    · exact ⟨found.rename claims, List.mem_map_of_mem hfound, by simp [hissuer, hsubject]⟩
  · refine ⟨?_, ?_, fun row hrow => ⟨row, List.mem_append_left _ hrow, rfl, rfl, rfl⟩,
      ⟨_, List.mem_append_right _ (List.mem_singleton_self _), rfl, rfl, rfl⟩⟩
    · rw [List.map_append, List.map_singleton]
      refine List.Nodup.append hids (List.nodup_singleton _) (List.disjoint_singleton.mpr ?_)
      rintro hmem
      obtain ⟨row, hrow, heq⟩ := List.mem_map.mp hmem
      exact hfree row hrow heq
    · rw [List.map_append, List.map_singleton]
      refine List.Nodup.append hpairs (List.nodup_singleton _) (List.disjoint_singleton.mpr ?_)
      rintro hmem
      obtain ⟨row, hrow, heq⟩ := List.mem_map.mp hmem
      exact hnew row hrow (Prod.mk.inj heq)

theorem store_cases {claims : Claims} {session csrf uuid account : String} {time : Nat} {accounts : List AccountRow}
    {sessions : Map Digest (SessionRow Digest)}
    (h : store auth s claims session csrf uuid time = .ok (account, accounts, sessions)) :
    provision s claims uuid = .ok (account, accounts) ∧
      sessions = (s.sessions.filter fun _ row => time < row.expires).insert (auth.hash session)
        ⟨auth.hash csrf, account, time + sessionSeconds⟩ ∧
      (s.sessions.filter fun _ row => time < row.expires).get? (auth.hash session) = none := by
  obtain ⟨⟨id, rows⟩, hprovision, h⟩ := Fallible.bind_eq_ok.mp h
  obtain ⟨hfree, hok⟩ := Fallible.guard_eq_ok.mp h
  obtain ⟨rfl, hrest⟩ := Prod.mk.inj (Except.ok.inj hok)
  obtain ⟨rfl, rfl⟩ := Prod.mk.inj hrest
  exact ⟨hprovision, rfl, by simpa [Map.contains] using hfree⟩

/-- A sign-in at work gets its session. -/
theorem Invariant.grant (hs : Invariant auth s) {id serial time : Nat} {claims : Claims}
    {session csrf uuid account : String} {accounts : List AccountRow} {sessions : Map Digest (SessionRow Digest)}
    (hcall : s.calls.get? id = some (.storing serial claims session csrf time))
    (h : store auth s claims session csrf uuid time = .ok (account, accounts, sessions)) :
    Invariant auth (Gateway.finish { s with
      accounts := accounts
      sessions := sessions } id (.granted serial claims account (auth.hash session))) := by
  obtain ⟨hprovision, rfl, -⟩ := store_cases h
  obtain ⟨hids, hpairs, hkept, row, hrow⟩ := provision_spec hs.stored.ids hs.stored.identities hprovision
  obtain ⟨hconsumed, hgranted, hadmitted⟩ := hs.once.working id _ serial hcall rfl
  refine ⟨⟨hs.pending.limit, fun key login hkey => ?_, hs.pending.distinct, hs.pending.bounded⟩,
    ⟨hs.once.consumed_nodup, ?_, fun n hn => ?_, fun id' call n hid hn => ?_, fun id' id'' call call' n hid hid' => ?_,
      fun after before n claims' account' token heq => ?_⟩,
    ⟨hids, hpairs, fun n claims' account' token hmem => ?_, fun token row' hget => ?_⟩⟩
  · obtain ⟨hlt, hin, hnot⟩ := hs.pending.issued key login hkey
    exact ⟨hlt, List.mem_cons_of_mem _ hin, hnot⟩
  · exact List.nodup_cons.mpr ⟨hgranted, hs.once.granted_nodup⟩
  · rcases List.mem_cons.mp hn with rfl | hn
    · exact hconsumed
    · exact hs.once.granted_consumed n hn
  · obtain ⟨hget, hne⟩ := Map.get?_remove.mp hid
    obtain ⟨hc, hg, ha⟩ := hs.once.working id' call n hget hn
    refine ⟨hc, fun hmem => ?_, ha.mono (List.sublist_cons_self _ _)⟩
    rcases List.mem_cons.mp hmem with rfl | hmem
    · exact hne (hs.once.alone id' id call _ n hget hcall hn rfl)
    · exact hg hmem
  · exact hs.once.alone id' id'' call call' n (Map.get?_remove.mp hid).1 (Map.get?_remove.mp hid').1
  · cases after with
    | nil =>
        obtain ⟨hentry, rfl⟩ := List.cons.inj heq
        injection hentry with hn
        exact hn ▸ hadmitted
    | cons first rest => exact hs.once.evidence rest before n claims' account' token (List.cons.inj heq).2
  · rcases List.mem_cons.mp hmem with heq | hmem
    · injection heq with hn hclaims haccount htoken
      subst hclaims haccount
      exact ⟨row, hrow⟩
    · obtain ⟨old, hold, hid, hissuer, hsubject⟩ := hs.stored.known n claims' account' token hmem
      obtain ⟨new, hnew, hid', hissuer', hsubject'⟩ := hkept old hold
      exact ⟨new, hnew, hid'.trans hid, hissuer'.trans hissuer, hsubject'.trans hsubject⟩
  · simp only [Gateway.finish, Gateway.write, Map.get?_insert] at hget
    split at hget
    · rename_i htoken
      obtain rfl := Option.some.inj hget
      exact ⟨serial, claims, htoken ▸ List.mem_cons_self ..⟩
    · obtain ⟨n, claims', hmem⟩ := hs.stored.sessions token row' (Map.get?_filter _ |>.mp hget).1
      exact ⟨n, claims', List.mem_cons_of_mem _ hmem⟩

theorem Invariant.work (hs : Invariant auth s) {id : Nat} {uuid : String} {call : Call Digest}
    (hcall : s.calls.get? id = some call) (h : work auth s id uuid call = some t) : Invariant auth t := by
  cases call with
  | storing serial claims session csrf time =>
      simp only [Gateway.work] at h
      split at h
      · obtain rfl := Option.some.inj h
        exact hs.refuse id _
      · rename_i account accounts sessions hstore
        obtain rfl := Option.some.inj h
        exact hs.grant hcall hstore
  | checking headers time =>
      simp only [Gateway.work] at h
      split at h
      · obtain rfl := Option.some.inj h
        exact hs.refuse id _
      · obtain rfl := Option.some.inj h
        exact hs.finish id ⟨rfl, rfl⟩
  | mutating headers time logout =>
      simp only [Gateway.work] at h
      split at h
      · obtain rfl := Option.some.inj h
        exact hs.refuse id _
      · split at h
        · obtain rfl := Option.some.inj h
          exact hs.setCall id (by simp [Call.serial?])
        · obtain rfl := Option.some.inj h
          exact hs.finish id ⟨rfl, rfl⟩
  | revoking headers =>
      simp only [Gateway.work] at h
      split at h
      · obtain rfl := Option.some.inj h
        exact hs.refuse id _
      · rename_i token htoken
        obtain rfl := Option.some.inj h
        have hremoved : Invariant auth { s with sessions := s.sessions.remove token } :=
          hs.frame (t := { s with sessions := s.sessions.remove token }) rfl rfl rfl rfl
            (fun _ call' _ hid hn => ⟨call', hid, hn⟩) (fun _ _ hget => (Map.get?_remove.mp hget).1)
        exact hremoved.setCall id (by simp [Call.serial?])
  | exchanging | announcing => contradiction

theorem Invariant.arrive (hs : Invariant auth s) {id : Nat} {call : Call Digest} (hcall : call.serial? = none)
    (h : arrive s id call = some t) : Invariant auth t := by
  simp only [Gateway.arrive, Option.ite_none_right_eq_some] at h
  obtain ⟨-, h⟩ := h
  obtain rfl := Option.some.inj h
  exact hs.setCall id (by simp [hcall])

theorem Invariant.step (hs : Invariant auth s) {e : Event} (h : step auth s e = some t) : Invariant auth t := by
  cases e with
  | tick instant now =>
      simp only [Gateway.step, Option.ite_none_right_eq_some] at h
      obtain ⟨-, h⟩ := h
      obtain rfl := Option.some.inj h
      exact hs.frame rfl rfl rfl rfl (fun _ call _ hid hn => ⟨call, hid, hn⟩) (fun _ _ hget => hget)
  | login id provider state nonce verifier binding =>
      simp only [Gateway.step, Option.ite_none_right_eq_some] at h
      obtain ⟨-, h⟩ := h
      obtain rfl := Option.some.inj h
      exact hs.login ..
  | callback id provider query headers =>
      simp only [Gateway.step, Option.ite_none_right_eq_some] at h
      obtain ⟨-, h⟩ := h
      obtain rfl := Option.some.inj h
      exact hs.callback ..
  | exchanged id claims session csrf =>
      simp only [Gateway.step] at h
      split at h
      · rename_i login code hcall
        obtain rfl := Option.some.inj h
        exact hs.setCall id fun n hn => ⟨_, hcall, hn⟩
      · contradiction
  | session id headers | mutation id headers | logout id headers => exact hs.arrive rfl h
  | work id uuid =>
      obtain ⟨call, hcall, h⟩ := Option.bind_eq_some_iff.mp h
      exact hs.work hcall h
  | announce id =>
      simp only [Gateway.step] at h
      split at h
      · obtain rfl := Option.some.inj h
        have hmoved : Invariant auth { s with sessionsChanged := s.sessionsChanged + 1 } :=
          hs.frame (t := { s with sessionsChanged := s.sessionsChanged + 1 }) rfl rfl rfl rfl
            (fun _ call _ hid hn => ⟨call, hid, hn⟩) (fun _ _ hget => hget)
        exact hmoved.finish id ⟨rfl, rfl⟩
      · contradiction
  | failed id =>
      simp only [Gateway.step] at h
      split at h
      · obtain rfl := Option.some.inj h
        exact hs.refuse id _
      · contradiction
      · contradiction
      · obtain rfl := Option.some.inj h
        exact hs.refuse id _

def start (Digest : Type) [LinearOrder Digest] : State Digest :=
  ⟨0, 0, .empty, [], .empty, 0, .empty, 0, []⟩

theorem invariant_start : Invariant auth (start Digest) where
  pending := ⟨Nat.zero_le _, fun _ _ h => by simp [start] at h, fun _ _ _ _ h => by simp [start] at h,
    fun n hn => by simp [start, consumed] at hn⟩
  once := ⟨List.nodup_nil, List.nodup_nil, fun n hn => by simp [start, granted] at hn,
    fun _ _ _ h => by simp [start] at h, fun _ _ _ _ _ h => by simp [start] at h,
    fun after before n claims account token h => by simp [start] at h⟩
  stored := ⟨List.nodup_nil, List.nodup_nil, fun n claims account token h => by simp [start] at h,
    fun _ _ h => by simp [start] at h⟩

theorem invariant_of_run {es : List Event} (h : exec (step auth) (start Digest) es = some s) : Invariant auth s :=
  exec_invariant (I := Invariant auth) (fun hs hstep => Invariant.step hs hstep) invariant_start h

/-- The requests and the sessions after a run. -/
structure Protocol (auth : Auth Digest) (s : State Digest) : Prop where
  consumed_once : (consumed s.log).Nodup
  granted_once : (granted s.log).Nodup
  admitted : ∀ after before n claims account token,
    s.log = after ++ .granted n claims account token :: before → Admitted auth before n
  account_iff : ∀ n n' claims claims' account account' token token',
    .granted n claims account token ∈ s.log → .granted n' claims' account' token' ∈ s.log →
    (account = account' ↔ claims.issuer = claims'.issuer ∧ claims.subject = claims'.subject)
  sessions : ∀ token row, s.sessions.get? token = some row → ∃ n claims, .granted n claims row.accountId token ∈ s.log
  authenticates_iff : ∀ id uuid headers time t, s.calls.get? id = some (.checking headers time) →
    step auth s (.work id uuid) = some t →
    ((∃ account, t.log = .authenticated id account :: s.log) ↔
      ∃ token row, presented auth headers = some token ∧ s.sessions.get? token = some row ∧ time < row.expires)
  mutates_iff : ∀ headers time, mutation auth s headers time = .ok () ↔ headers.origin = some auth.origin ∧
    ∃ token csrf row, presented auth headers = some token ∧ headers.csrf = some csrf ∧
      s.sessions.get? token = some row ∧ time < row.expires ∧ row.csrfHash = auth.hash csrf
  logout : ∀ id uuid headers t, s.calls.get? id = some (.revoking headers) → step auth s (.work id uuid) = some t →
    ∀ token, t.sessions.get? token = if presented auth headers = some token then none else s.sessions.get? token
  kept : ∀ e t token row, step auth s e = some t → s.sessions.get? token = some row →
    t.sessions.get? token = some row ∨
    (∃ id uuid headers, e = .work id uuid ∧ s.calls.get? id = some (.revoking headers) ∧
      presented auth headers = some token) ∨
    ∃ id uuid serial claims session csrf time, e = .work id uuid ∧
      s.calls.get? id = some (.storing serial claims session csrf time) ∧ row.expires ≤ time
  limit : s.transactions.size ≤ pendingLimit

theorem Stored.account_iff (hs : Stored s) {n n' : Nat} {claims claims' : Claims} {account account' : String}
    {token token' : Digest} (h : .granted n claims account token ∈ s.log)
    (h' : .granted n' claims' account' token' ∈ s.log) :
    account = account' ↔ claims.issuer = claims'.issuer ∧ claims.subject = claims'.subject := by
  obtain ⟨row, hrow, rfl, hissuer, hsubject⟩ := hs.known _ _ _ _ h
  obtain ⟨row', hrow', rfl, hissuer', hsubject'⟩ := hs.known _ _ _ _ h'
  rw [← hissuer, ← hsubject, ← hissuer', ← hsubject']
  constructor
  · intro heq
    obtain rfl := List.inj_on_of_nodup_map hs.ids hrow hrow' heq
    exact ⟨rfl, rfl⟩
  · rintro ⟨hi, hsub⟩
    obtain rfl := List.inj_on_of_nodup_map hs.identities hrow hrow' (Prod.ext hi hsub)
    rfl

theorem Stored.authenticates_iff (hs : Stored s) (headers : Headers) (time : Nat) :
    (∃ answer, session auth s headers time = .ok answer) ↔
      ∃ token row, presented auth headers = some token ∧ s.sessions.get? token = some row ∧ time < row.expires := by
  cases htoken : presented auth headers with
  | none => simp [session, htoken]
  | some token =>
      cases hfilter : (s.sessions.get? token).filter fun row => time < row.expires with
      | none =>
          simp only [session, htoken, hfilter, reduceCtorEq, exists_false, false_iff, not_exists, not_and]
          rintro _ row ⟨⟩ hrow hexpires
          simp only [hrow, Option.filter_some, hexpires, decide_true, if_true, reduceCtorEq] at hfilter
      | some row =>
          obtain ⟨hrow, hexpires⟩ : s.sessions.get? token = some row ∧ time < row.expires := by
            simpa [Option.filter_eq_some_iff] using hfilter
          obtain ⟨n, claims, hgranted⟩ := hs.sessions token row hrow
          obtain ⟨account, haccount, hid, -⟩ := hs.known _ _ _ _ hgranted
          have hfound : ∃ found, s.accounts.find? (fun account => account.id = row.accountId) = some found := by
            rw [← Option.isSome_iff_exists, List.find?_isSome]
            exact ⟨account, haccount, by simpa using hid⟩
          obtain ⟨found, hfound⟩ := hfound
          simp only [session, htoken, hfilter, hfound, true_iff, Except.ok.injEq, exists_eq']
          exact ⟨token, row, rfl, hrow, hexpires⟩

theorem Stored.checks (hs : Stored s) {id time : Nat} {uuid : String} {headers : Headers}
    (hcall : s.calls.get? id = some (.checking headers time)) (h : step auth s (.work id uuid) = some t) :
    (∃ account, t.log = .authenticated id account :: s.log) ↔
      ∃ token row, presented auth headers = some token ∧ s.sessions.get? token = some row ∧ time < row.expires := by
  rw [← hs.authenticates_iff]
  simp only [step, hcall, Option.bind_some, work] at h
  cases hsession : session auth s headers time with
  | error error =>
      rw [hsession] at h
      obtain rfl := Option.some.inj h
      simp [refuse, write]
  | ok answer =>
      rw [hsession] at h
      obtain rfl := Option.some.inj h
      simp [finish, write]

theorem mutation_iff {headers : Headers} {time : Nat} :
    mutation auth s headers time = .ok () ↔ headers.origin = some auth.origin ∧
      ∃ token csrf row, presented auth headers = some token ∧ headers.csrf = some csrf ∧
        s.sessions.get? token = some row ∧ time < row.expires ∧ row.csrfHash = auth.hash csrf := by
  unfold mutation
  by_cases horigin : headers.origin = some auth.origin
  · rw [if_neg (not_not.mpr horigin)]
    cases htoken : presented auth headers with
    | none => simp
    | some token =>
        cases hcsrf : headers.csrf with
        | none => simp
        | some csrf =>
            cases hrow : s.sessions.get? token with
            | none => simp [horigin, hrow]
            | some row =>
                by_cases htime : time < row.expires
                · by_cases hsame : row.csrfHash = auth.hash csrf <;>
                    simp [horigin, hrow, htime, hsame, Option.filter_some]
                · simp [horigin, hrow, htime, Option.filter_some]
  · simp [horigin]

theorem login_sessions (id : Nat) (provider state nonce verifier binding : String) :
    (login auth s id provider state nonce verifier binding).sessions = s.sessions := by
  unfold login
  split
  · rfl
  · dsimp only
    split <;> rfl

theorem callback_sessions (id : Nat) (provider : String) (query : Query) (headers : Headers) :
    (callback auth s id provider query headers).sessions = s.sessions := by
  unfold callback
  split
  · rfl
  · dsimp only
    split
    · rfl
    · split
      · rfl
      · split <;> rfl

/-- No step but the work of the database touches a session. -/
theorem step_sessions {e : Event} (h : step auth s e = some t) (he : ∀ id uuid, e ≠ .work id uuid) :
    t.sessions = s.sessions := by
  cases e with
  | work id uuid => exact absurd rfl (he id uuid)
  | tick =>
      simp only [step, Option.ite_none_right_eq_some] at h
      obtain ⟨-, h⟩ := h
      obtain rfl := Option.some.inj h
      rfl
  | login =>
      simp only [step, Option.ite_none_right_eq_some] at h
      obtain ⟨-, h⟩ := h
      obtain rfl := Option.some.inj h
      exact login_sessions ..
  | callback =>
      simp only [step, Option.ite_none_right_eq_some] at h
      obtain ⟨-, h⟩ := h
      obtain rfl := Option.some.inj h
      exact callback_sessions ..
  | session | mutation | logout =>
      simp only [step, arrive, Option.ite_none_right_eq_some] at h
      obtain ⟨-, h⟩ := h
      obtain rfl := Option.some.inj h
      rfl
  | exchanged | announce =>
      simp only [step] at h
      split at h
      · obtain rfl := Option.some.inj h
        rfl
      · contradiction
  | failed =>
      simp only [step] at h
      split at h
      · obtain rfl := Option.some.inj h
        rfl
      · contradiction
      · contradiction
      · obtain rfl := Option.some.inj h
        rfl

/-- What the database does to a session: only a logout that presents it, or a
sign-in that finds it expired, takes it away. -/
theorem work_sessions {id : Nat} {uuid : String} {call : Call Digest} (h : work auth s id uuid call = some t)
    {token : Digest} {row : SessionRow Digest} (hrow : s.sessions.get? token = some row) :
    t.sessions.get? token = some row ∨
    (∃ headers, call = .revoking headers ∧ presented auth headers = some token) ∨
    ∃ serial claims session csrf time, call = .storing serial claims session csrf time ∧ row.expires ≤ time := by
  cases call with
  | storing serial claims session csrf time =>
      simp only [work] at h
      split at h
      · obtain rfl := Option.some.inj h
        exact .inl hrow
      · rename_i account accounts sessions hstore
        obtain rfl := Option.some.inj h
        obtain ⟨-, rfl, hfresh⟩ := store_cases hstore
        by_cases hexpired : row.expires ≤ time
        · exact .inr (.inr ⟨serial, claims, session, csrf, time, rfl, hexpired⟩)
        · have hretained := (Map.get?_filter (fun _ row => time < row.expires)).mpr
            ⟨hrow, by simpa using hexpired⟩
          refine .inl ?_
          simp only [finish, write, Map.get?_insert]
          rw [if_neg, hretained]
          rintro rfl
          simp [hretained] at hfresh
  | checking headers time =>
      simp only [work] at h
      split at h <;> obtain rfl := Option.some.inj h <;> exact .inl hrow
  | mutating headers time logout =>
      simp only [work] at h
      split at h
      · obtain rfl := Option.some.inj h
        exact .inl hrow
      · split at h <;> obtain rfl := Option.some.inj h <;> exact .inl hrow
  | revoking headers =>
      simp only [work] at h
      split at h
      · obtain rfl := Option.some.inj h
        exact .inl hrow
      · rename_i shown hshown
        obtain rfl := Option.some.inj h
        by_cases heq : token = shown
        · exact .inr (.inl ⟨headers, rfl, heq ▸ hshown⟩)
        · exact .inl (by simpa only [setCall, Map.get?_remove_of_ne heq] using hrow)
  | exchanging | announcing => contradiction

theorem login_protocol {es : List Event} (h : exec (step auth) (start Digest) es = some s) : Protocol auth s := by
  have hs : Invariant auth s := invariant_of_run h
  refine ⟨hs.once.consumed_nodup, hs.once.granted_nodup, hs.once.evidence,
    fun _ _ _ _ _ _ _ _ hg hg' => hs.stored.account_iff hg hg', hs.stored.sessions,
    fun id uuid headers time t hcall hstep => hs.stored.checks hcall hstep, fun headers time => mutation_iff,
    fun id uuid headers t hcall hstep token => ?_, fun e t token row hstep hrow => ?_, hs.pending.limit⟩
  · simp only [step, hcall, Option.bind_some, work] at hstep
    split at hstep
    · rename_i hnone
      obtain rfl := Option.some.inj hstep
      simp [hnone, refuse, write]
    · rename_i shown hshown
      obtain rfl := Option.some.inj hstep
      by_cases heq : token = shown
      · subst heq
        simp [setCall, hshown, Map.get?_remove_self]
      · rw [if_neg (by rw [hshown]; rintro ⟨⟩; exact heq rfl)]
        exact Map.get?_remove_of_ne heq
  · by_cases hwork : ∃ id uuid, e = .work id uuid
    · obtain ⟨id, uuid, rfl⟩ := hwork
      obtain ⟨call, hcall, hstep⟩ := Option.bind_eq_some_iff.mp hstep
      rcases work_sessions hstep hrow with hkept | ⟨headers, rfl, hshown⟩ | ⟨n, claims, session, csrf, time, rfl, hexp⟩
      · exact .inl hkept
      · exact .inr (.inl ⟨id, uuid, headers, rfl, hcall, hshown⟩)
      · exact .inr (.inr ⟨id, uuid, n, claims, session, csrf, time, rfl, hcall, hexp⟩)
    · exact .inl (by rw [step_sessions hstep fun id uuid he => hwork ⟨id, uuid, he⟩]; exact hrow)

end Protocol

namespace Server

def auth : Auth String := ⟨["cilogon"], "https://wordflow.example", id⟩

def claims : Claims := ⟨"https://cilogon.org", "reader", some "A. Reader"⟩

def browser : Headers := ⟨["wordflow_login_s1=b1; theme=dark"], none, none⟩

def signedIn : Headers := ⟨["wordflow_session=secret"], some "https://wordflow.example", some "token"⟩

/-- A sign-in, its replay, a request and a logout with the session it gave. -/
def visit : List Event :=
  [.login 0 "cilogon" "s1" "n1" "v1" "b1", .tick 1000000000 1, .callback 1 "cilogon" ⟨"s1", some "code"⟩ browser,
    .callback 2 "cilogon" ⟨"s1", some "code"⟩ browser, .exchanged 1 claims "secret" "token", .work 1 "account",
    .session 3 signedIn, .work 3 "", .logout 4 signedIn, .work 4 "", .work 4 "", .announce 4]

theorem visit_protocol : ∃ s, exec (step auth) (start String) visit = some s ∧ s.sessionsChanged = 1 ∧
    granted s.log = [0] ∧ s.sessions.keys = [] ∧ Protocol auth s := by
  have hrun : (exec (step auth) (start String) visit).map (fun s =>
      (s.sessionsChanged, granted s.log, s.sessions.keys)) = some (1, [0], []) := by decide +kernel
  obtain ⟨s, hs, hvalues⟩ := Option.map_eq_some_iff.mp hrun
  simp only [Prod.mk.injEq] at hvalues
  exact ⟨s, hs, hvalues.1, hvalues.2.1, hvalues.2.2, login_protocol hs⟩

end Server

end Wordflow.Gateway
