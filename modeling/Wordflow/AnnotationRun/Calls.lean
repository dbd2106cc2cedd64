import Mathlib.Algebra.GroupWithZero.Nat
import Mathlib.Data.List.Perm.Basic
import Mathlib.Data.List.Sort
import Mathlib.Data.Set.List
import Wordflow.AnnotationRun.Inference

namespace Wordflow.AnnotationRun

open Library Library.Chunks Library.Fallible Objects Annotation

/-- A request for the texts from `start` up to `stop`, and what the attempt gave. -/
structure Call where
  start : Nat
  stop : Nat
  answer : Attempt

section Calls

variable (fold : String → String) (codes : List Code)

def Call.outcome (call : Call) : Except Failure (List (Option String)) :=
  call.answer >>= fun body => labels fold codes body (call.stop - call.start)

/-- The requests that `predictLoop` makes, in their order. -/
def callsLoop (retries : Nat) : List Attempt → List (Nat × Nat) → Nat → List Call
  | _, [], _ => []
  | [], _ :: _, _ => []
  | answer :: answers, (start, stop) :: pending, attempts =>
      ⟨start, stop, answer⟩ ::
        match answer >>= fun body => labels fold codes body (stop - start) with
        | .ok _ => callsLoop retries answers pending 0
        | .error failure =>
            if (failure.kind = .transient ∨ failure.kind = .response) ∧ attempts < retries then
              callsLoop retries answers ((start, stop) :: pending) (attempts + 1)
            else if failure.kind = .context ∨ failure.kind = .response then
              if 1 < stop - start then
                let middle := start + (stop - start) / 2
                callsLoop retries answers ((start, middle) :: (middle, stop) :: pending) 0
              else callsLoop retries answers pending 0
            else []

def batchCalls (retries : Nat) (answers : List Attempt) (texts : List String) : List Call :=
  callsLoop fold codes retries answers [(0, texts.length)] 0

/-- A prediction of the text at `i` from what a request gave: from its place in
the response, or from the failure of a request for this text alone. -/
def Call.Gives (call : Call) (i : Nat) : Prediction → Prop
  | .success label => ∃ found, call.outcome fold codes = .ok found ∧ found[i - call.start]? = some label
  | .failed error => call.start = i ∧ call.stop = i + 1 ∧ ∃ failure, call.outcome fold codes = .error failure ∧
      (failure.kind = .context ∨ failure.kind = .response) ∧ failure.error = error

/-- The prediction of a text is given by the last request that has the text. -/
def DecidedBy (calls : List Call) (i : Nat) (p : Prediction) : Prop :=
  ∃ before call after, calls = before ++ call :: after ∧ call.start ≤ i ∧ i < call.stop ∧
    (∀ later ∈ after, i < later.start) ∧ call.Gives fold codes i p

end Calls

/-- Segments that follow each other from `k` to `n`. -/
def Tiles : Nat → Nat → List (Nat × Nat) → Prop
  | k, n, [] => k = n
  | k, n, (start, stop) :: pending => start = k ∧ start < stop ∧ Tiles stop n pending

/-- The most requests that segments take without retries. -/
def weight (pending : List (Nat × Nat)) : Nat := (pending.map fun segment => 2 * (segment.2 - segment.1) - 1).sum

section Loop

variable {fold : String → String} {codes : List Code} {retries k n attempts attempts' : Nat} {answers : List Attempt}
  {call : Call} {pending pending' : List (Nat × Nat)} {output result : List (Option Prediction)}
  {change : List (Option Prediction) → List (Option Prediction)}

theorem Tiles.le (h : Tiles k n pending) : k ≤ n := by
  induction pending generalizing k with
  | nil => exact Nat.le_of_eq h
  | cons segment pending ih =>
      obtain ⟨rfl, hlt, hrest⟩ := h
      exact Nat.le_trans (Nat.le_of_lt hlt) (ih hrest)

/-- What a request for the segment on top leads to, where the batch goes on: the
labels are written, the request is made again, the segment is cut in two, or the
one text of it has failed. -/
inductive Leads (fold : String → String) (codes : List Code) (retries : Nat) (call : Call) (pending : List (Nat × Nat))
    (attempts : Nat) : List (Nat × Nat) → Nat → (List (Option Prediction) → List (Option Prediction)) → Prop
  | accept {found : List (Option String)} (h : call.outcome fold codes = .ok found) :
      Leads fold codes retries call pending attempts pending 0 fun output => writeLabels output call.start found
  | retry (failure : Failure) (h : call.outcome fold codes = .error failure)
      (hkind : failure.kind = .transient ∨ failure.kind = .response) (hattempts : attempts < retries) :
      Leads fold codes retries call pending attempts ((call.start, call.stop) :: pending) (attempts + 1) id
  | split (failure : Failure) (h : call.outcome fold codes = .error failure)
      (hkind : failure.kind = .context ∨ failure.kind = .response) (hlong : 1 < call.stop - call.start) :
      Leads fold codes retries call pending attempts
        ((call.start, call.start + (call.stop - call.start) / 2) ::
          (call.start + (call.stop - call.start) / 2, call.stop) :: pending) 0 id
  | alone (failure : Failure) (h : call.outcome fold codes = .error failure)
      (hkind : failure.kind = .context ∨ failure.kind = .response) (hshort : ¬1 < call.stop - call.start) :
      Leads fold codes retries call pending attempts pending 0 fun output =>
        output.set call.start (some (.failed failure.error))

/-- A request leads on, or its failure ends the batch: it is not a context or response failure. -/
theorem loop_cases (fold : String → String) (codes : List Code) (retries : Nat) (call : Call) (pending : List (Nat × Nat))
    (attempts : Nat) :
    (∃ pending' attempts' change, Leads fold codes retries call pending attempts pending' attempts' change ∧
      ∀ answers,
        (∀ output, predictLoop fold codes retries (call.answer :: answers) ((call.start, call.stop) :: pending) attempts
          output = predictLoop fold codes retries answers pending' attempts' (change output)) ∧
        callsLoop fold codes retries (call.answer :: answers) ((call.start, call.stop) :: pending) attempts =
          call :: callsLoop fold codes retries answers pending' attempts') ∨
    ∃ failure, call.outcome fold codes = .error failure ∧ failure.kind ≠ .context ∧ failure.kind ≠ .response ∧
      ∀ answers,
        (∀ output, predictLoop fold codes retries (call.answer :: answers) ((call.start, call.stop) :: pending) attempts
          output = .error failure.error) ∧
        callsLoop fold codes retries (call.answer :: answers) ((call.start, call.stop) :: pending) attempts = [call] := by
  cases houtcome : call.outcome fold codes with
  | ok found =>
      refine .inl ⟨_, _, _, .accept houtcome, fun answers => ⟨fun output => ?_, ?_⟩⟩
      · rw [Call.outcome] at houtcome
        simp only [predictLoop, houtcome]
      · rw [Call.outcome] at houtcome
        simp only [callsLoop, houtcome]
  | error failure =>
      have hcalls := houtcome
      rw [Call.outcome] at hcalls
      by_cases hretry : (failure.kind = .transient ∨ failure.kind = .response) ∧ attempts < retries
      · refine .inl ⟨_, _, _, .retry failure houtcome hretry.1 hretry.2, fun answers => ⟨fun output => ?_, ?_⟩⟩
        · simp only [predictLoop, hcalls, if_pos hretry, id]
        · simp only [callsLoop, hcalls, if_pos hretry]
      · by_cases hkind : failure.kind = .context ∨ failure.kind = .response
        · by_cases hlong : 1 < call.stop - call.start
          · refine .inl ⟨_, _, _, .split failure houtcome hkind hlong, fun answers => ⟨fun output => ?_, ?_⟩⟩
            · simp only [predictLoop, hcalls, if_neg hretry, if_pos hkind, if_pos hlong, id]
            · simp only [callsLoop, hcalls, if_neg hretry, if_pos hkind, if_pos hlong]
          · refine .inl ⟨_, _, _, .alone failure houtcome hkind hlong, fun answers => ⟨fun output => ?_, ?_⟩⟩
            · simp only [predictLoop, hcalls, if_neg hretry, if_pos hkind, if_neg hlong]
            · simp only [callsLoop, hcalls, if_neg hretry, if_pos hkind, if_neg hlong]
        · obtain ⟨hcontext, hresponse⟩ := not_or.mp hkind
          refine .inr ⟨failure, rfl, hcontext, hresponse, fun answers => ⟨fun output => ?_, ?_⟩⟩
          · simp only [predictLoop, hcalls, if_neg hretry, if_neg hkind]
          · simp only [callsLoop, hcalls, if_neg hretry, if_neg hkind]

/-- The segments that remain follow each other, from the end of the one that is done. -/
theorem Leads.tiles (hleads : Leads fold codes retries call pending attempts pending' attempts' change)
    (h : Tiles k n ((call.start, call.stop) :: pending)) : ∃ k', k ≤ k' ∧ Tiles k' n pending' := by
  obtain ⟨hstart, hlt, hrest⟩ := h
  cases hleads with
  | accept | alone => exact ⟨call.stop, hstart ▸ Nat.le_of_lt hlt, hrest⟩
  | retry => exact ⟨k, Nat.le_refl k, hstart, hlt, hrest⟩
  | split _ _ _ hlong => exact ⟨k, Nat.le_refl k, hstart, by omega, rfl, by omega, hrest⟩

/-- Each attempt takes one of the requests that the segments are good for. -/
theorem Leads.weight (hleads : Leads fold codes retries call pending attempts pending' attempts' change)
    (h : Tiles k n ((call.start, call.stop) :: pending)) (hattempts : attempts ≤ retries) :
    attempts' ≤ retries ∧
      (retries + 1) * weight pending' + attempts + 1 ≤ (retries + 1) * weight ((call.start, call.stop) :: pending) + attempts' := by
  obtain ⟨-, hlt, -⟩ := h
  have hcons : ∀ start stop pending, AnnotationRun.weight ((start, stop) :: pending) =
      2 * (stop - start) - 1 + AnnotationRun.weight pending := fun _ _ _ => List.sum_cons
  cases hleads with
  | accept | alone =>
      rw [hcons, Nat.mul_add]
      have := Nat.le_mul_of_pos_right (retries + 1) (show 0 < 2 * (call.stop - call.start) - 1 by omega)
      omega
  | retry _ _ _ hmore => omega
  | split _ _ _ hlong =>
      have hsum : 2 * (call.stop - call.start) - 1 = (2 * (call.start + (call.stop - call.start) / 2 - call.start) - 1 +
          (2 * (call.stop - (call.start + (call.stop - call.start) / 2)) - 1)) + 1 := by omega
      rw [hcons, hcons, hcons, hsum]
      generalize 2 * (call.start + (call.stop - call.start) / 2 - call.start) - 1 = left
      generalize 2 * (call.stop - (call.start + (call.stop - call.start) / 2)) - 1 = right
      simp only [Nat.mul_add, Nat.mul_one]
      omega

theorem Leads.attempts_eq (hleads : Leads fold codes retries call pending attempts pending' attempts' change)
    (h : pending' = []) : attempts' = 0 := by
  cases hleads with
  | accept | alone | split => rfl
  | retry => cases h

theorem one_le_weight {segment : Nat × Nat} (h : Tiles k n (segment :: pending)) : 1 ≤ weight (segment :: pending) := by
  obtain ⟨-, hlt, -⟩ := h
  have hcons : weight (segment :: pending) = 2 * (segment.2 - segment.1) - 1 + weight pending := List.sum_cons
  rw [hcons]
  omega

/-- There are at most as many requests as the segments are good for. -/
theorem callsLoop_length (h : Tiles k n pending) (hattempts : attempts ≤ retries) (hnone : pending = [] → attempts = 0) :
    (callsLoop fold codes retries answers pending attempts).length + attempts ≤ (retries + 1) * weight pending := by
  induction answers generalizing k pending attempts with
  | nil =>
      cases pending with
      | nil =>
          rw [hnone rfl, callsLoop]
          exact Nat.zero_le _
      | cons segment pending =>
          rw [callsLoop, List.length_nil, Nat.zero_add]
          exact Nat.le_trans (Nat.le_succ_of_le hattempts) (Nat.le_mul_of_pos_right _ (one_le_weight h))
  | cons answer answers ih =>
      cases pending with
      | nil =>
          rw [hnone rfl, callsLoop]
          exact Nat.zero_le _
      | cons segment pending =>
          obtain ⟨start, stop⟩ := segment
          rcases loop_cases fold codes retries ⟨start, stop, answer⟩ pending attempts with
            ⟨pending', attempts', change, hleads, hloop⟩ | ⟨failure, -, -, -, hloop⟩
          · obtain ⟨k', -, htiles⟩ := hleads.tiles h
            obtain ⟨hle, hweight⟩ := hleads.weight h hattempts
            simp only at hweight
            have hrest := ih htiles hle hleads.attempts_eq
            rw [(hloop answers).2, List.length_cons]
            omega
          · rw [(hloop answers).2, List.length_singleton, Nat.add_comm]
            exact Nat.le_trans (Nat.succ_le_succ hattempts) (Nat.le_mul_of_pos_right _ (one_le_weight h))

/-- With that many answers the loop has ended, and asks for no more. -/
theorem predictLoop_append (h : Tiles k n pending) (hattempts : attempts ≤ retries)
    (hanswers : (retries + 1) * weight pending ≤ answers.length + attempts) (more : List Attempt) :
    predictLoop fold codes retries (answers ++ more) pending attempts output =
      predictLoop fold codes retries answers pending attempts output := by
  induction answers generalizing k pending attempts output with
  | nil =>
      cases pending with
      | nil => rw [predictLoop, predictLoop]
      | cons segment pending =>
          have hmul := Nat.le_mul_of_pos_right (retries + 1) (one_le_weight h)
          rw [List.length_nil] at hanswers
          omega
  | cons answer answers ih =>
      cases pending with
      | nil => rw [predictLoop, predictLoop]
      | cons segment pending =>
          obtain ⟨start, stop⟩ := segment
          rw [List.cons_append]
          rcases loop_cases fold codes retries ⟨start, stop, answer⟩ pending attempts with
            ⟨pending', attempts', change, hleads, hloop⟩ | ⟨failure, -, -, -, hloop⟩
          · obtain ⟨k', -, htiles⟩ := hleads.tiles h
            obtain ⟨hle, hweight⟩ := hleads.weight h hattempts
            simp only at hweight
            rw [List.length_cons] at hanswers
            rw [(hloop (answers ++ more)).1, (hloop answers).1]
            apply ih htiles hle
            omega
          · rw [(hloop (answers ++ more)).1, (hloop answers).1]

/-- A request is for segments still to come, with at least one text. -/
theorem callsLoop_within (h : Tiles k n pending) :
    ∀ call ∈ callsLoop fold codes retries answers pending attempts, k ≤ call.start ∧ call.start < call.stop ∧ call.stop ≤ n := by
  induction answers generalizing k pending attempts with
  | nil => cases pending <;> exact fun call hcall => nomatch hcall
  | cons answer answers ih =>
      cases pending with
      | nil => exact fun call hcall => nomatch hcall
      | cons segment pending =>
          obtain ⟨start, stop⟩ := segment
          have hhead : k ≤ start ∧ start < stop ∧ stop ≤ n := by
            obtain ⟨hstart, hlt, hrest⟩ := h
            exact ⟨Nat.le_of_eq hstart.symm, hlt, hrest.le⟩
          rcases loop_cases fold codes retries ⟨start, stop, answer⟩ pending attempts with
            ⟨pending', attempts', change, hleads, hloop⟩ | ⟨failure, -, -, -, hloop⟩
          · obtain ⟨k', hk, htiles⟩ := hleads.tiles h
            rw [(hloop answers).2, List.forall_mem_cons]
            refine ⟨hhead, fun call hcall => ?_⟩
            obtain ⟨hstart, hwithin⟩ := ih htiles call hcall
            exact ⟨Nat.le_trans hk hstart, hwithin⟩
          · rw [(hloop answers).2]
            exact fun call hcall => List.mem_singleton.mp hcall ▸ hhead

/-- After a response that is accepted only later texts are requested. -/
theorem callsLoop_accepted (h : Tiles k n pending) :
    (callsLoop fold codes retries answers pending attempts).Pairwise fun a b =>
      (a.outcome fold codes).isOk = true → a.stop ≤ b.start := by
  induction answers generalizing k pending attempts with
  | nil => cases pending <;> exact .nil
  | cons answer answers ih =>
      cases pending with
      | nil => exact .nil
      | cons segment pending =>
          obtain ⟨start, stop⟩ := segment
          rcases loop_cases fold codes retries ⟨start, stop, answer⟩ pending attempts with
            ⟨pending', attempts', change, hleads, hloop⟩ | ⟨failure, -, -, -, hloop⟩
          · obtain ⟨k', -, htiles⟩ := hleads.tiles h
            rw [(hloop answers).2, List.pairwise_cons]
            refine ⟨fun call hcall hok => ?_, ih htiles⟩
            cases hleads with
            | accept => exact (callsLoop_within h.2.2 call hcall).1
            | retry _ houtcome | split _ houtcome | alone _ houtcome =>
                rw [houtcome] at hok
                cases hok
          · rw [(hloop answers).2]
            exact List.pairwise_singleton _ _

/-- A fatal failure or a timeout is the last thing that happens, and the error of the batch. -/
theorem callsLoop_ends {before after : List Call} {failure : Failure}
    (hcalls : callsLoop fold codes retries answers pending attempts = before ++ call :: after)
    (houtcome : call.outcome fold codes = .error failure) (hkind : failure.kind = .fatal ∨ failure.kind = .timeout) :
    after = [] ∧ predictLoop fold codes retries answers pending attempts output = .error failure.error := by
  induction answers generalizing pending attempts output before with
  | nil =>
      have hnil : callsLoop fold codes retries [] pending attempts = [] := by cases pending <;> rfl
      rw [hnil] at hcalls
      exact absurd hcalls.symm (List.append_ne_nil_of_right_ne_nil _ (List.cons_ne_nil _ _))
  | cons answer answers ih =>
      cases pending with
      | nil => exact absurd hcalls.symm (List.append_ne_nil_of_right_ne_nil _ (List.cons_ne_nil _ _))
      | cons segment pending =>
          obtain ⟨start, stop⟩ := segment
          rcases loop_cases fold codes retries ⟨start, stop, answer⟩ pending attempts with
            ⟨pending', attempts', change, hleads, hloop⟩ | ⟨ending, hending, -, -, hloop⟩
          · rw [(hloop answers).2] at hcalls
            rw [(hloop answers).1]
            cases before with
            | nil =>
                obtain ⟨rfl, -⟩ := List.cons.inj hcalls
                cases hleads with
                | accept h =>
                    rw [h] at houtcome
                    cases houtcome
                | retry _ h hretried | split _ h hretried | alone _ h hretried =>
                    rw [h] at houtcome
                    obtain rfl := Except.error.inj houtcome
                    rcases hkind with hkind | hkind <;> rw [hkind] at hretried <;> rcases hretried with hk | hk <;> cases hk
            | cons _ before => exact ih (List.cons.inj hcalls).2
          · rw [(hloop answers).2] at hcalls
            rw [(hloop answers).1]
            obtain ⟨hbefore, hsingle⟩ := List.append_eq_singleton_iff.mp hcalls.symm |>.resolve_right (by simp)
            obtain ⟨rfl, rfl⟩ := List.cons.inj hsingle
            rw [hending] at houtcome
            obtain rfl := Except.error.inj houtcome
            exact ⟨rfl, rfl⟩

theorem getElem?_writeLabels (output : List (Option Prediction)) (start : Nat) (found : List (Option String)) (i : Nat) :
    (writeLabels output start found)[i]? =
      if start ≤ i ∧ i < start + found.length ∧ i < output.length then (found[i - start]?).map fun label => some (.success label)
      else output[i]? := by
  induction found generalizing output start with
  | nil =>
      rw [writeLabels, if_neg]
      simp only [List.length_nil]
      omega
  | cons label found ih =>
      rw [writeLabels, ih, List.length_set, List.length_cons]
      rcases Nat.lt_trichotomy i start with hlt | rfl | hgt
      · rw [if_neg (by omega), if_neg (by omega), List.getElem?_set_ne (by omega)]
      · rw [if_neg (by omega), Nat.sub_self, List.getElem?_cons_zero]
        by_cases hlength : i < output.length
        · rw [if_pos (by omega), List.getElem?_set_self hlength]
          rfl
        · rw [if_neg (by omega), List.getElem?_eq_none (by rw [List.length_set]; omega), List.getElem?_eq_none (by omega)]
      · have hsucc : i - start = i - (start + 1) + 1 := by omega
        rw [List.getElem?_set_ne (by omega), hsucc, List.getElem?_cons_succ]
        by_cases hwithin : start + 1 ≤ i ∧ i < start + 1 + found.length ∧ i < output.length
        · rw [if_pos hwithin, if_pos (by omega)]
        · rw [if_neg hwithin, if_neg (by omega)]

theorem length_writeLabels (output : List (Option Prediction)) (start : Nat) (found : List (Option String)) :
    (writeLabels output start found).length = output.length := by
  induction found generalizing output start with
  | nil => rfl
  | cons label found ih => rw [writeLabels, ih, List.length_set]

theorem DecidedBy.cons {calls : List Call} {i : Nat} {p : Prediction} (h : DecidedBy fold codes calls i p) (call : Call) :
    DecidedBy fold codes (call :: calls) i p := by
  obtain ⟨before, decisive, after, rfl, h⟩ := h
  exact ⟨call :: before, decisive, after, rfl, h⟩

/-- The loop leaves what is decided, and decides each text that waits by the last request that has it. -/
theorem predictLoop_aligned (h : Tiles k n pending) (hlength : output.length = n)
    (hloop : predictLoop fold codes retries answers pending attempts output = .ok result) :
    (∀ i < k, result[i]? = output[i]?) ∧
    ∀ i, k ≤ i → i < n → ∃ p, result[i]? = some (some p) ∧
      DecidedBy fold codes (callsLoop fold codes retries answers pending attempts) i p := by
  induction answers generalizing k pending attempts output with
  | nil =>
      cases pending with
      | nil =>
          obtain rfl := Except.ok.inj hloop
          obtain rfl := h
          exact ⟨fun _ _ => rfl, fun i hk hn => absurd hk (Nat.not_le_of_lt hn)⟩
      | cons segment pending => cases hloop
  | cons answer answers ih =>
      cases pending with
      | nil =>
          obtain rfl := Except.ok.inj hloop
          obtain rfl := h
          exact ⟨fun _ _ => rfl, fun i hk hn => absurd hk (Nat.not_le_of_lt hn)⟩
      | cons segment pending =>
          obtain ⟨start, stop⟩ := segment
          rcases loop_cases fold codes retries ⟨start, stop, answer⟩ pending attempts with
            ⟨pending', attempts', change, hleads, hcases⟩ | ⟨failure, -, -, -, hcases⟩
          · rw [(hcases answers).1] at hloop
            rw [(hcases answers).2]
            obtain ⟨rfl, hlt, hrest⟩ := h
            have hafter := fun attempts' => @callsLoop_within fold codes retries _ _ attempts' answers _ hrest
            cases hleads with
            | @accept found hfound =>
                have hcount : found.length = stop - start := by
                  obtain ⟨body, -, hlabels⟩ := bind_eq_ok.mp hfound
                  exact labels_length hlabels
                have hwritten : (writeLabels output start found).length = n := (length_writeLabels output start found).trans hlength
                obtain ⟨hkept, hdecided⟩ := ih hrest hwritten hloop
                have hget := getElem?_writeLabels output start found
                refine ⟨fun i hi => ?_, fun i hi hn => ?_⟩
                · rw [hkept i (Nat.lt_trans hi hlt), hget, if_neg (by omega)]
                · rcases Nat.lt_or_ge i stop with hin | hout
                  · have hat : i - start < found.length := by omega
                    refine ⟨.success found[i - start], ?_, ?_⟩
                    · rw [hkept i hin, hget, if_pos (by omega), List.getElem?_eq_getElem hat]
                      rfl
                    · refine ⟨[], _, _, rfl, hi, hin, fun later hlater => ?_, found, hfound, List.getElem?_eq_getElem hat⟩
                      exact Nat.lt_of_lt_of_le hin (hafter 0 later hlater).1
                  · obtain ⟨p, hp, hby⟩ := hdecided i hout hn
                    exact ⟨p, hp, hby.cons _⟩
            | retry _ _ _ _ =>
                have htiles : Tiles start n ((start, stop) :: pending) := ⟨rfl, hlt, hrest⟩
                obtain ⟨hkept, hdecided⟩ := ih htiles hlength hloop
                refine ⟨hkept, fun i hi hn => ?_⟩
                obtain ⟨p, hp, hby⟩ := hdecided i hi hn
                exact ⟨p, hp, hby.cons _⟩
            | split _ _ _ hlong =>
                simp only at hlong
                have htiles : Tiles start n ((start, start + (stop - start) / 2) ::
                    (start + (stop - start) / 2, stop) :: pending) := ⟨rfl, by omega, rfl, by omega, hrest⟩
                obtain ⟨hkept, hdecided⟩ := ih htiles hlength hloop
                refine ⟨hkept, fun i hi hn => ?_⟩
                obtain ⟨p, hp, hby⟩ := hdecided i hi hn
                exact ⟨p, hp, hby.cons _⟩
            | alone failure houtcome hkind hshort =>
                have hstop : stop = start + 1 := by
                  simp only at hshort
                  omega
                obtain ⟨hkept, hdecided⟩ := ih hrest (List.length_set.trans hlength) hloop
                refine ⟨fun i hi => ?_, fun i hi hn => ?_⟩
                · rw [hkept i (Nat.lt_trans hi hlt), List.getElem?_set_ne (Nat.ne_of_gt hi)]
                · rcases Nat.lt_or_ge i stop with hin | hout
                  · obtain rfl : i = start := by omega
                    refine ⟨.failed failure.error, ?_, ?_⟩
                    · rw [hkept i hin, List.getElem?_set_self (hlength ▸ hn)]
                    · refine ⟨[], _, _, rfl, hi, hin, fun later hlater => ?_, rfl, hstop, failure, houtcome, hkind, rfl⟩
                      exact Nat.lt_of_lt_of_le hin (hafter 0 later hlater).1
                  · obtain ⟨p, hp, hby⟩ := hdecided i hout hn
                    exact ⟨p, hp, hby.cons _⟩
          · rw [(hcases answers).1] at hloop
            cases hloop

end Loop

section Reads

variable {fold : String → String} {codes : List Code}

/-- A label is null, or the code as the Codebook has it that equals the value but for case and outer blanks. -/
def Reads (fold : String → String) (codes : List Code) : LabelValue → Option String → Prop
  | .null, none => True
  | .text value, some code => ∃ c ∈ codes, c.code = code ∧ fold (Text.trim c.code) = fold (Text.trim value)
  | _, _ => False

theorem readLabel_reads {value : LabelValue} {label : Option String} (h : readLabel fold codes value = .ok label) :
    Reads fold codes value label := by
  cases value with
  | null =>
      obtain rfl := Except.ok.inj h
      trivial
  | text value =>
      rw [readLabel] at h
      split at h
      · rename_i c hfound
        obtain rfl := Except.ok.inj h
        have hpass := List.find?_some hfound
        exact ⟨c, List.mem_of_find?_eq_some hfound, rfl, of_decide_eq_true hpass⟩
      · cases h
  | other => cases h

theorem outcome_reads {call : Call} {found : List (Option String)} (h : call.outcome fold codes = .ok found) :
    ∃ values, call.answer = .ok (.labels values) ∧ values.length = call.stop - call.start ∧
      List.Forall₂ (Reads fold codes) values found := by
  obtain ⟨body, hanswer, hlabels⟩ := bind_eq_ok.mp h
  cases body with
  | notJson | noLabels => cases hlabels
  | labels values =>
      rw [labels, guard_eq_ok, not_not] at hlabels
      exact ⟨values, hanswer, hlabels.1, (mapM_eq_ok.mp hlabels.2).imp fun _ _ => readLabel_reads⟩

end Reads

/-- The texts of a request. -/
def Call.request (call : Call) (texts : List String) : List String := (texts.drop call.start).take (call.stop - call.start)

/-- A batch ends within its number of requests; each request has the texts that
it is for, an accepted one has texts that are not requested again, and a fatal
failure or a timeout is the end; each prediction is that of its own text. -/
structure Aligned (fold : String → String) (codes : List Code) (retries : Nat) (answers : List Attempt)
    (texts : List String) : Prop where
  bound : (batchCalls fold codes retries answers texts).length ≤ (retries + 1) * (2 * texts.length - 1)
  ends : (retries + 1) * (2 * texts.length - 1) ≤ answers.length → ∀ more,
    predictBatch fold codes retries (answers ++ more) texts = predictBatch fold codes retries answers texts
  requests : ∀ call ∈ batchCalls fold codes retries answers texts, call.start < call.stop ∧
    (call.request texts).length = call.stop - call.start ∧
    ∀ i, call.start ≤ i → i < call.stop → (call.request texts)[i - call.start]? = texts[i]?
  labels : ∀ call ∈ batchCalls fold codes retries answers texts, ∀ found, call.outcome fold codes = .ok found →
    ∃ values, call.answer = .ok (.labels values) ∧ values.length = call.stop - call.start ∧
      List.Forall₂ (Reads fold codes) values found
  once : (batchCalls fold codes retries answers texts).Pairwise fun a b =>
    (a.outcome fold codes).isOk = true → a.stop ≤ b.start
  fatal : ∀ before call after failure, batchCalls fold codes retries answers texts = before ++ call :: after →
    call.outcome fold codes = .error failure → failure.kind = .fatal ∨ failure.kind = .timeout →
      after = [] ∧ predictBatch fold codes retries answers texts = .error failure.error
  predictions : ∀ predictions, predictBatch fold codes retries answers texts = .ok predictions →
    predictions.length = texts.length ∧ ∀ i p, predictions[i]? = some p →
      DecidedBy fold codes (batchCalls fold codes retries answers texts) i p

section Batch

variable {fold : String → String} {codes : List Code} {retries : Nat} {answers : List Attempt} {texts : List String}

theorem tiles_batch (h : texts ≠ []) : Tiles 0 texts.length [(0, texts.length)] :=
  ⟨rfl, List.length_pos_of_ne_nil h, rfl⟩

theorem weight_batch (texts : List String) : weight [(0, texts.length)] = 2 * texts.length - 1 := rfl

theorem predictBatch_aligned (h : texts ≠ []) : Aligned fold codes retries answers texts where
  bound := by
    have hlength := @callsLoop_length fold codes _ _ _ _ answers _ (tiles_batch h)
      (Nat.zero_le retries) fun _ => rfl
    rwa [weight_batch] at hlength
  ends := by
    intro hanswers more
    have happend := fun output => @predictLoop_append fold codes _ _ _ _ _ _ output (tiles_batch h)
      (Nat.zero_le retries) (by rwa [weight_batch]) more
    rw [predictBatch, predictBatch, happend]
  requests := by
    intro call hcall
    obtain ⟨-, hlt, hstop⟩ := callsLoop_within (tiles_batch h) call hcall
    refine ⟨hlt, ?_, fun i hi hin => ?_⟩
    · rw [Call.request, List.length_take, List.length_drop]
      omega
    · rw [Call.request, List.getElem?_take, if_pos (by omega), List.getElem?_drop, Nat.add_sub_cancel' hi]
  labels := fun call _ found hfound => outcome_reads hfound
  once := callsLoop_accepted (tiles_batch h)
  fatal := by
    intro before call after failure hcalls houtcome hkind
    have hends := fun output => @callsLoop_ends _ _ _ _ _ _ _ output _ _ _ hcalls houtcome hkind
    refine ⟨(hends []).1, ?_⟩
    rw [predictBatch, (hends _).2]
    rfl
  predictions := by
    intro predictions hpredictions
    refine ⟨(predictBatch_spec hpredictions).1, fun i p hp => ?_⟩
    rw [predictBatch, bind_eq_ok] at hpredictions
    obtain ⟨output, hloop, hrows⟩ := hpredictions
    have hrows := mapM_eq_ok.mp hrows
    obtain ⟨-, hdecided⟩ := predictLoop_aligned (tiles_batch h) List.length_replicate hloop
    have hlength := (predictBatch_segmented hloop).length
    obtain ⟨hin, hget⟩ := List.getElem?_eq_some_iff.mp hp
    have hrow : i < output.length := hrows.length_eq ▸ hin
    obtain ⟨q, hq, hby⟩ := hdecided i (Nat.zero_le i) (hlength ▸ hrow)
    have hsame := hrows.get hrow hin
    rw [List.get_eq_getElem, List.get_eq_getElem, hget, Option.some.inj ((List.getElem?_eq_getElem hrow).symm.trans hq)] at hsame
    exact Except.ok.inj hsame ▸ hby

end Batch

structure Example where
  text : String
  label : String

/-- A request batch that has completed: where it starts and its rows, or its error. -/
abbrev Completed := Except Error (Nat × List Prediction)

section Predict

variable (fold : String → String) (config : Inference) (codes : List Code) (answers : Nat → List Attempt)

/-- A request batch, by where it starts, with the answers that the provider has for it. -/
def job (chunk : Nat × List String) : Completed := do
  let rows ← predictBatch fold codes config.retries (answers chunk.1) chunk.2
  return (chunk.1, rows)

def predictBatches (examples : List Example) (texts : List String) : Except Error (List Completed) := do
  checkCodes fold [] codes
  if ∃ e ∈ examples, ∀ c ∈ codes, c.code ≠ e.label then
    throw (.invalid "An inference example is outside the captured Codebook")
  return (chunks config.batchSize texts).map (job fold config codes answers)

/-- `predict` over the batches in the order in which they complete. -/
def collect (completed : List Completed) : Except Error (List Prediction) := do
  let batches ← completed.mapM id
  return (batches.insertionSort fun a b => a.1 ≤ b.1).flatMap Prod.snd

variable {fold config codes answers} {examples : List Example} {texts : List String}

theorem chunks_sorted {α : Type*} {size : Nat} {items : List α} (hsize : 0 < size) :
    (chunks size items).Pairwise fun a b => a.1 < b.1 := by
  rw [chunks, List.pairwise_map]
  exact List.pairwise_lt_range.imp fun hlt => Nat.mul_lt_mul_of_pos_right hlt hsize

theorem chunks_ne_nil {α : Type*} {size : Nat} {items : List α} {chunk : Nat × List α} (hsize : 0 < size)
    (h : chunk ∈ chunks size items) : chunk.2 ≠ [] := by
  obtain ⟨i, hi, rfl⟩ := List.mem_map.mp h
  apply List.ne_nil_of_length_pos
  have hmul := Nat.mul_le_of_le_div size (i + 1) _ (List.mem_range.mp hi)
  rw [Nat.succ_mul] at hmul
  rw [List.length_take, List.length_drop]
  omega

theorem job_eq_ok {chunk : Nat × List String} {batch : Nat × List Prediction} :
    job fold config codes answers chunk = .ok batch ↔
      batch.1 = chunk.1 ∧ predictBatch fold codes config.retries (answers chunk.1) chunk.2 = .ok batch.2 := by
  rw [job, bind_eq_ok]
  constructor
  · rintro ⟨rows, hrows, heq⟩
    cases heq
    exact ⟨rfl, hrows⟩
  · rintro ⟨hoffset, hrows⟩
    exact ⟨batch.2, hrows, congrArg Except.ok (Prod.ext hoffset.symm rfl)⟩

theorem job_eq_error {chunk : Nat × List String} {error : Error} :
    job fold config codes answers chunk = .error error ↔
      predictBatch fold codes config.retries (answers chunk.1) chunk.2 = .error error := by
  rw [job]
  cases predictBatch fold codes config.retries (answers chunk.1) chunk.2 with
  | ok rows => exact ⟨fun h => (nomatch h), fun h => (nomatch h)⟩
  | error failure => exact ⟨fun h => congrArg Except.error (Except.error.inj h), fun h => congrArg Except.error (Except.error.inj h)⟩

theorem predictBatches_eq {batches : List Completed} (h : predictBatches fold config codes answers examples texts = .ok batches) :
    batches = (chunks config.batchSize texts).map (job fold config codes answers) := by
  rw [predictBatches, bind_eq_ok] at h
  obtain ⟨_, -, h⟩ := h
  split at h
  · cases h
  · exact (Except.ok.inj h).symm

/-- Batches come back together where none has failed. -/
theorem collect_eq_ok {completed : List Completed} {predictions : List Prediction} :
    collect completed = .ok predictions ↔ ∃ batches : List (Nat × List Prediction), completed = batches.map Except.ok ∧
      predictions = (batches.insertionSort fun a b => a.1 ≤ b.1).flatMap Prod.snd := by
  rw [collect, bind_eq_ok]
  constructor
  · rintro ⟨batches, hbatches, h⟩
    refine ⟨batches, ?_, (Except.ok.inj h).symm⟩
    have hall := mapM_eq_ok.mp hbatches
    clear hbatches h
    induction hall with
    | nil => rfl
    | cons hhead _ ih => rw [List.map_cons, ← ih, ← hhead, id]
  · rintro ⟨batches, rfl, rfl⟩
    refine ⟨batches, mapM_eq_ok.mpr ?_, rfl⟩
    rw [List.forall₂_map_left_iff]
    exact List.forall₂_same.mpr fun _ _ => rfl

theorem collect_eq_error {completed : List Completed} {error : Error} (h : collect completed = .error error) :
    Except.error error ∈ completed := by
  rw [collect] at h
  induction completed with
  | nil => cases h
  | cons batch completed ih =>
      cases batch with
      | error failure =>
          obtain rfl := Except.error.inj h
          exact List.mem_cons_self
      | ok rows =>
          apply List.mem_cons_of_mem
          apply ih
          rw [List.mapM_cons] at h
          cases hrest : completed.mapM id with
          | ok _ =>
              rw [hrest] at h
              cases h
          | error _ =>
              rw [hrest] at h
              exact h

/-- Sorted by where they start, the batches are back in the order of the texts. -/
theorem insertionSort_arrived {arrived batches : List (Nat × List Prediction)} (hperm : arrived.Perm batches)
    (hsorted : batches.Pairwise fun a b => a.1 < b.1) : arrived.insertionSort (fun a b => a.1 ≤ b.1) = batches := by
  apply ((List.perm_insertionSort _ arrived).trans hperm).eq_of_pairwise
  · intro a b ha hb hab hba
    have hmem := hperm.subset ((List.perm_insertionSort _ arrived).subset ha)
    have hnodup : (batches.map Prod.fst).Nodup := List.pairwise_map.mpr (hsorted.imp Nat.ne_of_lt)
    exact List.inj_on_of_nodup_map hnodup hmem hb (Nat.le_antisymm hab hba)
  · exact List.pairwise_insertionSort _ _
  · exact hsorted.imp Nat.le_of_lt

/-- The batches of the texts, in whichever order they complete, give the predictions of
the batches in the order of the texts, and an error where one of them has failed. -/
structure InOrder (fold : String → String) (config : Inference) (codes : List Code) (answers : Nat → List Attempt)
    (texts : List String) (completed : List Completed) : Prop where
  chunks : (chunks config.batchSize texts).flatMap Prod.snd = texts
  bounded : ∀ chunk ∈ Chunks.chunks config.batchSize texts, chunk.2 ≠ [] ∧ chunk.2.length ≤ config.batchSize ∧
    ∀ i < chunk.2.length, chunk.2[i]? = texts[chunk.1 + i]?
  predictions : ∀ predictions, collect completed = .ok predictions ↔
    ∃ rows : List (List Prediction), predictions = rows.flatten ∧
      List.Forall₂ (fun chunk rows => predictBatch fold codes config.retries (answers chunk.1) chunk.2 = .ok rows)
        (Chunks.chunks config.batchSize texts) rows
  error : ∀ error, collect completed = .error error →
    ∃ chunk ∈ Chunks.chunks config.batchSize texts, predictBatch fold codes config.retries (answers chunk.1) chunk.2 = .error error

/-- Results that are all in, in another order, are those of the jobs in their order. -/
theorem arrived_jobs {α β ε : Type} {f : α → Except ε β} {items : List α} {arrived : List β}
    (hperm : (arrived.map Except.ok).Perm (items.map f)) :
    ∃ results : List β, arrived.Perm results ∧ List.Forall₂ (fun a b => f a = .ok b) items results := by
  have hall : List.Forall₂ (fun x b => x = Except.ok b) (arrived.map (Except.ok (ε := ε))) arrived :=
    List.forall₂_map_left_iff.mpr (List.forall₂_same.mpr fun _ _ => rfl)
  obtain ⟨results, hresults, hback⟩ := List.perm_comp_forall₂ hperm.symm hall
  exact ⟨results, hback.symm, List.forall₂_map_left_iff.mp hresults⟩

theorem collect_arrived {arrived : List (Nat × List Prediction)} (hsize : 0 < config.batchSize)
    (hperm : (arrived.map Except.ok).Perm ((chunks config.batchSize texts).map (job fold config codes answers))) :
    ∃ rows : List (List Prediction), (arrived.insertionSort fun a b => a.1 ≤ b.1).flatMap Prod.snd = rows.flatten ∧
      List.Forall₂ (fun chunk rows => predictBatch fold codes config.retries (answers chunk.1) chunk.2 = .ok rows)
        (chunks config.batchSize texts) rows := by
  obtain ⟨batches, hbatches, hjobs⟩ := arrived_jobs hperm
  have hoffsets : batches.map Prod.fst = (chunks config.batchSize texts).map Prod.fst :=
    forall₂_map_eq hjobs fun _ _ hjob => (job_eq_ok.mp hjob).1
  have hsorted : (batches.map Prod.fst).Pairwise (· < ·) := hoffsets ▸ List.pairwise_map.mpr (chunks_sorted hsize)
  refine ⟨batches.map Prod.snd, ?_, ?_⟩
  · rw [insertionSort_arrived hbatches (List.pairwise_map.mp hsorted), List.flatMap_def]
  · rw [List.forall₂_map_right_iff]
    exact hjobs.imp fun _ _ hjob => (job_eq_ok.mp hjob).2

theorem collect_inOrder {completed : List Completed} (hsize : 0 < config.batchSize)
    (hperm : completed.Perm ((chunks config.batchSize texts).map (job fold config codes answers))) :
    InOrder fold config codes answers texts completed where
  chunks := chunks_flatten hsize
  bounded := by
    intro chunk hchunk
    refine ⟨chunks_ne_nil hsize hchunk, ?_, fun i hi => ?_⟩
    · rw [mem_chunks hchunk]
      exact List.length_take_le _ _
    · rw [mem_chunks hchunk, List.length_take] at hi
      rw [mem_chunks hchunk, List.getElem?_take, if_pos (by omega), List.getElem?_drop]
  predictions := by
    intro predictions
    rw [collect_eq_ok]
    constructor
    · rintro ⟨arrived, rfl, rfl⟩
      exact collect_arrived hsize hperm
    · rintro ⟨rows, rfl, hrows⟩
      have hdone : ∀ result ∈ completed, ∃ batch, result = Except.ok batch := by
        intro result hresult
        obtain ⟨chunk, hchunk, rfl⟩ := List.mem_map.mp (hperm.subset hresult)
        obtain ⟨row, -, hrow⟩ := forall₂_mem_left hrows hchunk
        exact ⟨(chunk.1, row), job_eq_ok.mpr ⟨rfl, hrow⟩⟩
      obtain ⟨arrived, rfl⟩ : completed ∈ Set.range (List.map Except.ok) := by
        rw [Set.range_list_map]
        exact fun result hresult => (hdone result hresult).imp fun _ => Eq.symm
      obtain ⟨rows', hflatten, hrows'⟩ := collect_arrived hsize hperm
      obtain rfl : rows = rows' :=
        List.right_unique_forall₂' (fun _ _ _ h h' => Except.ok.inj (h.symm.trans h')) hrows hrows'
      exact ⟨arrived, rfl, hflatten.symm⟩
  error := by
    intro error h
    obtain ⟨chunk, hchunk, hjob⟩ := List.mem_map.mp (hperm.subset (collect_eq_error h))
    exact ⟨chunk, hchunk, job_eq_error.mp hjob⟩

end Predict

/-- Whatever the provider answers, a batch gives each text its own prediction
within its number of requests, and the batches come back in the order of the texts. -/
theorem predictions_aligned (fold : String → String) (codes : List Code) :
    (∀ retries answers texts, texts ≠ [] → Aligned fold codes retries answers texts) ∧
    ∀ (config : Inference) answers examples texts batches completed, config.prepare = .ok () →
      predictBatches fold config codes answers examples texts = .ok batches → completed.Perm batches →
        InOrder fold config codes answers texts completed := by
  refine ⟨fun retries answers texts h => predictBatch_aligned h, ?_⟩
  intro config answers examples texts batches completed hprepare hbatches hperm
  rw [Inference.prepare, guard_eq_ok] at hprepare
  have hsize : 0 < config.batchSize := by omega
  exact collect_inOrder hsize (predictBatches_eq hbatches ▸ hperm)

section Run

def colours : List Code := [⟨"Red", "warm"⟩, ⟨"Blue", "cold"⟩]

def tooLong : Failure := ⟨.context, ⟨"annotation_provider_context_limit", "The documents exceed the model context limit"⟩⟩

/-- The first batch is too long at once and for its first text, the second one has its labels. -/
def provider : Nat → List Attempt
  | 0 => [.error tooLong, .error tooLong, .ok (.labels [.text " Blue"])]
  | _ => [.ok (.labels [.null])]

def pairs : Inference := ⟨"model", 2, 1, 2⟩

/-- The run in which the second batch completes first. -/
theorem colours_aligned :
    Aligned id colours 1 (provider 0) ["a", "b"] ∧
    ∃ batches, predictBatches id pairs colours provider [] ["a", "b", "c"] = .ok batches ∧
      InOrder id pairs colours provider ["a", "b", "c"] batches.reverse ∧
      collect batches.reverse = .ok [.failed tooLong.error, .success (some "Blue"), .success none] := by
  refine ⟨(predictions_aligned id colours).1 1 (provider 0) ["a", "b"] (List.cons_ne_nil _ _), ?_⟩
  have hbatches : predictBatches id pairs colours provider [] ["a", "b", "c"] =
      .ok [.ok (0, [.failed tooLong.error, .success (some "Blue")]), .ok (2, [.success none])] := by rfl
  refine ⟨_, hbatches, ?_, by rfl⟩
  exact (predictions_aligned id colours).2 pairs provider [] ["a", "b", "c"] _ _ (by rfl) hbatches (List.reverse_perm _)

end Run

end Wordflow.AnnotationRun
