import Protheus.Conduit
import Protheus.Lib.Runs

/-!
Runs of `RateLimiter::allow` over any clients, command types and clocks.

A call is told whether it is admitted by two counters, the client's and the one
of the client and the command.  `Guarded` says what such a counter does in one
call: it is hit, and then the call is admitted only within its limit, or it is
left alone and the call is not one of those it guards.  A hit takes a place out of
what `places` counts, so `admitted_within_le` bounds the admitted calls of a client,
and of a client and a command, by twice their limit in any window of time.

`answers_of_others_removed` is about two runs.  The name of a command has no colon,
so no other client shares a counter with the client, whatever the clients are
called.
-/

namespace Protheus.RateLimits

open Std (ExtTreeMap)
open Protheus.ConduitSecurity Protheus.Conduit

/-- A call of `allow`. -/
structure Call where
  /-- The client. -/
  clientId : String
  /-- The type of its command. -/
  commandType : String
  /-- The clock it is called with. -/
  nowMs : UInt64
  deriving DecidableEq

/-- A call, and what it was told. -/
abbrev Answer := Call × Except SecurityError Unit

/-- The limiter after one call. -/
def after (limiter : RateLimiter) (call : Call) : RateLimiter :=
  (limiter.allow call.clientId call.commandType call.nowMs).1

/-- What the limiter tells a call. -/
def told (limiter : RateLimiter) (call : Call) : Except SecurityError Unit :=
  (limiter.allow call.clientId call.commandType call.nowMs).2

/-- What a run of calls is told, in order. -/
def answers (limiter : RateLimiter) (calls : List Call) : List Answer :=
  Runs.logs after (fun limiter call => [(call, told limiter call)]) limiter calls

/-- How many calls of a kind are admitted with the clock in `[lo, hi)`. -/
def admittedWithin (kind : Call → Bool) (lo hi : ℕ) (given : List Answer) : ℕ :=
  given.countP fun answer => kind answer.1 && answer.2.isOk &&
    decide (lo ≤ answer.1.nowMs.toNat ∧ answer.1.nowMs.toNat < hi)

/-! ## One call -/

def commandKey (client commandType : String) : String := client ++ ":" ++ commandType

/-- A counter after one more call, new or not. -/
def hit (counter : Option WindowCounter) (nowMs windowMs : UInt64) : WindowCounter :=
  (counter.getD { windowStartMs := nowMs }).increment nowMs windowMs

/-- The client's counter after a call of it. -/
def clientHit (limiter : RateLimiter) (call : Call) : WindowCounter :=
  hit (limiter.perClient[call.clientId]?) call.nowMs limiter.policy.windowMs

/-- The counter of the client and the command after a call that the client's counter admits. -/
def commandHit (limiter : RateLimiter) (call : Call) : WindowCounter :=
  hit (limiter.perClientCommand[commandKey call.clientId call.commandType]?) call.nowMs
    limiter.policy.windowMs

section Step

variable {limiter : RateLimiter} {call : Call}

@[simp] theorem after_policy : (after limiter call).policy = limiter.policy := allow_policy

theorem after_perClient : (after limiter call).perClient =
    limiter.perClient.insert call.clientId (clientHit limiter call) := allow_perClient

/-- One call, by its two counters. -/
theorem allow_eq : limiter.allow call.clientId call.commandType call.nowMs =
    let counted := { limiter with
      perClient := limiter.perClient.insert call.clientId (clientHit limiter call) }
    let both := { counted with
      perClientCommand := limiter.perClientCommand.insert (commandKey call.clientId call.commandType)
        (commandHit limiter call) }
    if (clientHit limiter call).count > limiter.policy.perClientMax then
      (counted, .error (.rateLimited "client" limiter.policy.perClientMax limiter.policy.windowMs))
    else if (commandHit limiter call).count > limiter.policy.perClientCommandMax then
      (both, .error (.rateLimited "client_command" limiter.policy.perClientCommandMax
        limiter.policy.windowMs))
    else (both, .ok ()) := rfl

/-- The counter of the command is hit where the client's admits the call. -/
theorem after_perClientCommand : (after limiter call).perClientCommand =
    if (clientHit limiter call).count > limiter.policy.perClientMax then limiter.perClientCommand
    else limiter.perClientCommand.insert (commandKey call.clientId call.commandType)
      (commandHit limiter call) := by
  rw [after, allow_eq]
  dsimp only
  split
  · rfl
  · split <;> rfl

theorem told_eq : told limiter call =
    if (clientHit limiter call).count > limiter.policy.perClientMax then
      .error (.rateLimited "client" limiter.policy.perClientMax limiter.policy.windowMs)
    else if (commandHit limiter call).count > limiter.policy.perClientCommandMax then
      .error (.rateLimited "client_command" limiter.policy.perClientCommandMax limiter.policy.windowMs)
    else .ok () := by
  rw [told, allow_eq]
  dsimp only
  split
  · rfl
  · split <;> rfl

/-- A call is admitted where both its counters are within their limits. -/
theorem told_isOk : (told limiter call).isOk = true ↔
    (clientHit limiter call).count ≤ limiter.policy.perClientMax ∧
      (commandHit limiter call).count ≤ limiter.policy.perClientCommandMax := by
  rw [told_eq]
  by_cases hclient : (clientHit limiter call).count ≤ limiter.policy.perClientMax
  · rw [if_neg (UInt32.not_lt.mpr hclient)]
    by_cases hcommand : (commandHit limiter call).count ≤ limiter.policy.perClientCommandMax
    · rw [if_neg (UInt32.not_lt.mpr hcommand)]
      simp [Except.isOk, Except.toBool, hclient, hcommand]
    · rw [if_pos (UInt32.not_le.mp hcommand)]
      simp [Except.isOk, Except.toBool, hcommand]
  · rw [if_pos (UInt32.not_le.mp hclient)]
    simp [Except.isOk, Except.toBool, hclient]

end Step

/-! ## A window of time -/

/-- The places a counter leaves in a window of time that starts at `lo`: what is left of the window
it counts in, and a window more unless it was started since. -/
def places (limit lo : ℕ) : Option WindowCounter → ℕ
  | none => 2 * limit
  | some counter =>
    limit - counter.count.toNat + if lo ≤ counter.windowStartMs.toNat then 0 else limit

theorem places_le {limit lo : ℕ} {counter : Option WindowCounter} :
    places limit lo counter ≤ 2 * limit := by
  unfold places
  split
  · rfl
  · split <;> omega

/-- A hit within the limit takes a place. -/
theorem places_hit {limit : UInt32} {lo : ℕ} {nowMs windowMs : UInt64} {counter : Option WindowCounter}
    (hmax : limit.toNat < 2 ^ 32 - 1) (hlo : lo ≤ nowMs.toNat)
    (hhi : nowMs.toNat < lo + windowMs.toNat) :
    (if (hit counter nowMs windowMs).count ≤ limit then 1 else 0) +
        places limit.toNat lo (some (hit counter nowMs windowMs)) ≤
      places limit.toNat lo counter := by
  have hself : RustStd.satSub nowMs nowMs = 0 := by simp [RustStd.satSub]
  have hone : (RustStd.satSucc 0).toNat = 1 := by decide
  cases counter with
  | none =>
    have hcount : (hit none nowMs windowMs).count.toNat = 1 := by
      unfold hit WindowCounter.increment
      rw [Option.getD_none]
      split <;> exact hone
    have hstart : (hit none nowMs windowMs).windowStartMs = nowMs := by
      unfold hit WindowCounter.increment
      rw [Option.getD_none]
      split <;> rfl
    simp only [places, UInt32.le_iff_toNat_le, hcount, hstart, hlo, if_true]
    split <;> omega
  | some counter =>
    by_cases hstale : counter.stale nowMs windowMs = true
    · -- The window before this one was started before `lo`.
      have hhit : hit (some counter) nowMs windowMs =
          { windowStartMs := nowMs, count := RustStd.satSucc 0 } := by
        simp [hit, WindowCounter.increment, hstale]
      have hold : ¬ lo ≤ counter.windowStartMs.toNat := by
        rw [WindowCounter.stale, decide_eq_true_eq, ge_iff_le, UInt64.le_iff_toNat_le,
          RustStd.toNat_satSub] at hstale
        omega
      simp only [hhit, places, UInt32.le_iff_toNat_le, hone, hlo, hold, if_true, if_false]
      split <;> omega
    · have hhit : hit (some counter) nowMs windowMs =
          { counter with count := RustStd.satSucc counter.count } := by
        simp [hit, WindowCounter.increment, hstale]
      simp only [hhit, places, UInt32.le_iff_toNat_le, RustStd.toNat_satSucc]
      split <;> split <;> omega

/-- What a counter of the limiter does in one call under the policy: it is hit, and the calls of its
kind are admitted only within its limit, or it is left alone, and no call of its kind is admitted. -/
def Guarded (policy : RateLimitPolicy) (limit : UInt32) (counter : RateLimiter → Option WindowCounter)
    (kind : Call → Bool) : Prop :=
  ∀ limiter call, limiter.policy = policy →
    (counter (after limiter call) = some (hit (counter limiter) call.nowMs policy.windowMs) ∧
        ((told limiter call).isOk = true →
          (hit (counter limiter) call.nowMs policy.windowMs).count ≤ limit)) ∨
      (counter (after limiter call) = counter limiter ∧
        (kind call && (told limiter call).isOk) = false)

theorem guarded_client (policy : RateLimitPolicy) (client : String) :
    Guarded policy policy.perClientMax (fun limiter => limiter.perClient[client]?)
      (fun call => call.clientId == client) := by
  rintro limiter call rfl
  by_cases hclient : call.clientId = client
  · subst hclient
    refine .inl ⟨?_, fun hok => (told_isOk.mp hok).1⟩
    dsimp only
    rw [after_perClient, ExtTreeMap.getElem?_insert_self]
    rfl
  · have hcmp : compare call.clientId client ≠ .eq := fun h => hclient (Std.LawfulEqOrd.eq_of_compare h)
    refine .inr ⟨?_, by simp [hclient]⟩
    simp [after_perClient, ExtTreeMap.getElem?_insert, hcmp]

/-- The counter of a client and a command guards their calls, and may be hit by others' whose key is
the same. -/
theorem guarded_command (policy : RateLimitPolicy) (client command : String) :
    Guarded policy policy.perClientCommandMax
      (fun limiter => limiter.perClientCommand[commandKey client command]?)
      (fun call => call.clientId == client && call.commandType == command) := by
  rintro limiter call rfl
  dsimp only
  by_cases hover : (clientHit limiter call).count ≤ limiter.policy.perClientMax
  · by_cases hkey : commandKey call.clientId call.commandType = commandKey client command
    · refine .inl ⟨?_, fun hok => ?_⟩
      · rw [after_perClientCommand, if_neg (UInt32.not_lt.mpr hover), hkey,
          ExtTreeMap.getElem?_insert_self, commandHit, hkey]
      · have := (told_isOk.mp hok).2
        rwa [commandHit, hkey] at this
    · have hcmp : compare (commandKey call.clientId call.commandType) (commandKey client command) ≠ .eq :=
        fun h => hkey (Std.LawfulEqOrd.eq_of_compare h)
      refine .inr ⟨?_, ?_⟩
      · rw [after_perClientCommand, if_neg (UInt32.not_lt.mpr hover)]
        simp [ExtTreeMap.getElem?_insert, hcmp]
      · rw [Bool.and_eq_false_iff]
        left
        by_contra hkind
        simp only [Bool.not_eq_false, Bool.and_eq_true, beq_iff_eq] at hkind
        exact hkey (by rw [hkind.1, hkind.2])
  · refine .inr ⟨by rw [after_perClientCommand, if_pos (UInt32.not_le.mp hover)], ?_⟩
    rw [Bool.and_eq_false_iff]
    right
    by_contra hok
    exact hover (told_isOk.mp (Bool.not_eq_false _ ▸ hok)).1

/-- Where a counter guards a kind of call, a window of time admits at most twice its limit of them. -/
theorem Guarded.admittedWithin_le {policy : RateLimitPolicy} {limit : UInt32}
    {counter : RateLimiter → Option WindowCounter} {kind : Call → Bool}
    (hguarded : Guarded policy limit counter kind) (hmax : limit.toNat < 2 ^ 32 - 1) (lo : ℕ)
    {calls : List Call} (hclock : calls.Pairwise fun a b => a.nowMs ≤ b.nowMs)
    {limiter : RateLimiter} (hpolicy : limiter.policy = policy) :
    admittedWithin kind lo (lo + policy.windowMs.toNat) (answers limiter calls) ≤ 2 * limit.toNat := by
  have hstep : ∀ (s : RateLimiter) (call : Call), s.policy = policy →
      lo ≤ call.nowMs.toNat → call.nowMs.toNat < lo + policy.windowMs.toNat →
      (if (kind call && (told s call).isOk) = true then 1 else 0) +
        places limit.toNat lo (counter (after s call)) ≤ places limit.toNat lo (counter s) := by
    intro s call hs hlo hhi
    rcases hguarded s call hs with ⟨hhit, hwithin⟩ | ⟨hsame, hnone⟩
    · have hpay := @places_hit limit lo call.nowMs policy.windowMs (counter s) hmax hlo hhi
      rw [hhit]
      refine le_trans (Nat.add_le_add_right ?_ _) hpay
      by_cases hok : (told s call).isOk = true
      · rw [if_pos (hwithin hok)]
        split <;> omega
      · simp [hok]
    · rw [hsame, hnone]
      simp
  have hwindow := Runs.tally_within_le (fun s => places limit.toNat lo (counter s))
    (fun s call (hs : s.policy = policy) => after_policy.trans hs) hstep (fun _ _ => places_le) calls
    limiter hpolicy (hclock.imp fun h => UInt64.le_iff_toNat_le.mp h)
  rw [admittedWithin, answers, Runs.countP_logs]
  refine le_trans (le_of_eq ?_) hwindow
  congr 1
  funext s call
  rw [Runs.within, List.countP_singleton]
  by_cases hin : lo ≤ call.nowMs.toNat ∧ call.nowMs.toNat < lo + policy.windowMs.toNat
  · simp [hin]
  · simp [hin]

/-- **The limit in a window of time.**  For every policy with both limits below `u32::MAX` and every
run of calls on a clock that never goes back, no half-open interval of length `window_ms` sees more
than `2 * per_client_max` admitted calls of one client, nor more than `2 * per_client_command_max` of
one client and one command type. -/
theorem admitted_within_le {policy : RateLimitPolicy} (hclient : policy.perClientMax.toNat < 2 ^ 32 - 1)
    (hcommand : policy.perClientCommandMax.toNat < 2 ^ 32 - 1) {calls : List Call}
    (hclock : calls.Pairwise fun a b => a.nowMs ≤ b.nowMs) (client command : String) (lo : ℕ) :
    admittedWithin (fun call => call.clientId == client) lo (lo + policy.windowMs.toNat)
        (answers { policy } calls) ≤ 2 * policy.perClientMax.toNat ∧
      admittedWithin (fun call => call.clientId == client && call.commandType == command) lo
        (lo + policy.windowMs.toNat) (answers { policy } calls) ≤
          2 * policy.perClientCommandMax.toNat :=
  ⟨(guarded_client policy client).admittedWithin_le hclient lo hclock rfl,
    (guarded_command policy client command).admittedWithin_le hcommand lo hclock rfl⟩

/-- Two calls in a window of 10 ms. -/
def samplePolicy : RateLimitPolicy := { windowMs := 10, perClientMax := 2, perClientCommandMax := 2 }

/-- Calls that are admitted but for the last. -/
def sampleCalls : List Call :=
  [⟨"alice", "stop_agent", 0⟩, ⟨"alice", "stop_agent", 9⟩, ⟨"alice", "stop_agent", 10⟩,
    ⟨"alice", "stop_agent", 12⟩, ⟨"alice", "stop_agent", 13⟩]

theorem admitted_within_guard :
    (answers { policy := samplePolicy } sampleCalls).map (·.2.isOk) = [true, true, true, true, false] ∧
      admittedWithin (fun call => call.clientId == "alice") 9 19
        (answers { policy := samplePolicy } sampleCalls) ≤ 4 ∧
      admittedWithin (fun call => call.clientId == "alice" && call.commandType == "stop_agent") 9 19
        (answers { policy := samplePolicy } sampleCalls) ≤ 4 := by
  have h := @admitted_within_le samplePolicy (by decide) (by decide) sampleCalls (by decide) "alice"
    "stop_agent" 9
  exact ⟨by decide, h.1, h.2⟩

/-! ## Two runs -/

/-- `TS_COMMAND_TYPES`. -/
def tsCommandTypes : List String :=
  ["start_agent", "stop_agent", "query_receipt_chain", "list_active_agents", "get_system_status",
    "apply_policy_update", "install_extension"]

theorem colon_notMem {commandType : String} (h : commandType ∈ tsCommandTypes) :
    ':' ∉ commandType.toList := by
  simp only [tsCommandTypes, List.mem_cons, List.not_mem_nil, or_false] at h
  rcases h with rfl | rfl | rfl | rfl | rfl | rfl | rfl <;> decide

/-- A key tells the client and the command apart, whatever the client is called. -/
theorem commandKey_inj {client other command command' : String} (h : command ∈ tsCommandTypes)
    (h' : command' ∈ tsCommandTypes) (heq : commandKey client command = commandKey other command') :
    client = other ∧ command = command' := by
  have hlist := congrArg String.toList heq
  simp only [commandKey, String.toList_append, List.append_assoc] at hlist
  obtain ⟨hclient, hcommand⟩ :=
    RustStd.append_cons_inj_last (colon_notMem h) (colon_notMem h') hlist
  exact ⟨String.toList_injective hclient, String.toList_injective hcommand⟩

/-- Two limiters under one policy with the same counters for a client. -/
structure Agree (client : String) (a b : RateLimiter) : Prop where
  policy : a.policy = b.policy
  perClient : a.perClient[client]? = b.perClient[client]?
  perClientCommand : ∀ command ∈ tsCommandTypes,
    a.perClientCommand[commandKey client command]? = b.perClientCommand[commandKey client command]?

section Agree

variable {client : String} {a b : RateLimiter} {call : Call}

/-- A call of another client leaves what is agreed on alone. -/
theorem Agree.of_other (h : Agree client a b) (hcommand : call.commandType ∈ tsCommandTypes)
    (hother : call.clientId ≠ client) : Agree client (after a call) b where
  policy := after_policy.trans h.policy
  perClient := by
    have hcmp : compare call.clientId client ≠ .eq := fun h => hother (Std.LawfulEqOrd.eq_of_compare h)
    rw [after_perClient, ExtTreeMap.getElem?_insert, if_neg hcmp]
    exact h.perClient
  perClientCommand command hmem := by
    have hcmp : compare (commandKey call.clientId call.commandType) (commandKey client command) ≠ .eq :=
      fun h => hother (commandKey_inj hcommand hmem (Std.LawfulEqOrd.eq_of_compare h)).1
    rw [after_perClientCommand]
    split
    · exact h.perClientCommand command hmem
    · rw [ExtTreeMap.getElem?_insert, if_neg hcmp]
      exact h.perClientCommand command hmem

/-- A call of the client is told the same by both, and moves both alike. -/
theorem Agree.of_own (h : Agree client a b) (hcommand : call.commandType ∈ tsCommandTypes)
    (hown : call.clientId = client) :
    Agree client (after a call) (after b call) ∧ told a call = told b call := by
  subst hown
  have hclient : clientHit a call = clientHit b call := by
    rw [clientHit, clientHit, h.perClient, h.policy]
  have hboth : commandHit a call = commandHit b call := by
    rw [commandHit, commandHit, h.perClientCommand _ hcommand, h.policy]
  refine ⟨⟨?_, ?_, fun command hmem => ?_⟩, ?_⟩
  · rw [after_policy, after_policy, h.policy]
  · rw [after_perClient, after_perClient, ExtTreeMap.getElem?_insert_self,
      ExtTreeMap.getElem?_insert_self, hclient]
  · rw [after_perClientCommand, after_perClientCommand, hclient, hboth, h.policy]
    split
    · exact h.perClientCommand command hmem
    · rw [ExtTreeMap.getElem?_insert, ExtTreeMap.getElem?_insert, h.perClientCommand command hmem]
  · rw [told_eq, told_eq, hclient, hboth, h.policy]

end Agree

/-- **Clients do not affect each other.**  In every run of calls with the seven command types, with
any clients and any clocks, what the calls of a client are told is what they are told in the run from
which the calls of all others are removed. -/
theorem answers_of_others_removed (policy : RateLimitPolicy) (client : String) {calls : List Call}
    (hcommands : ∀ call ∈ calls, call.commandType ∈ tsCommandTypes) :
    (answers { policy } calls).filter (fun answer => answer.1.clientId == client) =
      answers { policy } (calls.filter fun call => call.clientId == client) := by
  have hdrop : ∀ (a b : RateLimiter) (call : Call), Agree client a b →
      call.commandType ∈ tsCommandTypes → (call.clientId == client) = false →
      Agree client (after a call) b ∧
        [(call, told a call)].filter (fun answer => answer.1.clientId == client) = [] := by
    intro a b call h hcommand hother
    exact ⟨h.of_other hcommand (by simpa using hother), by simp [hother]⟩
  have hkeep : ∀ (a b : RateLimiter) (call : Call), Agree client a b →
      call.commandType ∈ tsCommandTypes → (call.clientId == client) = true →
      Agree client (after a call) (after b call) ∧
        [(call, told a call)].filter (fun answer => answer.1.clientId == client) =
          [(call, told b call)] := by
    intro a b call h hcommand hown
    obtain ⟨hnext, htold⟩ := h.of_own hcommand (by simpa using hown)
    exact ⟨hnext, by simp [hown, htold]⟩
  exact Runs.filter_logs_of_unwinding hdrop hkeep calls { policy } { policy }
    ⟨rfl, rfl, fun _ _ => rfl⟩ hcommands

/-- A client is called what another client's key with a command is called; `alice` uses up her limit,
and the other is not told so. -/
def mixedCalls : List Call :=
  [⟨"alice", "stop_agent", 0⟩, ⟨"alice:stop_agent", "stop_agent", 1⟩, ⟨"alice", "stop_agent", 2⟩,
    ⟨"alice", "start_agent", 3⟩, ⟨"alice:stop_agent", "stop_agent", 4⟩]

theorem answers_of_others_removed_guard :
    (answers { policy := samplePolicy } mixedCalls).map (·.2.isOk) = [true, true, true, false, true] ∧
      (answers { policy := samplePolicy } mixedCalls).filter (fun answer => answer.1.clientId == "alice") =
        answers { policy := samplePolicy } (mixedCalls.filter fun call => call.clientId == "alice") :=
  ⟨by decide, answers_of_others_removed samplePolicy "alice" (by decide)⟩

end Protheus.RateLimits
