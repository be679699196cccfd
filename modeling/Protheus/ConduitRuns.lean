import Protheus.Conduit
import Protheus.Lib.Runs

/-!
Runs of `ConduitSecurityContext::validate` over any envelopes and any server
clock.

Nothing a call leaves behind remembers a nonce, so what limits a replay is the
limiter alone: `replays_bounded` counts the accepted envelopes of a client, and
with them those of one nonce, against the windows started for the client.

The windows run on the `ts_ms` of the envelopes.  A client that is free to choose
it starts a window whenever it likes; `accepted_within_window_le` says that the
bound the limiter is there for, twice the limit in any window of server time,
holds in every run in which a window of the client is started no earlier than
`window_ms` of server time after the last one, which envelopes stamped with the
server clock meet (`Meets.of_stamped`).
-/

namespace Protheus.ConduitRuns

open Std (ExtTreeMap)
open Protheus.ConduitSecurity Protheus.Conduit Protheus.Runs

/-- An envelope, and the server clock it meets. -/
abbrev Call := UInt64 × CommandEnvelope

section Serve

variable (sha256Hex : String → String) (printFloat : ℚ → String)

/-- The context after one call. -/
def serve (context : ConduitSecurityContext) (call : Call) : ConduitSecurityContext :=
  (context.validate sha256Hex printFloat call.1 call.2).1

/-- The call is an accepted one of `client`. -/
def acceptsFrom (client : String) (context : ConduitSecurityContext) (call : Call) : Bool :=
  context.accepts sha256Hex printFloat call.1 call.2 && call.2.security.clientId == client

/-- The call starts a window of `client`. -/
def opensWindow (client : String) (context : ConduitSecurityContext) (call : Call) : Bool :=
  context.reaches sha256Hex printFloat call.1 call.2 && call.2.security.clientId == client &&
    context.rateLimiter.opens client call.2.tsMs

/-- What no call changes: the keys, the required scopes and the limits. -/
structure SameSetup (a b : ConduitSecurityContext) : Prop where
  signer : a.signer = b.signer
  tokenAuthority : a.tokenAuthority = b.tokenAuthority
  required : a.commandRequiredCapabilities = b.commandRequiredCapabilities
  policy : a.rateLimiter.policy = b.rateLimiter.policy

variable {sha256Hex printFloat} {context : ConduitSecurityContext} {client : String}

theorem serve_setup (call : Call) : SameSetup (serve sha256Hex printFloat context call) context := by
  unfold serve
  rw [validate_eq.1]
  split
  · exact ⟨rfl, rfl, rfl, allow_policy⟩
  · exact ⟨rfl, rfl, rfl, rfl⟩

theorem SameSetup.trans {a b c : ConduitSecurityContext} (hab : SameSetup a b) (hbc : SameSetup b c) :
    SameSetup a c where
  signer := hab.signer.trans hbc.signer
  tokenAuthority := hab.tokenAuthority.trans hbc.tokenAuthority
  required := hab.required.trans hbc.required
  policy := hab.policy.trans hbc.policy

theorem before_setup (calls : List Call) (n : ℕ) :
    SameSetup (before (serve sha256Hex printFloat) context calls n) context := by
  have hstep : ∀ (s : ConduitSecurityContext) (call : Call), SameSetup s context →
      SameSetup (serve sha256Hex printFloat s call) context :=
    fun s call hs => (serve_setup call).trans hs
  exact run_invariant hstep (calls.take n) context ⟨rfl, rfl, rfl, rfl⟩

/-- **The accounting of one call.**  An accepted call of the client takes one
place of its window, or of the new window it starts; no other call gives a place
back. -/
theorem room_after_serve (hmax : context.rateLimiter.policy.perClientMax.toNat < 2 ^ 32 - 1)
    (call : Call) :
    (if acceptsFrom sha256Hex printFloat client context call then 1 else 0) +
        (serve sha256Hex printFloat context call).rateLimiter.room client ≤
      if opensWindow sha256Hex printFloat client context call then
        context.rateLimiter.policy.perClientMax.toNat
      else context.rateLimiter.room client := by
  unfold serve acceptsFrom opensWindow
  rw [validate_eq.1, validate_eq.2]
  cases hreach : context.reaches sha256Hex printFloat call.1 call.2 with
  | false => simp
  | true =>
    by_cases hclient : call.2.security.clientId = client
    · subst hclient
      have hroom : (if (context.limit call.2).2 = .ok () then 1 else 0) +
            (context.limit call.2).1.room call.2.security.clientId ≤
          if context.rateLimiter.opens call.2.security.clientId call.2.tsMs then
            context.rateLimiter.policy.perClientMax.toNat
          else context.rateLimiter.room call.2.security.clientId := room_after_allow hmax
      simp only [Bool.true_and, beq_self_eq_true, Bool.and_true, if_true]
      by_cases hok : (context.limit call.2).2 = .ok ()
      · rw [if_pos hok] at hroom
        rwa [if_pos (decide_eq_true hok)]
      · rw [if_neg hok] at hroom
        rwa [if_neg (by simpa using hok)]
    · have := @room_of_ne context.rateLimiter client call.2.security.clientId
        (commandTypeName call.2.command) call.2.tsMs hclient
      simp [hclient, ConduitSecurityContext.limit, this]

/-! ## Replays -/

/-- The accepted calls of a client, over a run. -/
theorem accepted_le (hmax : context.rateLimiter.policy.perClientMax.toNat < 2 ^ 32 - 1)
    (calls : List Call) :
    tally (serve sha256Hex printFloat)
        (fun s call => if acceptsFrom sha256Hex printFloat client s call then 1 else 0) context calls ≤
      context.rateLimiter.room client +
        tally (serve sha256Hex printFloat)
          (fun s call => if opensWindow sha256Hex printFloat client s call then
            context.rateLimiter.policy.perClientMax.toNat else 0) context calls := by
  have hinv : ∀ (s : ConduitSecurityContext) (call : Call), SameSetup s context →
      SameSetup (serve sha256Hex printFloat s call) context :=
    fun s call hs => (serve_setup call).trans hs
  refine tally_le_of_potential (fun s => s.rateLimiter.room client) hinv (fun s call hs => ?_) calls
    context ⟨rfl, rfl, rfl, rfl⟩
  have := @room_after_serve sha256Hex printFloat s client (by rwa [hs.policy]) call
  rw [hs.policy] at this
  by_cases hopens : opensWindow sha256Hex printFloat client s call = true
  · simp only [hopens, if_true] at this ⊢
    omega
  · simp only [hopens, if_false, Bool.false_eq_true] at this ⊢
    omega

/-- The call is an accepted one of `client` that carries `nonce`. -/
def replays (sha256Hex : String → String) (printFloat : ℚ → String) (client nonce : String)
    (context : ConduitSecurityContext) (call : Call) : Bool :=
  acceptsFrom sha256Hex printFloat client context call && call.2.security.nonce == nonce

/-- Whether the `n`-th call of a run is accepted. -/
def acceptsAt (sha256Hex : String → String) (printFloat : ℚ → String)
    (context : ConduitSecurityContext) (calls : List Call) (n : ℕ) : Bool :=
  (calls[n]?).any fun call =>
    (before (serve sha256Hex printFloat) context calls n).accepts sha256Hex printFloat call.1 call.2

/-- An envelope accepted once passes the checks before the limiter as long as its
token lasts. -/
theorem reaches_again {calls : List Call} {i j : ℕ} {envelope : CommandEnvelope} {now now' : UInt64}
    (hi : (before (serve sha256Hex printFloat) context calls i).accepts sha256Hex printFloat now
      envelope = true) :
    (before (serve sha256Hex printFloat) context calls j).reaches sha256Hex printFloat now' envelope =
        true ↔ now' ≤ envelope.security.capabilityToken.expiresAtMs := by
  have hsi := @before_setup sha256Hex printFloat context calls i
  have hsj := @before_setup sha256Hex printFloat context calls j
  rw [validate_eq.2, Bool.and_eq_true] at hi
  obtain ⟨scope, hpass⟩ := reaches_iff.mp hi.1
  rw [reaches_iff]
  constructor
  · rintro ⟨scope', h⟩
    exact h.token.unexpired
  · intro hnow
    refine ⟨scope, ?_, ?_, ?_, ?_, hnow, hpass.token.listed⟩
    · rw [hsj.signer, ← hsi.signer]
      exact hpass.keyId
    · rw [hsj.signer, ← hsi.signer]
      exact hpass.signed
    · rw [hsj.required, ← hsi.required]
      exact hpass.required
    · rw [hsj.tokenAuthority, ← hsi.tokenAuthority]
      exact hpass.token.signed

/-- **Replays are limited, not refused.**  In every run of `validate` over any
envelopes and any server clock: an accepted envelope carries the context's
signature over its client and its nonce; an envelope accepted once is accepted
again exactly while its token lasts and whenever the limiter admits it; and the
accepted envelopes of one client and one nonce are at most the room the client
has left at the start, and `per_client_max` for every window started for it. -/
theorem replays_bounded (nonce : String)
    (hmax : context.rateLimiter.policy.perClientMax.toNat < 2 ^ 32 - 1) (calls : List Call) :
    (∀ i call, calls[i]? = some call → acceptsAt sha256Hex printFloat context calls i = true →
        call.2.security.signature =
          context.signer.signValue sha256Hex printFloat (signingPayload call.2)) ∧
      (∀ i j now now' envelope, calls[i]? = some (now, envelope) → calls[j]? = some (now', envelope) →
        acceptsAt sha256Hex printFloat context calls i = true →
        (acceptsAt sha256Hex printFloat context calls j = true ↔
          now' ≤ envelope.security.capabilityToken.expiresAtMs ∧
            ((before (serve sha256Hex printFloat) context calls j).limit envelope).2 = .ok ())) ∧
      tally (serve sha256Hex printFloat)
          (fun s call => if replays sha256Hex printFloat client nonce s call then 1 else 0)
          context calls ≤
        context.rateLimiter.room client +
          tally (serve sha256Hex printFloat)
            (fun s call => if opensWindow sha256Hex printFloat client s call then
              context.rateLimiter.policy.perClientMax.toNat else 0) context calls := by
  refine ⟨fun i call hcall hacc => ?_, fun i j now now' envelope hi hj hacc => ?_, ?_⟩
  · rw [acceptsAt, hcall, Option.any_some, validate_eq.2, Bool.and_eq_true] at hacc
    obtain ⟨scope, hpass⟩ := reaches_iff.mp hacc.1
    rw [hpass.signed, (before_setup calls i).signer]
  · rw [acceptsAt, hi, Option.any_some] at hacc
    rw [acceptsAt, hj, Option.any_some, validate_eq.2, Bool.and_eq_true, reaches_again hacc,
      decide_eq_true_eq]
  · refine le_trans (tally_le_tally (fun s call => ?_) calls context) (accepted_le hmax calls)
    unfold replays
    cases acceptsFrom sha256Hex printFloat client s call <;>
      cases call.2.security.nonce == nonce <;> simp

/-! ## Windows of server time -/

/-- The context, and the server clock at which the client's window was last started. -/
structure Watched where
  context : ConduitSecurityContext
  /-- When the client's current window was started, on the server clock. -/
  openedAt : Option UInt64 := none

def watch (sha256Hex : String → String) (printFloat : ℚ → String) (client : String) (w : Watched)
    (call : Call) : Watched where
  context := serve sha256Hex printFloat w.context call
  openedAt := if opensWindow sha256Hex printFloat client w.context call then some call.1 else w.openedAt

/-- A call that starts a window of the client comes `window_ms` of server time or
more after the one before. -/
def spaced (sha256Hex : String → String) (printFloat : ℚ → String) (client : String) (w : Watched)
    (call : Call) : Prop :=
  opensWindow sha256Hex printFloat client w.context call = true → ∀ opened ∈ w.openedAt,
    opened.toNat + w.context.rateLimiter.policy.windowMs.toNat ≤ call.1.toNat

/-- How many calls of the client are accepted with the server clock in `[lo, hi)`. -/
def acceptedWithin (sha256Hex : String → String) (printFloat : ℚ → String) (client : String)
    (lo hi : ℕ) (context : ConduitSecurityContext) (calls : List Call) : ℕ :=
  tally (serve sha256Hex printFloat) (fun s call =>
    if lo ≤ call.1.toNat ∧ call.1.toNat < hi ∧ acceptsFrom sha256Hex printFloat client s call = true
    then 1 else 0) context calls

variable {lo hi : ℕ}

/-- Nothing counts once the clock is past the interval. -/
theorem acceptedWithin_eq_zero : ∀ (calls : List Call) (context : ConduitSecurityContext),
    (∀ call ∈ calls, hi ≤ call.1.toNat) →
      acceptedWithin sha256Hex printFloat client lo hi context calls = 0
  | [], _, _ => rfl
  | call :: calls, context, h => by
    have hhead := h call List.mem_cons_self
    have htail := acceptedWithin_eq_zero calls (serve sha256Hex printFloat context call)
      fun c hc => h c (.tail _ hc)
    unfold acceptedWithin at htail ⊢
    rw [tally, htail, if_neg (by omega)]

/-- From a state whose clock has reached the interval on, the accepted calls fit
the room left, and one more window unless it was started in the interval. -/
theorem acceptedWithin_le_of_reached {policy : RateLimitPolicy}
    (hmax : policy.perClientMax.toNat < 2 ^ 32 - 1) :
    ∀ (calls : List Call) (w : Watched), w.context.rateLimiter.policy = policy →
      calls.Pairwise (fun a b => a.1 ≤ b.1) → (∀ call ∈ calls, lo ≤ call.1.toNat) →
      Meets (watch sha256Hex printFloat client) (spaced sha256Hex printFloat client) w calls →
      acceptedWithin sha256Hex printFloat client lo (lo + policy.windowMs.toNat) w.context calls ≤
        w.context.rateLimiter.room client +
          if ∃ opened ∈ w.openedAt, lo ≤ opened.toNat then 0 else policy.perClientMax.toNat
  | [], _, _, _, _, _ => by simp [acceptedWithin, tally]
  | call :: calls, w, hpolicy, hclock, hlo, hmeets => by
    obtain ⟨hle, hclock'⟩ := List.pairwise_cons.mp hclock
    by_cases hin : call.1.toNat < lo + policy.windowMs.toNat
    · have ih := acceptedWithin_le_of_reached hmax calls (watch sha256Hex printFloat client w call)
        ((serve_setup call).policy.trans hpolicy) hclock' (fun c hc => hlo c (.tail _ hc)) hmeets.2
      have hroom := @room_after_serve sha256Hex printFloat w.context client (by rwa [hpolicy]) call
      have hhere := hlo call List.mem_cons_self
      unfold acceptedWithin at ih ⊢
      rw [tally]
      simp only [hhere, hin, true_and]
      rw [hpolicy] at hroom
      by_cases hopens : opensWindow sha256Hex printFloat client w.context call = true
      · -- The window before this one was started before the interval.
        have hold : ¬ ∃ opened ∈ w.openedAt, lo ≤ opened.toNat := by
          rintro ⟨opened, hmem, hopened⟩
          have := hmeets.1 hopens opened hmem
          rw [hpolicy] at this
          omega
        have hnew : ∃ opened ∈ (watch sha256Hex printFloat client w call).openedAt,
            lo ≤ opened.toNat := ⟨call.1, by simp [watch, hopens], hhere⟩
        rw [if_neg hold]
        rw [if_pos hnew] at ih
        rw [if_pos hopens] at hroom
        simp only [watch] at ih
        omega
      · have hsame : (watch sha256Hex printFloat client w call).openedAt = w.openedAt := by
          simp [watch, hopens]
        rw [hsame] at ih
        rw [if_neg hopens] at hroom
        simp only [watch] at ih
        omega
    · rw [acceptedWithin_eq_zero (call :: calls) w.context]
      · exact Nat.zero_le _
      · intro c hc
        rcases List.mem_cons.mp hc with rfl | hc
        · omega
        · have := UInt64.le_iff_toNat_le.mp (hle c hc)
          omega

theorem acceptedWithin_le {policy : RateLimitPolicy}
    (hmax : policy.perClientMax.toNat < 2 ^ 32 - 1) :
    ∀ (calls : List Call) (w : Watched), w.context.rateLimiter.policy = policy →
      calls.Pairwise (fun a b => a.1 ≤ b.1) →
      Meets (watch sha256Hex printFloat client) (spaced sha256Hex printFloat client) w calls →
      acceptedWithin sha256Hex printFloat client lo (lo + policy.windowMs.toNat) w.context calls ≤
        2 * policy.perClientMax.toNat
  | [], _, _, _, _ => by simp [acceptedWithin, tally]
  | call :: calls, w, hpolicy, hclock, hmeets => by
    obtain ⟨hle, hclock'⟩ := List.pairwise_cons.mp hclock
    by_cases hlo : lo ≤ call.1.toNat
    · have hreached : ∀ c ∈ call :: calls, lo ≤ c.1.toNat := by
        intro c hc
        rcases List.mem_cons.mp hc with rfl | hc
        · exact hlo
        · have := UInt64.le_iff_toNat_le.mp (hle c hc)
          omega
      have hbound := acceptedWithin_le_of_reached hmax (call :: calls) w hpolicy hclock hreached
        hmeets
      have hroom := @room_le w.context.rateLimiter client
      rw [hpolicy] at hroom
      refine hbound.trans ?_
      split <;> omega
    · have ih := acceptedWithin_le hmax calls (watch sha256Hex printFloat client w call)
        ((serve_setup call).policy.trans hpolicy) hclock' hmeets.2
      unfold acceptedWithin at ih ⊢
      rw [tally, if_neg (by omega), Nat.zero_add]
      exact ih

/-- Envelopes stamped with the server clock space the windows: the limiter then
runs on the server clock. -/
theorem Meets.of_stamped : ∀ (calls : List Call) (w : Watched),
    w.context.rateLimiter.windowStart client = w.openedAt →
    calls.Pairwise (fun a b => a.1 ≤ b.1) →
    (∀ call ∈ calls, call.2.tsMs = call.1 ∧ ∀ opened ∈ w.openedAt, opened ≤ call.1) →
    Meets (watch sha256Hex printFloat client) (spaced sha256Hex printFloat client) w calls
  | [], _, _, _, _ => trivial
  | call :: calls, w, htracks, hclock, hstamped => by
    obtain ⟨hle, hclock'⟩ := List.pairwise_cons.mp hclock
    obtain ⟨hts, hpast⟩ := hstamped call List.mem_cons_self
    refine ⟨fun hopens opened hmem => ?_, Meets.of_stamped calls _ ?_ hclock' fun c hc => ?_⟩
    · rw [opensWindow, Bool.and_eq_true, hts] at hopens
      exact opens_windowStart hopens.2 (htracks.trans hmem)
        (UInt64.le_iff_toNat_le.mp (hpast opened hmem))
    · simp only [watch, serve, validate_eq.1, opensWindow]
      by_cases hreach : w.context.reaches sha256Hex printFloat call.1 call.2 = true
      · by_cases hclient : call.2.security.clientId = client
        · subst hclient
          simp only [hreach, if_true, ConduitSecurityContext.limit, windowStart_after_allow, htracks,
            hts, beq_self_eq_true, Bool.and_true, Bool.true_and]
        · simp [hreach, ConduitSecurityContext.limit, windowStart_of_ne hclient, htracks, hclient]
      · simpa [hreach] using htracks
    · refine ⟨(hstamped c (.tail _ hc)).1, fun opened hmem => ?_⟩
      simp only [watch] at hmem
      split at hmem
      · cases hmem
        exact hle c hc
      · exact (hstamped c (.tail _ hc)).2 opened hmem

/-- **The limit in server time.**  For every policy with `per_client_max` below
`u32::MAX` and every run with a nondecreasing server clock in which a window of
the client is started no earlier than `window_ms` of server time after the one
before, no half-open interval of length `window_ms` sees more than
`2 * per_client_max` accepted envelopes of the client. -/
theorem accepted_within_window_le
    (hmax : context.rateLimiter.policy.perClientMax.toNat < 2 ^ 32 - 1) (calls : List Call)
    (hclock : calls.Pairwise fun a b => a.1 ≤ b.1)
    (hspaced : Meets (watch sha256Hex printFloat client) (spaced sha256Hex printFloat client)
      { context } calls) (lo : ℕ) :
    acceptedWithin sha256Hex printFloat client lo
        (lo + context.rateLimiter.policy.windowMs.toNat) context calls ≤
      2 * context.rateLimiter.policy.perClientMax.toNat :=
  acceptedWithin_le hmax calls { context } rfl hclock hspaced

end Serve

/-! ## Samples -/

section Samples

variable {limiter : RateLimiter} {client nonce : String} {tsMs now : UInt64}

theorem acceptsFrom_sample (hnow : now ≤ 1000) :
    acceptsFrom id (fun _ => "") client (sampleContext limiter)
        (now, sampleEnvelope client nonce tsMs aliceToken) =
      decide ((limiter.allow client "get_system_status" tsMs).2 = .ok ()) := by
  rw [acceptsFrom, sampleEnvelope_accepts hnow, sampleEnvelope_clientId, beq_self_eq_true,
    Bool.and_true]

theorem serve_sample (hnow : now ≤ 1000) :
    serve id (fun _ => "") (sampleContext limiter)
        (now, sampleEnvelope client nonce tsMs aliceToken) =
      sampleContext (limiter.allow client "get_system_status" tsMs).1 := by
  rw [serve, sampleEnvelope_validate hnow]

/-- The same signed envelope twice, at one reading of the clock. -/
def replayedCalls (client : String) : List Call :=
  [(100, sampleEnvelope client "n" 100 aliceToken), (100, sampleEnvelope client "n" 100 aliceToken)]

theorem replayedCalls_accepted (client : String) :
    acceptsAt id (fun _ => "") freshContext (replayedCalls client) 0 = true ∧
      acceptsAt id (fun _ => "") freshContext (replayedCalls client) 1 = true := by
  have hnow : (100 : UInt64) ≤ 1000 := by decide
  constructor
  · rw [acceptsAt, replayedCalls, List.getElem?_cons_zero, Option.any_some, before_zero, freshContext,
      sampleEnvelope_accepts hnow]
    exact decide_eq_true (fresh_allow_twice _).1
  · rw [acceptsAt, replayedCalls, List.getElem?_cons_succ, List.getElem?_cons_zero, Option.any_some,
      before_succ_of_some _ List.getElem?_cons_zero, before_zero, freshContext, serve_sample hnow,
      sampleEnvelope_accepts hnow]
    exact decide_eq_true (fresh_allow_twice _).2

/-- One client, one nonce, one signature: accepted twice. -/
theorem replay_accepted :
    acceptsAt id (fun _ => "") freshContext (replayedCalls "alice") 0 = true ∧
      acceptsAt id (fun _ => "") freshContext (replayedCalls "alice") 1 = true ∧
      (replayedCalls "alice")[0]? = (replayedCalls "alice")[1]? :=
  ⟨(replayedCalls_accepted "alice").1, (replayedCalls_accepted "alice").2, rfl⟩

theorem replayedCalls_bounded :
    tally (serve id fun _ => "")
        (fun s call => if replays id (fun _ => "") "alice" "n" s call then 1 else 0)
        freshContext (replayedCalls "alice") ≤
      freshContext.rateLimiter.room "alice" +
        tally (serve id fun _ => "") (fun s call =>
          if opensWindow id (fun _ => "") "alice" s call then
            freshContext.rateLimiter.policy.perClientMax.toNat else 0)
          freshContext (replayedCalls "alice") :=
  (replays_bounded "n" (by decide) (replayedCalls "alice")).2.2

/-- A context that admits one call of a client a window. -/
def strictContext : ConduitSecurityContext := sampleContext { policy := { perClientMax := 1 } }

/-- Three envelopes at one reading of the server clock, stamped a window apart. -/
def forgedCalls (client : String) : List Call :=
  [(100, sampleEnvelope client "a" 0 aliceToken), (100, sampleEnvelope client "b" 1000 aliceToken),
    (100, sampleEnvelope client "c" 2000 aliceToken)]

/-- A limit of one call a window admits three calls stamped a window apart. -/
theorem strict_allow_stamped (client commandType : String) :
    (RateLimiter.allow { policy := { perClientMax := 1 } } client commandType 0).2 = .ok () ∧
      ((RateLimiter.allow { policy := { perClientMax := 1 } } client commandType 0).1.allow client
        commandType 1000).2 = .ok () ∧
      (((RateLimiter.allow { policy := { perClientMax := 1 } } client commandType 0).1.allow client
        commandType 1000).1.allow client commandType 2000).2 = .ok () := by
  have h1 : RustStd.satSucc 0 = 1 := by decide
  refine ⟨?_, ?_, ?_⟩ <;> simp [RateLimiter.allow, bump, WindowCounter.increment,
    WindowCounter.stale, RustStd.satSub, h1]

theorem forgedCalls_accepted (client : String) :
    acceptedWithin id (fun _ => "") client 100 1100 strictContext (forgedCalls client) = 3 := by
  have hnow : (100 : UInt64) ≤ 1000 := by decide
  obtain ⟨h1, h2, h3⟩ := strict_allow_stamped client "get_system_status"
  simp [acceptedWithin, strictContext, forgedCalls, tally, serve_sample hnow, acceptsFrom_sample hnow,
    h1, h2, h3]

/-- All three are accepted in an interval that should admit two. -/
theorem forged_stamps_pass :
    ¬ acceptedWithin id (fun _ => "") "alice" 100
        (100 + strictContext.rateLimiter.policy.windowMs.toNat) strictContext (forgedCalls "alice") ≤
      2 * strictContext.rateLimiter.policy.perClientMax.toNat := by
  have hend : 100 + strictContext.rateLimiter.policy.windowMs.toNat = 1100 := by decide
  have hmax : 2 * strictContext.rateLimiter.policy.perClientMax.toNat = 2 := by decide
  rw [hend, hmax, forgedCalls_accepted]
  decide

/-- Two envelopes stamped with the server clock. -/
def stampedCalls : List Call :=
  [(100, sampleEnvelope "alice" "a" 100 aliceToken), (200, sampleEnvelope "alice" "b" 200 aliceToken)]

theorem stampedCalls_within_window :
    acceptedWithin id (fun _ => "") "alice" 100
        (100 + strictContext.rateLimiter.policy.windowMs.toNat) strictContext stampedCalls ≤
      2 * strictContext.rateLimiter.policy.perClientMax.toNat :=
  accepted_within_window_le (by decide) stampedCalls (by simp [stampedCalls])
    (Meets.of_stamped stampedCalls _ (by simp [RateLimiter.windowStart, strictContext, sampleContext])
      (by simp [stampedCalls]) (by simp [stampedCalls, sampleEnvelope])) 100

end Samples

end Protheus.ConduitRuns
