import Protheus.SecretBroker.Tickets

/-!
What a handle that is resolved says.

A broker reads its own tickets back (`openHandle_body`), so with an ideal MAC a handle that
is resolved was issued by the broker, and says what the broker wrote, up to one more
trimming (`resolved_was_issued`).  How long it says so is another matter: both commands take
the time from the payload where it names one, and `resolved_in_time` is what holds of runs
whose payloads name no time that stretches a handle's life.
-/

namespace Protheus.SecretBroker

open Runs

/-! ## What the two commands answer -/

/-- A handle that is issued is that of the call's ticket. -/
theorem issued_spec {host : Host} {key : String} {state : SecretBrokerState} {call : Call}
    {answer : Issued} (h : (issueHandle host key state call).1 = .ok answer) :
    answer.handle = (ticketOf host call).handle host key ∧
      answer.handleId = (ticketOf host call).handleId ∧
      answer.secretId = (ticketOf host call).secretId ∧
      answer.scope = (ticketOf host call).scope ∧
      answer.caller = (ticketOf host call).caller := by
  unfold issueHandle at h
  generalize ticketOf host call = ticket at h ⊢
  generalize loadSecretById host call.secrets call.payload call.clock = loaded at h
  dsimp only at h
  -- the answer is the same whether or not the state file can be written
  split_ifs at h with hid hscope hloaded
  all_goals
    generalize enforced loaded = verdict at h
    cases verdict with
    | some rotation => cases h
    | none =>
      obtain rfl := Except.ok.inj h
      exact ⟨rfl, rfl, rfl, rfl, rfl⟩

/-- A handle is issued where secret and scope are named, the secret can be loaded and its
rotation does not forbid it. -/
theorem issueHandle_ok {host : Host} {key : String} {state : SecretBrokerState} {call : Call}
    (hsecretId : text (call.payload.lookup "secret_id") 160 ≠ "")
    (hscope : text (call.payload.lookup "scope") 180 ≠ "")
    (hloaded : (loadSecretById host call.secrets call.payload call.clock).ok = true)
    (hfresh : enforced (loadSecretById host call.secrets call.payload call.clock) = none) :
    (∃ answer, (issueHandle host key state call).1 = .ok answer) ∧
      (call.writable = true → (issueHandle host key state call).2 = state.insert (rowOf
        (ticketOf host call) (loadSecretById host call.secrets call.payload call.clock))) := by
  rw [← @ticketOf_secretId host] at hsecretId
  rw [← @ticketOf_scope host] at hscope
  unfold issueHandle
  generalize ticketOf host call = ticket at hsecretId hscope ⊢
  generalize loadSecretById host call.secrets call.payload call.clock = loaded at hloaded hfresh ⊢
  dsimp only
  rw [if_neg hsecretId, if_neg hscope, hloaded, if_neg (by decide), hfresh]
  exact ⟨⟨_, rfl⟩, fun hwritable => if_pos hwritable⟩

theorem records_insert (state : SecretBrokerState) (row : SecretHandleStateRow) :
    (state.insert row).records row.handleId = true := by
  rw [SecretBrokerState.records, SecretBrokerState.insert, List.any_cons, beq_self_eq_true,
    Bool.true_or]

/-- A handle is not denied where it is whole, not out of time, agrees with the call and is
recorded. -/
theorem denial_eq_none_iff {state : SecretBrokerState} {call : Call} {handle : Presented} :
    denial state call handle = none ↔
      (handle.handleId ≠ "" ∧ handle.secretId ≠ "" ∧ handle.scope ≠ "" ∧ handle.caller ≠ "") ∧
      nowMs call.payload call.clock < handle.expiresAtMs ∧
      (text (call.payload.lookup "scope") 180 = "" ∨
        text (call.payload.lookup "scope") 180 = handle.scope) ∧
      (text (call.payload.lookup "caller") 180 = "" ∨
        text (call.payload.lookup "caller") 180 = handle.caller) ∧
      state.records handle.handleId = true := by
  unfold denial
  generalize text (call.payload.lookup "scope") 180 = requiredScope
  generalize text (call.payload.lookup "caller") 180 = requiredCaller
  generalize nowMs call.payload call.clock = now
  dsimp only
  have hwhole : (handle.handleId ≠ "" ∧ handle.secretId ≠ "" ∧ handle.scope ≠ "" ∧
      handle.caller ≠ "") ↔
      ¬ (handle.handleId = "" ∨ handle.secretId = "" ∨ handle.scope = "" ∨ handle.caller = "") := by
    rw [not_or, not_or, not_or]
  rw [← Int64.not_le, hwhole]
  split_ifs with hmissing hexpiry hscope hcaller hknown
  · exact ⟨nofun, fun h => absurd hmissing h.1⟩
  · exact ⟨nofun, fun h => absurd hexpiry h.2.1⟩
  · exact ⟨nofun, fun h => absurd h.2.2.1 (not_or.mpr hscope)⟩
  · exact ⟨nofun, fun h => absurd h.2.2.2.1 (not_or.mpr hcaller)⟩
  · rw [Bool.not_eq_true'] at hknown
    exact ⟨nofun, fun h => absurd h.2.2.2.2 (by simp [hknown])⟩
  · have hagrees {asked held : String} (h : ¬ (asked ≠ "" ∧ asked ≠ held)) :
        asked = "" ∨ asked = held := by
      by_cases hasked : asked = ""
      · exact .inl hasked
      · exact .inr (not_not.mp fun hne => h ⟨hasked, hne⟩)
    exact ⟨fun _ => ⟨hmissing, hexpiry, hagrees hscope, hagrees hcaller, by simpa using hknown⟩,
      fun _ => rfl⟩

/-- A handle that is redeemed is not denied, and the secret is loaded by the id it names. -/
theorem redeemed_spec {host : Host} {state : SecretBrokerState} {call : Call} {handle : Presented}
    {answer : Resolved} (h : (redeem host state call handle).1 = .ok answer) :
    denial state call handle = none ∧ answer.handleId = handle.handleId ∧
      answer.secretId = handle.secretId ∧ answer.scope = handle.scope ∧
      answer.caller = handle.caller ∧
      answer.loaded = loadSecretById host call.secrets
        (loadPayload call.payload answer.secretId (nowMs call.payload call.clock)) call.clock := by
  unfold redeem at h
  cases hdenial : denial state call handle with
  | some refusal =>
    rw [hdenial] at h
    cases h
  | none =>
    rw [hdenial] at h
    dsimp only at h
    generalize hload : loadSecretById host call.secrets _ call.clock = loaded at h
    split_ifs at h with hloaded
    all_goals
      obtain rfl := Except.ok.inj h
      exact ⟨rfl, rfl, rfl, rfl, rfl, hload.symm⟩

/-- A handle that is not denied is redeemed where its secret can be loaded. -/
theorem redeem_ok {host : Host} {state : SecretBrokerState} {call : Call} {handle : Presented}
    (hdenial : denial state call handle = none)
    (hloaded : (loadSecretById host call.secrets (loadPayload call.payload handle.secretId
      (nowMs call.payload call.clock)) call.clock).ok = true) :
    ∃ answer, (redeem host state call handle).1 = .ok answer := by
  unfold redeem
  rw [hdenial]
  dsimp only
  rw [hloaded, if_neg (by decide)]
  exact ⟨_, rfl⟩

/-- A handle that is resolved was opened and redeemed. -/
theorem resolved_spec {host : Host} {key : String} {state : SecretBrokerState} {call : Call}
    {answer : Resolved} (h : (resolveHandle host key state call).1 = .ok answer) :
    ∃ fields, openHandle host key (presented call) = .ok fields ∧
      (redeem host state call (presentedOf fields)).1 = .ok answer := by
  unfold resolveHandle at h
  cases hopen : openHandle host key (presented call) with
  | error e =>
    rw [hopen] at h
    cases h
  | ok fields =>
    rw [hopen] at h
    exact ⟨fields, rfl, h⟩

/-! ## Runs -/

section Runs

variable {host : Host} {key : String} {state : SecretBrokerState} {calls : List Call}

/-- HMAC as an ideal MAC: a presented signature is valid only for the body of a handle that
was issued earlier in the run. -/
def Unforged (host : Host) (key : String) (state : SecretBrokerState) (calls : List Call) : Prop :=
  ∀ n call body sig, calls[n]? = some call → call.command = .resolveHandle →
    handleParts (presented call) = some (body, sig) → verifyHandleSig host body sig key = true →
      ∃ m < n, ∃ answer sig', replyAt host key state calls m = some (.issued answer) ∧
        handleParts answer.handle = some (body, sig')

theorem run_issueHandle {call : Call} (h : call.command = .issueHandle) :
    run host key state call =
      (.of .issued (issueHandle host key state call).1, (issueHandle host key state call).2) := by
  rw [run, h]

theorem run_resolveHandle {call : Call} (h : call.command = .resolveHandle) :
    run host key state call =
      (.of .resolved (resolveHandle host key state call).1,
        (resolveHandle host key state call).2) := by
  rw [run, h]

/-- An issued handle of a run comes from an issue call. -/
theorem exists_of_issued {n : ℕ} {answer : Issued}
    (h : replyAt host key state calls n = some (.issued answer)) :
    ∃ call, calls[n]? = some call ∧ call.command = .issueHandle ∧
      (issueHandle host key (stateAt host key state calls n) call).1 = .ok answer := by
  rw [replyAt, Option.map_eq_some_iff] at h
  obtain ⟨call, hcall, hreply⟩ := h
  refine ⟨call, hcall, ?_⟩
  cases hcommand : call.command with
  | issueHandle =>
    rw [run_issueHandle hcommand] at hreply
    dsimp only at hreply
    generalize (issueHandle host key (stateAt host key state calls n) call).1 = result at hreply ⊢
    cases result with
    | error refusal => cases hreply
    | ok issued => exact ⟨rfl, congrArg Except.ok (Reply.issued.inj hreply)⟩
  | resolveHandle =>
    rw [run_resolveHandle hcommand] at hreply
    dsimp only at hreply
    generalize (resolveHandle host key (stateAt host key state calls n) call).1 = result at hreply
    cases result <;> cases hreply

/-- A resolved handle of a run comes from a resolve call. -/
theorem resolve_of_resolved {n : ℕ} {call : Call} {answer : Resolved} (hcall : calls[n]? = some call)
    (h : replyAt host key state calls n = some (.resolved answer)) :
    call.command = .resolveHandle ∧
      (resolveHandle host key (stateAt host key state calls n) call).1 = .ok answer := by
  rw [replyAt, hcall, Option.map_some] at h
  have hreply := Option.some.inj h
  cases hcommand : call.command with
  | issueHandle =>
    rw [run_issueHandle hcommand] at hreply
    dsimp only at hreply
    generalize (issueHandle host key (stateAt host key state calls n) call).1 = result at hreply
    cases result <;> cases hreply
  | resolveHandle =>
    rw [run_resolveHandle hcommand] at hreply
    dsimp only at hreply
    generalize (resolveHandle host key (stateAt host key state calls n) call).1 = result at hreply ⊢
    cases result with
    | error refusal => cases hreply
    | ok resolved => exact ⟨rfl, congrArg Except.ok (Reply.resolved.inj hreply)⟩

theorem signed_of_openHandle {handle : String} {fields : List (String × Json)}
    (h : openHandle host key handle = .ok fields) :
    ∃ body sig, handleParts handle = some (body, sig) ∧ verifyHandleSig host body sig key = true := by
  unfold openHandle at h
  cases hparts : handleParts handle with
  | none =>
    rw [hparts] at h
    cases h
  | some parts =>
    rw [hparts] at h
    dsimp only at h
    refine ⟨parts.1, parts.2, rfl, ?_⟩
    cases hverified : verifyHandleSig host parts.1 parts.2 key with
    | true => rfl
    | false =>
      rw [hverified] at h
      cases h

/-- **Handles are unforgeable and bound.**  With an ideal MAC, and where no text of an issue
call is cut behind a blank, a handle that is resolved was issued earlier in the run: it
reports the id, the secret, the scope and the caller that were answered then, and its secret
is loaded by the id named then; scope and caller agree with those the call asks for, and
its id stands in the state file. -/
theorem resolved_was_issued (libraries : Libraries host) (hmac : Unforged host key state calls)
    (htrimmed : ∀ call ∈ calls, call.command = .issueHandle → call.Trimmed) (n : ℕ) (call : Call)
    (answer : Resolved) (hcall : calls[n]? = some call)
    (hresolved : replyAt host key state calls n = some (.resolved answer)) :
    (∃ m < n, ∃ issued, replyAt host key state calls m = some (.issued issued) ∧
      answer.handleId = issued.handleId ∧ answer.secretId = issued.secretId ∧
      answer.scope = issued.scope ∧ answer.caller = issued.caller ∧
      answer.loaded = loadSecretById host call.secrets
        (loadPayload call.payload issued.secretId (nowMs call.payload call.clock)) call.clock) ∧
    (text (call.payload.lookup "scope") 180 = "" ∨
      text (call.payload.lookup "scope") 180 = answer.scope) ∧
    (text (call.payload.lookup "caller") 180 = "" ∨
      text (call.payload.lookup "caller") 180 = answer.caller) ∧
    (stateAt host key state calls n).records answer.handleId = true := by
  obtain ⟨hcommand, hresolve⟩ := resolve_of_resolved hcall hresolved
  obtain ⟨fields, hopen, hredeem⟩ := resolved_spec hresolve
  obtain ⟨hdenial, hid, hsecretId, hscope, hcaller, hloaded⟩ := redeemed_spec hredeem
  obtain ⟨-, -, hasksScope, hasksCaller, hrecorded⟩ := denial_eq_none_iff.mp hdenial
  rw [← hid] at hrecorded
  rw [← hscope] at hasksScope
  rw [← hcaller] at hasksCaller
  refine ⟨?_, hasksScope, hasksCaller, hrecorded⟩
  obtain ⟨body, sig, hparts, hverified⟩ := signed_of_openHandle hopen
  obtain ⟨m, hm, issued, sig', hissued, hparts'⟩ :=
    hmac n call body sig hcall hcommand hparts hverified
  obtain ⟨call', hcall', hcommand', hissue⟩ := exists_of_issued hissued
  obtain ⟨hhandle, hid', hsecretId', hscope', hcaller'⟩ := issued_spec hissue
  have hbody : body = (ticketOf host call').body host := by
    rw [hhandle, handleParts_handle] at hparts'
    exact (Prod.mk.inj (Option.some.inj hparts')).1.symm
  subst hbody
  have hfields := openHandle_body libraries hparts hopen
  subst hfields
  obtain ⟨hsame, hsame', hsame''⟩ :=
    @presentedOf_ticketOf host call' (htrimmed call' (List.mem_of_getElem? hcall') hcommand')
  have hsameId : answer.secretId = issued.secretId := by
    rw [hsecretId, hsecretId', hsame]
  refine ⟨m, hm, issued, hissued, ?_, hsameId, ?_, ?_, ?_⟩
  · rw [hid, hid', presentedOf_handleId call' libraries]
  · rw [hscope, hscope', hsame']
  · rw [hcaller, hcaller', hsame'']
  · rw [hloaded, hsameId]

/-- What a payload's time may do to the life of a handle: an issue call names a time from
which the lifetime ends no later than an hour from the clock, a resolve call names no time
before the clock. -/
def Call.Punctual (call : Call) : Prop :=
  match call.command with
  | .issueHandle =>
    (nowMs call.payload call.clock).toInt + (ttlSec call.payload).toInt * 1000 ≤
      call.clock.toInt + 3600000
  | .resolveHandle => call.clock ≤ nowMs call.payload call.clock

theorem ttlSec_bounds (payload : List (String × Json)) :
    30 ≤ (ttlSec payload).toInt ∧ (ttlSec payload).toInt ≤ 3600 := by
  unfold ttlSec
  generalize (intValue (payload.lookup "ttl_sec")).getD 300 = asked
  have hlow : (30 : Int64).toInt = 30 := rfl
  have hhigh : (3600 : Int64).toInt = 3600 := rfl
  dsimp only
  split_ifs with hshort hlong
  · rw [hlow]
    omega
  · rw [hhigh]
    omega
  · rw [Int64.lt_iff_toInt_lt] at hshort hlong
    omega

/-- A handle never runs out later than the time it was issued at and its lifetime say: the
sum may wrap around, but only to an earlier time. -/
theorem expiryOf_le (call : Call) :
    (expiryOf call).toInt ≤
      (nowMs call.payload call.clock).toInt + (ttlSec call.payload).toInt * 1000 := by
  obtain ⟨hlow, hhigh⟩ := ttlSec_bounds call.payload
  have hnow := Int64.le_toInt (nowMs call.payload call.clock)
  rw [expiryOf, Int64.toInt_add, Int64.toInt_mul, show (1000 : Int64).toInt = 1000 from rfl]
  generalize (nowMs call.payload call.clock).toInt = now at hnow ⊢
  generalize (ttlSec call.payload).toInt = ttl at hlow hhigh ⊢
  have hbmod : ∀ x : ℤ, -2 ^ 63 ≤ x → x.bmod (2 ^ 64) ≤ x := by
    intro x hx
    rw [Int.bmod_def]
    split <;> omega
  have hmul : (ttl * 1000).bmod (2 ^ 64) = ttl * 1000 := by
    rw [Int.bmod_def]
    split <;> omega
  rw [hmul]
  exact hbmod _ (by omega)

/-- **Handles expire.**  In a run of punctual calls no handle is resolved an hour or more
after the clock's time at which it was issued, and none at or after the time it says it
runs out. -/
theorem resolved_in_time (libraries : Libraries host)
    (hpunctual : ∀ call ∈ calls, call.Punctual) (n : ℕ) (call : Call) (answer : Resolved)
    (hcall : calls[n]? = some call)
    (hresolved : replyAt host key state calls n = some (.resolved answer)) :
    (∀ m call' issued body sig sig', calls[m]? = some call' →
      replyAt host key state calls m = some (.issued issued) →
      handleParts issued.handle = some (body, sig) →
      handleParts (presented call) = some (body, sig') →
        call.clock.toInt < call'.clock.toInt + 3600000) ∧
    (∀ fields, openHandle host key (presented call) = .ok fields →
      call.clock < (intValue (fields.lookup "expires_at_ms")).getD 0) := by
  obtain ⟨hcommand, hresolve⟩ := resolve_of_resolved hcall hresolved
  obtain ⟨fields, hopen, hredeem⟩ := resolved_spec hresolve
  have hdenial := (redeemed_spec hredeem).1
  have hnow : call.clock ≤ nowMs call.payload call.clock := by
    have h := hpunctual call (List.mem_of_getElem? hcall)
    rwa [Call.Punctual, hcommand] at h
  have hexpiry : call.clock.toInt < (presentedOf fields).expiresAtMs.toInt := by
    have h := (denial_eq_none_iff.mp hdenial).2.1
    rw [Int64.lt_iff_toInt_lt] at h
    rw [Int64.le_iff_toInt_le] at hnow
    omega
  constructor
  · intro m call' issued body sig sig' hcall' hissued hparts hparts'
    obtain ⟨call'', hcall'', hcommand', hissue⟩ := exists_of_issued hissued
    obtain rfl : call' = call'' := Option.some.inj (hcall'.symm.trans hcall'')
    rw [(issued_spec hissue).1, handleParts_handle] at hparts
    obtain rfl := (Prod.mk.inj (Option.some.inj hparts)).1
    have hfields := openHandle_body libraries hparts' hopen
    subst hfields
    have hlife : (nowMs call'.payload call'.clock).toInt + (ttlSec call'.payload).toInt * 1000 ≤
        call'.clock.toInt + 3600000 := by
      have h := hpunctual call' (List.mem_of_getElem? hcall')
      rwa [Call.Punctual, hcommand'] at h
    have hend := expiryOf_le call'
    rw [presentedOf_map] at hexpiry
    dsimp only at hexpiry
    rw [ticketOf_expiresMs] at hexpiry
    omega
  · intro fields' hopen'
    obtain rfl := Except.ok.inj (hopen'.symm.trans hopen)
    exact Int64.lt_iff_toInt_lt.mpr hexpiry

end Runs

/-! ## Runs on concrete inputs -/

/-- The ticket a JSON text was written from. -/
noncomputable def readBack (bytes : List UInt8) : Option Json :=
  open Classical in
  if h : ∃ ticket : Ticket,
      (V8Kernel.plainHost.toText (.ofFields ticket.fields)).toUTF8.data.toList = bytes then
    some (.ofFields h.choose.fields)
  else none

/-- A host whose digests spell their texts out and whose MACs are short of secrets. -/
noncomputable def plainBroker : Host where
  toHost := V8Kernel.plainHost
  hmacSha256 key body := List.replicate 32 (UInt8.ofNat (key.length + body.length))
  roundFloat := .finite
  parseJson := readBack
  parseRfc3339 _ := none
  isoText _ := some "1970-01-01T00:00:00.000Z"

theorem plainBroker_lengths : Lengths plainBroker where
  mac _ _ := List.length_replicate
  stamp _ stamp h := by
    obtain rfl := Option.some.inj h
    decide

theorem plainBroker_toHost : plainBroker.toHost = V8Kernel.plainHost := rfl

theorem plainBroker_libraries : Libraries plainBroker where
  hex s := (V8Kernel.isHex_hexText s).2
  readsBack ticket := by
    have hexists : ∃ ticket' : Ticket,
        (V8Kernel.plainHost.toText (.ofFields ticket'.fields)).toUTF8.data.toList =
          ticket.bytes plainBroker := ⟨ticket, by rw [Ticket.bytes, plainBroker_toHost]⟩
    change readBack (ticket.bytes plainBroker) = _
    rw [readBack, dif_pos hexists]
    have hbytes := hexists.choose_spec
    generalize hexists.choose = ticket' at hbytes ⊢
    rw [Ticket.bytes, plainBroker_toHost, Array.toList_inj] at hbytes
    have htext : V8Kernel.plainHost.toText (.ofFields ticket'.fields) =
        V8Kernel.plainHost.toText (.ofFields ticket.fields) :=
      String.toByteArray_inj.mp (ByteArray.ext hbytes)
    have hvalue : Json.ofFields ticket'.fields = .ofFields ticket.fields := by
      apply Json.render_injective V8Kernel.floatText_pointed
      exact htext
    rw [hvalue]

/-- What an environment variable answers. -/
def envAnswer : Json := .obj [("ok", .bool true), ("value", .str "s3cret")]

def envProvider : Provider := ⟨.env, true, some envAnswer⟩

/-- One secret with one provider. -/
def apiKey : List (String × SecretSpec) :=
  [("api_key", ⟨[envProvider], ⟨.finite 30, .finite 60, false, false⟩⟩)]

/-- The state before anything is issued. -/
def noneIssued : SecretBrokerState := ⟨"1.1", []⟩

/-- A handle is issued to a caller when the clock shows zero. -/
def issueTo (caller : String) : Call where
  command := .issueHandle
  payload := [("caller", .str caller), ("scope", .str "deploy"), ("secret_id", .str "api_key")]
  clock := 0
  secrets := apiKey
  writable := true

/-- The handle is handed back later, with further fields in the payload. -/
noncomputable def handBack (caller : String) (clock : Int64) (fields : List (String × Json)) :
    Call where
  command := .resolveHandle
  payload := ("handle", .str ((ticketOf plainBroker (issueTo caller)).handle plainBroker "key")) ::
    fields
  clock := clock
  secrets := apiKey
  writable := true

/-- A handle is issued and handed back. -/
noncomputable def roundTrip (caller : String) (clock : Int64) (fields : List (String × Json)) :
    List Call :=
  [issueTo caller, handBack caller clock fields]

/-- The provider's secret is loaded, and its rotation forbids nothing. -/
theorem apiKey_loaded {payload : List (String × Json)} (clock : Int64)
    (h : text (payload.lookup "secret_id") 160 = "api_key") :
    (loadSecretById plainBroker apiKey payload clock).ok = true ∧
      enforced (loadSecretById plainBroker apiKey payload clock) = none := by
  have hvalue : text (some (.str "s3cret")) 8192 = "s3cret" :=
    text_of_visible (by simp [RustStd.isWhitespace]) (by decide)
  have hspec : apiKey.lookup "api_key" = some ⟨[envProvider], ⟨.finite 30, .finite 60, false, false⟩⟩ :=
    rfl
  have hread : readAnswer envProvider = .ok ("s3cret", envAnswer) := by
    rw [readAnswer, show envProvider.answer = some envAnswer from rfl]
    dsimp only
    rw [show envAnswer.get? "ok" = some (.bool true) from rfl,
      show envAnswer.get? "value" = some (.str "s3cret") from rfl, hvalue]
    rfl
  unfold loadSecretById
  dsimp only
  rw [h, hspec]
  dsimp only
  rw [firstValue, show envProvider.enabled = true from rfl, hread]
  exact ⟨rfl, rfl⟩

theorem text_apiKey : text (some (.str "api_key")) 160 = "api_key" :=
  text_of_visible (by simp [RustStd.isWhitespace]) (by decide)

theorem text_deploy : text (some (.str "deploy")) 180 = "deploy" :=
  text_of_visible (by simp [RustStd.isWhitespace]) (by decide)

section RoundTrip

variable (caller : String) (clock : Int64) (fields : List (String × Json))

/-- The handle of a round trip. -/
noncomputable def ownTicket : Ticket := ticketOf plainBroker (issueTo caller)

theorem roundTrip_issued :
    (∃ answer, replyAt plainBroker "key" noneIssued (roundTrip caller clock fields) 0 =
      some (.issued answer) ∧ answer.handle = (ownTicket caller).handle plainBroker "key" ∧
        answer.caller = callerOf (issueTo caller).payload) ∧
      (stateAt plainBroker "key" noneIssued (roundTrip caller clock fields) 1).records
        (ownTicket caller).handleId = true := by
  have hsecretId : text ((issueTo caller).payload.lookup "secret_id") 160 = "api_key" := by
    rw [show (issueTo caller).payload.lookup "secret_id" = some (.str "api_key") from rfl,
      text_apiKey]
  have hscope : text ((issueTo caller).payload.lookup "scope") 180 ≠ "" := by
    rw [show (issueTo caller).payload.lookup "scope" = some (.str "deploy") from rfl, text_deploy]
    decide
  obtain ⟨hloaded, hfresh⟩ := apiKey_loaded (issueTo caller).clock hsecretId
  obtain ⟨⟨answer, hanswer⟩, hstate⟩ := @issueHandle_ok plainBroker "key" noneIssued
    (issueTo caller) (by rw [hsecretId]; decide) hscope hloaded hfresh
  obtain ⟨hhandle, -, -, -, hcaller⟩ := issued_spec hanswer
  have hfirst : (roundTrip caller clock fields)[0]? = some (issueTo caller) := rfl
  constructor
  · refine ⟨answer, ?_, hhandle, hcaller.trans (ticketOf_caller _)⟩
    rw [replyAt, hfirst, Option.map_some, stateAt, before_zero, run_issueHandle rfl, hanswer]
    rfl
  · rw [stateAt, before_succ_of_some _ hfirst, before_zero, step, run_issueHandle rfl, hstate rfl]
    exact records_insert _ (rowOf (ownTicket caller) _)

theorem roundTrip_unforged :
    Unforged plainBroker "key" noneIssued (roundTrip caller clock fields) := by
  obtain ⟨⟨answer, hanswer, hhandle, -⟩, -⟩ := roundTrip_issued caller clock fields
  intro n call body sig hcall hcommand hparts _
  match n with
  | 0 =>
    obtain rfl := Option.some.inj hcall
    cases hcommand
  | 1 =>
    obtain rfl := Option.some.inj hcall
    have hpresented : presented (handBack caller clock fields) = _ :=
      @presented_handle plainBroker plainBroker_lengths "key" _ (issueTo caller) rfl
    rw [hpresented] at hparts
    exact ⟨0, by decide, answer, sig, hanswer, hhandle ▸ hparts⟩
  | n + 2 => cases hcall

theorem lookup_handBack {name : String} (h : name ≠ "handle") :
    (handBack caller clock fields).payload.lookup name = fields.lookup name := by
  have hname : (name == "handle") = false := by simpa using h
  rw [handBack, List.lookup_cons, hname]

theorem ownTicket_presented :
    (presentedOf (ownTicket caller).map).handleId = (ownTicket caller).handleId ∧
      (presentedOf (ownTicket caller).map).secretId = "api_key" ∧
      (presentedOf (ownTicket caller).map).scope = "deploy" ∧
      (presentedOf (ownTicket caller).map).caller =
        text (some (.str (callerOf (issueTo caller).payload))) 180 ∧
      (presentedOf (ownTicket caller).map).expiresAtMs = 300000 := by
  have hid : (presentedOf (ownTicket caller).map).handleId = (ownTicket caller).handleId :=
    presentedOf_handleId (issueTo caller) plainBroker_libraries
  refine ⟨hid, ?_, ?_, ?_, ?_⟩
  · rw [presentedOf_map, ownTicket]
    dsimp only
    rw [ticketOf_secretId, show (issueTo caller).payload.lookup "secret_id" =
      some (.str "api_key") from rfl, text_apiKey, text_apiKey]
  · rw [presentedOf_map, ownTicket]
    dsimp only
    rw [ticketOf_scope, show (issueTo caller).payload.lookup "scope" = some (.str "deploy") from rfl,
      text_deploy, text_deploy]
  · rw [presentedOf_map, ownTicket]
    dsimp only
    rw [ticketOf_caller]
  · rw [presentedOf_map, ownTicket]
    dsimp only
    rw [ticketOf_expiresMs, expiryOf, nowMs, ttlSec,
      show (issueTo caller).payload.lookup "now_ms" = none from rfl,
      show (issueTo caller).payload.lookup "ttl_sec" = none from rfl,
      show (issueTo caller).clock = 0 from rfl]
    decide

/-- The handle is resolved where it has not run out. -/
theorem roundTrip_resolved (hscope : fields.lookup "scope" = none)
    (hcaller : fields.lookup "caller" = none) (hnow : nowMs fields clock < 300000)
    (hnamed : text (some (.str (callerOf (issueTo caller).payload))) 180 ≠ "") :
    ∃ answer, replyAt plainBroker "key" noneIssued (roundTrip caller clock fields) 1 =
      some (.resolved answer) ∧
        answer.caller = text (some (.str (callerOf (issueTo caller).payload))) 180 := by
  obtain ⟨-, hrecorded⟩ := roundTrip_issued caller clock fields
  obtain ⟨hid, hsecretId, hscope', hcaller', hexpiry⟩ := ownTicket_presented caller
  have hsecond : (roundTrip caller clock fields)[1]? = some (handBack caller clock fields) := rfl
  have hpresented : presented (handBack caller clock fields) =
      (ownTicket caller).handle plainBroker "key" :=
    @presented_handle plainBroker plainBroker_lengths "key" _ (issueTo caller) rfl
  have hclock : nowMs (handBack caller clock fields).payload clock = nowMs fields clock := by
    rw [nowMs, nowMs, lookup_handBack caller clock fields (by decide)]
  have hdenial : denial (stateAt plainBroker "key" noneIssued (roundTrip caller clock fields) 1)
      (handBack caller clock fields) (presentedOf (ownTicket caller).map) = none := by
    apply denial_eq_none_iff.mpr
    rw [lookup_handBack caller clock fields (by decide),
      lookup_handBack caller clock fields (by decide), hscope, hcaller, text_none, hid, hsecretId,
      hscope', hcaller', hexpiry]
    refine ⟨⟨?_, by decide, by decide, hnamed⟩, ?_, .inl rfl, .inl rfl, hrecorded⟩
    · obtain ⟨value, hvalue⟩ := @ticketOf_handleId plainBroker (issueTo caller)
      rw [ownTicket, hvalue]
      intro hempty
      have hlength := congrArg String.length hempty
      rw [String.length_append] at hlength
      exact absurd hlength (by simp)
    · exact hclock ▸ hnow
  have hsecret : text ((loadPayload (handBack caller clock fields).payload
      (presentedOf (ownTicket caller).map).secretId
      (nowMs (handBack caller clock fields).payload clock)).lookup "secret_id") 160 = "api_key" := by
    rw [hsecretId]
    exact text_apiKey
  obtain ⟨answer, hanswer⟩ := redeem_ok hdenial (apiKey_loaded clock hsecret).1
  refine ⟨answer, ?_, ?_⟩
  · rw [replyAt, hsecond, Option.map_some, run_resolveHandle rfl, resolveHandle, hpresented,
      openHandle_handle plainBroker_libraries]
    dsimp only
    rw [hanswer]
    rfl
  · rw [(redeemed_spec hanswer).2.2.2.2.1, hcaller']

end RoundTrip

theorem callerOf_issueTo {caller : String} (h : text (some (.str caller)) 180 ≠ "") :
    callerOf (issueTo caller).payload = text (some (.str caller)) 180 := by
  rw [callerOf, show (issueTo caller).payload.lookup "caller" = some (.str caller) from rfl]
  exact if_neg h

theorem text_ci : text (some (.str "ci")) 180 = "ci" :=
  text_of_visible (by simp [RustStd.isWhitespace]) (by decide)

theorem callerOf_ci : callerOf (issueTo "ci").payload = "ci" := by
  rw [callerOf_issueTo (by rw [text_ci]; decide), text_ci]

theorem ci_trimmed (clock : Int64) (fields : List (String × Json)) :
    ∀ call ∈ roundTrip "ci" clock fields, call.command = .issueHandle → call.Trimmed := by
  intro call hcall hcommand
  rcases List.mem_cons.mp hcall with rfl | hcall
  · intro s hs
    rw [show (issueTo "ci").payload.lookup "secret_id" = some (.str "api_key") from rfl,
      show (issueTo "ci").payload.lookup "scope" = some (.str "deploy") from rfl, text_apiKey,
      text_deploy, callerOf_ci] at hs
    apply RustStd.trim_eq_self
    revert s
    simp [RustStd.isWhitespace]
  · obtain rfl := List.mem_singleton.mp hcall
    cases hcommand

/-- A handle issued to `ci` and resolved a minute later. -/
theorem ci_was_issued :
    ∃ answer, replyAt plainBroker "key" noneIssued (roundTrip "ci" 60000 []) 1 =
        some (.resolved answer) ∧
      ∃ m < 1, ∃ issued, replyAt plainBroker "key" noneIssued (roundTrip "ci" 60000 []) m =
        some (.issued issued) ∧ answer.caller = issued.caller := by
  obtain ⟨answer, hresolved, -⟩ := roundTrip_resolved "ci" 60000 [] rfl rfl (by decide)
    (by rw [callerOf_ci, text_ci]; decide)
  obtain ⟨⟨m, hm, issued, hissued, -, -, -, hsame, -⟩, -⟩ :=
    resolved_was_issued plainBroker_libraries (roundTrip_unforged "ci" 60000 [])
      (ci_trimmed 60000 []) 1 _ answer rfl hresolved
  exact ⟨answer, hresolved, m, hm, issued, hissued, hsame⟩

/-- A name that is cut behind a blank loses the blank when it is read again. -/
theorem text_cut (n : ℕ) :
    text (some (.str (String.ofList (List.replicate (n + 1) 'a' ++ [' ', 'b'])))) (n + 2) =
        String.ofList (List.replicate (n + 1) 'a' ++ [' ']) ∧
      text (some (.str (String.ofList (List.replicate (n + 1) 'a' ++ [' '])))) (n + 2) =
        String.ofList (List.replicate (n + 1) 'a') := by
  have hfront (rest : List Char) :
      (List.replicate (n + 1) 'a' ++ rest).dropWhile RustStd.isWhitespace =
        List.replicate (n + 1) 'a' ++ rest := by
    rw [List.replicate_succ, List.cons_append, List.dropWhile_cons_of_neg (by decide)]
  constructor
  · rw [text_str, V8Kernel.clean, RustStd.trim, String.toList_ofList, String.toList_ofList, hfront,
      List.reverse_append, show [' ', 'b'].reverse = ['b', ' '] from rfl, List.cons_append,
      List.dropWhile_cons_of_neg (by decide)]
    simp [List.take_append]
  · have hback := hfront []
    rw [List.append_nil] at hback
    rw [text_str, V8Kernel.clean, RustStd.trim, String.toList_ofList, String.toList_ofList, hfront,
      List.reverse_append, show [' '].reverse = [' '] from rfl, List.cons_append,
      List.dropWhile_cons_of_pos (by decide), List.nil_append, List.reverse_replicate, hback]
    simp

/-- A caller whose name is cut behind a blank. -/
def cutCaller : String := String.ofList (List.replicate 179 'a' ++ [' ', 'b'])

theorem text_cutCaller :
    text (some (.str cutCaller)) 180 = String.ofList (List.replicate 179 'a' ++ [' ']) ∧
      text (some (.str (String.ofList (List.replicate 179 'a' ++ [' '])))) 180 =
        String.ofList (List.replicate 179 'a') :=
  text_cut 178

/-- The handle of such a caller is resolved for another one. -/
theorem cutCaller_not_issued :
    Unforged plainBroker "key" noneIssued (roundTrip cutCaller 60000 []) ∧
      ∃ answer, replyAt plainBroker "key" noneIssued (roundTrip cutCaller 60000 []) 1 =
          some (.resolved answer) ∧
        ∀ m < 1, ∀ issued, replyAt plainBroker "key" noneIssued (roundTrip cutCaller 60000 []) m =
          some (.issued issued) → answer.caller ≠ issued.caller := by
  obtain ⟨hcut, hagain⟩ := text_cutCaller
  have hshort : (String.ofList (List.replicate 179 'a')).length = 179 := by
    rw [String.length_ofList, List.length_replicate]
  have hlong : (String.ofList (List.replicate 179 'a' ++ [' '])).length = 180 := by
    rw [String.length_ofList, List.length_append, List.length_replicate, List.length_singleton]
  have hempty {s : String} (h : s.length ≠ 0) : s ≠ "" := by
    rintro rfl
    exact h rfl
  have hcaller : callerOf (issueTo cutCaller).payload =
      String.ofList (List.replicate 179 'a' ++ [' ']) := by
    rw [callerOf_issueTo (by rw [hcut]; exact hempty (by omega)), hcut]
  obtain ⟨answer, hresolved, hanswer⟩ := roundTrip_resolved cutCaller 60000 [] rfl rfl (by decide)
    (by rw [hcaller, hagain]; exact hempty (by omega))
  refine ⟨roundTrip_unforged cutCaller 60000 [], answer, hresolved, ?_⟩
  intro m hm issued hissued hsame
  obtain rfl : m = 0 := by omega
  obtain ⟨⟨issued', hissued', -, hcaller'⟩, -⟩ := roundTrip_issued cutCaller 60000 []
  obtain rfl := Reply.issued.inj (Option.some.inj (hissued.symm.trans hissued'))
  rw [hanswer, hcaller', hcaller, hagain] at hsame
  have hlength := congrArg String.length hsame
  omega

/-- The handle issued to `ci` when the clock shows zero is resolved within the hour. -/
theorem ci_in_time :
    ∃ answer, replyAt plainBroker "key" noneIssued (roundTrip "ci" 60000 []) 1 =
        some (.resolved answer) ∧
      ∀ m call' issued body sig sig', (roundTrip "ci" 60000 [])[m]? = some call' →
        replyAt plainBroker "key" noneIssued (roundTrip "ci" 60000 []) m = some (.issued issued) →
        handleParts issued.handle = some (body, sig) →
        handleParts (presented (handBack "ci" 60000 [])) = some (body, sig') →
          (60000 : Int64).toInt < call'.clock.toInt + 3600000 := by
  obtain ⟨answer, hresolved, -⟩ := roundTrip_resolved "ci" 60000 [] rfl rfl (by decide)
    (by rw [callerOf_ci, text_ci]; decide)
  have hpunctual : ∀ call ∈ roundTrip "ci" 60000 [], call.Punctual := by
    intro call hcall
    rcases List.mem_cons.mp hcall with rfl | hcall
    · rw [Call.Punctual, show (issueTo "ci").command = .issueHandle from rfl]
      dsimp only
      rw [nowMs, ttlSec, show (issueTo "ci").payload.lookup "now_ms" = none from rfl,
        show (issueTo "ci").payload.lookup "ttl_sec" = none from rfl,
        show (issueTo "ci").clock = 0 from rfl]
      decide
    · obtain rfl := List.mem_singleton.mp hcall
      rw [Call.Punctual, nowMs, lookup_handBack "ci" 60000 [] (by decide)]
      exact Int64.le_refl _
  exact ⟨answer, hresolved, (resolved_in_time plainBroker_libraries hpunctual 1 _ answer rfl
    hresolved).1⟩

/-- Two hours after it was issued the handle is resolved for a payload that names an earlier
time. -/
theorem ci_not_expired :
    ∃ answer issued, replyAt plainBroker "key" noneIssued
        (roundTrip "ci" 7200000 [("now_ms", .ofInt 1)]) 1 = some (.resolved answer) ∧
      replyAt plainBroker "key" noneIssued (roundTrip "ci" 7200000 [("now_ms", .ofInt 1)]) 0 =
        some (.issued issued) ∧
      handleParts issued.handle = handleParts (presented (handBack "ci" 7200000
        [("now_ms", .ofInt 1)])) ∧
      (issueTo "ci").clock.toInt + 3600000 ≤ (7200000 : Int64).toInt := by
  obtain ⟨answer, hresolved, -⟩ := roundTrip_resolved "ci" 7200000 [("now_ms", .ofInt 1)] rfl rfl
    (by decide) (by rw [callerOf_ci, text_ci]; decide)
  obtain ⟨⟨issued, hissued, hhandle, -⟩, -⟩ :=
    roundTrip_issued "ci" 7200000 [("now_ms", .ofInt 1)]
  have hpresented : presented (handBack "ci" 7200000 [("now_ms", .ofInt 1)]) =
      (ownTicket "ci").handle plainBroker "key" :=
    @presented_handle plainBroker plainBroker_lengths "key" _ (issueTo "ci") rfl
  refine ⟨answer, issued, hresolved, hissued, ?_, by decide⟩
  rw [hhandle, hpresented]

end Protheus.SecretBroker
