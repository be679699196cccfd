import Protheus.LaneUtils
import Protheus.SecretBroker.Resolutions

/-!
A handle is resolved as it was issued.

A text of an issue call is trimmed and cut, and once more when the handle is opened: the second
reading is the first exactly where the cut text does not end in a blank.  With the handle's row in
the state file that decides whether a handle that has not run out resolves to the secret it was
issued for (`roundTrip_iff`).
-/

namespace Protheus.SecretBroker

/-- A text within the limit is read as it stands exactly where it has no blank around it. -/
theorem text_eq_self_iff {s : String} {maxLen : ℕ} (hlength : s.length ≤ maxLen) :
    text (some (.str s)) maxLen = s ↔ RustStd.trim s = s := by
  refine ⟨fun h => ?_, fun htrim => text_eq_self htrim hlength⟩
  have hshort : (RustStd.trim s).toList.length ≤ maxLen := by
    have hle := LaneUtils.length_trim_le s
    rw [String.length_toList] at hle
    exact hle.trans hlength
  rwa [text_str, V8Kernel.clean, List.take_of_length_le hshort, String.ofList_toList] at h

section Ticket

variable {host : Host} {call : Call}

/-- The texts of a call's ticket are read as they were written exactly where none ends in a blank. -/
theorem presentedOf_ticketOf_iff :
    ((presentedOf (ticketOf host call).map).secretId = (ticketOf host call).secretId ∧
      (presentedOf (ticketOf host call).map).scope = (ticketOf host call).scope ∧
      (presentedOf (ticketOf host call).map).caller = (ticketOf host call).caller) ↔ call.Trimmed := by
  rw [presentedOf_map, ticketOf_secretId, ticketOf_scope, ticketOf_caller]
  dsimp only
  rw [text_eq_self_iff (length_text_le _ _), text_eq_self_iff (length_text_le _ _),
    text_eq_self_iff (length_callerOf_le _), Call.Trimmed]
  simp

/-- A ticket's id is a word. -/
theorem handleId_ne_empty : (ticketOf host call).handleId ≠ "" := by
  obtain ⟨value, hid⟩ := @ticketOf_handleId host call
  intro hempty
  have hlength := congrArg String.length (hid.symm.trans hempty)
  have hmark : "sh_".length = 3 := by decide
  rw [String.length_append, hmark, String.length_empty] at hlength
  omega

/-- A caller always has a name. -/
theorem callerOf_ne_empty {payload : List (String × Json)} : callerOf payload ≠ "" := by
  unfold callerOf
  dsimp only
  split
  · decide
  · assumption

theorem asks_callerOf (payload : List (String × Json)) :
    text (payload.lookup "caller") 180 = "" ∨
      text (payload.lookup "caller") 180 = callerOf payload := by
  by_cases hempty : text (payload.lookup "caller") 180 = ""
  · exact .inl hempty
  · right
    rw [callerOf]
    exact (if_neg hempty).symm

end Ticket

/-- What is issued names a secret and a scope, and is in the state file where that could be written
or held the id already. -/
theorem issueHandle_spec {host : Host} {key : String} {state : SecretBrokerState} {call : Call}
    {answer : Issued} (h : (issueHandle host key state call).1 = .ok answer) :
    (ticketOf host call).secretId ≠ "" ∧ (ticketOf host call).scope ≠ "" ∧
      ((issueHandle host key state call).2.records answer.handleId = true ↔
        call.writable = true ∨ state.records answer.handleId = true) := by
  have hid := (issued_spec h).2.1
  rw [hid]
  clear hid
  unfold issueHandle at h ⊢
  generalize ticketOf host call = ticket at h ⊢
  generalize loadSecretById host call.secrets call.payload call.clock = loaded at h ⊢
  dsimp only at h ⊢
  split_ifs at h ⊢ with hsecretId hscope hloaded hwritable
  · generalize enforced loaded = verdict at h
    cases verdict with
    | some rotation => cases h
    | none =>
      have hrecords : (state.insert (rowOf ticket loaded)).records ticket.handleId = true :=
        records_insert state (rowOf ticket loaded)
      exact ⟨hsecretId, hscope, iff_of_true hrecords (.inl hwritable)⟩
  · generalize enforced loaded = verdict at h
    cases verdict with
    | some rotation => cases h
    | none => exact ⟨hsecretId, hscope, by simp [hwritable]⟩

/-- A handle is resolved to the secret it was issued for. -/
def ResolvesTo (host : Host) (key : String) (state : SecretBrokerState) (call : Call)
    (secretId : String) : Prop :=
  ∃ answer, (resolveHandle host key state call).1 = .ok answer ∧ answer.secretId = secretId

/-- A call that hands back what an issue call answered, with the same scope and caller, before the
handle runs out and while its secret can be loaded. -/
structure HandsBack (host : Host) (call : Call) (issued : Issued) (call' : Call) : Prop where
  handle : call'.payload.lookup "handle" = some (.str issued.handle)
  scope : call'.payload.lookup "scope" = call.payload.lookup "scope"
  caller : call'.payload.lookup "caller" = call.payload.lookup "caller"
  inTime : nowMs call'.payload call'.clock < expiryOf call
  loads : (loadSecretById host call'.secrets (loadPayload call'.payload issued.secretId
    (nowMs call'.payload call'.clock)) call'.clock).ok = true

section RoundTrip

variable {host : Host} {key : String} {state : SecretBrokerState} {call call' : Call} {issued : Issued}

/-- What the broker reads of a handle it issued. -/
theorem resolveHandle_own (libraries : Libraries host) (lengths : Lengths host)
    (hissued : (issueHandle host key state call).1 = .ok issued)
    (hback : HandsBack host call issued call') (state' : SecretBrokerState) :
    resolveHandle host key state' call' =
      redeem host state' call' (presentedOf (ticketOf host call).map) := by
  have hhandle := hback.handle
  rw [(issued_spec hissued).1] at hhandle
  rw [resolveHandle, presented_handle lengths hhandle, openHandle_handle libraries]

/-- A handle that is resolved to its secret reads as it was issued. -/
theorem trimmed_of_resolvesTo (libraries : Libraries host) (lengths : Lengths host)
    (hissued : (issueHandle host key state call).1 = .ok issued)
    (hback : HandsBack host call issued call') {state' : SecretBrokerState}
    (h : ResolvesTo host key state' call' issued.secretId) :
    call.Trimmed ∧ state'.records issued.handleId = true := by
  obtain ⟨-, hid, hsecretId, -, -⟩ := issued_spec hissued
  obtain ⟨-, hscopeNe, -⟩ := issueHandle_spec hissued
  obtain ⟨answer, hanswer, hsame⟩ := h
  rw [resolveHandle_own libraries lengths hissued hback] at hanswer
  obtain ⟨hdenial, -, hanswerId, -, -, -⟩ := redeemed_spec hanswer
  obtain ⟨⟨-, -, -, hcallerNe⟩, -, hscope, hcaller, hrecords⟩ := denial_eq_none_iff.mp hdenial
  rw [hback.scope, ← @ticketOf_scope host] at hscope
  rw [hback.caller] at hcaller
  constructor
  · apply (@presentedOf_ticketOf_iff host call).mp
    refine ⟨hanswerId.symm.trans (hsame.trans hsecretId), ?_, ?_⟩
    · exact (hscope.resolve_left hscopeNe).symm
    · obtain hunnamed | hnamed := asks_callerOf call.payload
      · -- a call without a caller is one of `unknown`
        have hunknown : callerOf call.payload = "unknown" := by
          rw [callerOf]
          exact if_pos hunnamed
        rw [presentedOf_map, ticketOf_caller, hunknown]
        exact text_of_visible (by simp [RustStd.isWhitespace]) (by decide)
      · rw [hnamed] at hcaller
        rw [ticketOf_caller]
        exact (hcaller.resolve_left callerOf_ne_empty).symm
  · rwa [hid, ← presentedOf_handleId call libraries]

/-- **A handle is resolved to the secret it was issued for exactly where no cut text of the issue
call ends in a blank and the handle's row is in the state file.** -/
theorem roundTrip_iff (libraries : Libraries host) (lengths : Lengths host)
    (hissued : (issueHandle host key state call).1 = .ok issued)
    (hback : HandsBack host call issued call') :
    ResolvesTo host key (issueHandle host key state call).2 call' issued.secretId ↔
      call.Trimmed ∧ (call.writable = true ∨ state.records issued.handleId = true) := by
  obtain ⟨-, hid, hsecretId, -, -⟩ := issued_spec hissued
  obtain ⟨hsecretNe, hscopeNe, hrecords⟩ := issueHandle_spec hissued
  rw [← hrecords]
  constructor
  · exact trimmed_of_resolvesTo libraries lengths hissued hback
  · rintro ⟨htrimmed, hrecorded⟩
    obtain ⟨hsecret, hscope, hcaller⟩ := @presentedOf_ticketOf host call htrimmed
    have hdenial : denial (issueHandle host key state call).2 call'
        (presentedOf (ticketOf host call).map) = none := by
      apply denial_eq_none_iff.mpr
      rw [presentedOf_handleId call libraries, hsecret, hscope, hcaller, hback.scope, hback.caller,
        ticketOf_caller, ← @ticketOf_scope host, ← hid]
      refine ⟨⟨?_, hsecretNe, hscopeNe, callerOf_ne_empty⟩, ?_, .inr rfl, asks_callerOf _, hrecorded⟩
      · rw [hid]
        exact handleId_ne_empty
      · rw [presentedOf_map]
        exact hback.inTime
    have hloads := hback.loads
    rw [hsecretId, ← hsecret] at hloads
    obtain ⟨answer, hanswer⟩ := redeem_ok hdenial hloads
    refine ⟨answer, ?_, ?_⟩
    · rw [resolveHandle_own libraries lengths hissued hback]
      exact hanswer
    · rw [(redeemed_spec hanswer).2.2.1, hsecret, hsecretId]

end RoundTrip

/-! ## One caller's round trip -/

def handBackBy (caller : String) (issued : Issued) : Call where
  command := .resolveHandle
  payload := [("caller", .str caller), ("handle", .str issued.handle), ("scope", .str "deploy")]
  clock := 60000
  secrets := apiKey
  writable := true

/-- Whoever the caller is, a handle is issued and can be handed back. -/
theorem issueTo_handsBack (caller : String) :
    ∃ issued, (issueHandle plainBroker "key" noneIssued (issueTo caller)).1 = .ok issued ∧
      HandsBack plainBroker (issueTo caller) issued (handBackBy caller issued) := by
  have hsecretId : text ((issueTo caller).payload.lookup "secret_id") 160 = "api_key" := text_apiKey
  have hscope : text ((issueTo caller).payload.lookup "scope") 180 = "deploy" := text_deploy
  obtain ⟨hloaded, hfresh⟩ := apiKey_loaded (issueTo caller).clock hsecretId
  obtain ⟨⟨issued, hissued⟩, -⟩ := @issueHandle_ok plainBroker "key" noneIssued (issueTo caller)
    (by rw [hsecretId]; decide) (by rw [hscope]; decide) hloaded hfresh
  refine ⟨issued, hissued, rfl, rfl, rfl, ?_, ?_⟩
  · rw [expiryOf, nowMs, nowMs, ttlSec, show (issueTo caller).payload.lookup "now_ms" = none from rfl,
      show (issueTo caller).payload.lookup "ttl_sec" = none from rfl,
      show (issueTo caller).clock = 0 from rfl,
      show (handBackBy caller issued).payload.lookup "now_ms" = none from rfl,
      show (handBackBy caller issued).clock = 60000 from rfl]
    decide
  · refine (apiKey_loaded _ ?_).1
    rw [(issued_spec hissued).2.2.1, ticketOf_secretId, hsecretId]
    exact text_apiKey

theorem roundTrip_iff_ci :
    ∃ issued, (issueHandle plainBroker "key" noneIssued (issueTo "ci")).1 = .ok issued ∧
      ResolvesTo plainBroker "key" (issueHandle plainBroker "key" noneIssued (issueTo "ci")).2
        (handBackBy "ci" issued) issued.secretId := by
  obtain ⟨issued, hissued, hback⟩ := issueTo_handsBack "ci"
  refine ⟨issued, hissued,
    (roundTrip_iff plainBroker_libraries plainBroker_lengths hissued hback).mpr ⟨?_, .inl rfl⟩⟩
  exact ci_trimmed 0 [] (issueTo "ci") List.mem_cons_self rfl

/-- A handle of a caller whose name is cut behind a blank is not resolved for that caller. -/
theorem cutCaller_not_resolved :
    ∃ issued, (issueHandle plainBroker "key" noneIssued (issueTo cutCaller)).1 = .ok issued ∧
      HandsBack plainBroker (issueTo cutCaller) issued (handBackBy cutCaller issued) ∧
      ¬ ResolvesTo plainBroker "key" (issueHandle plainBroker "key" noneIssued (issueTo cutCaller)).2
        (handBackBy cutCaller issued) issued.secretId := by
  obtain ⟨issued, hissued, hback⟩ := issueTo_handsBack cutCaller
  refine ⟨issued, hissued, hback, fun hresolves => ?_⟩
  obtain ⟨htrimmed, -⟩ :=
    trimmed_of_resolvesTo plainBroker_libraries plainBroker_lengths hissued hback hresolves
  obtain ⟨hcut, hagain⟩ := text_cutCaller
  have hlong : (String.ofList (List.replicate 179 'a' ++ [' '])).length = 180 := by
    rw [String.length_ofList, List.length_append, List.length_replicate, List.length_singleton]
  have hcaller : callerOf (issueTo cutCaller).payload =
      String.ofList (List.replicate 179 'a' ++ [' ']) := by
    rw [callerOf_issueTo, hcut]
    rw [hcut]
    intro hempty
    rw [hempty] at hlong
    exact absurd hlong (by decide)
  have htrim := htrimmed (callerOf (issueTo cutCaller).payload) (by simp)
  rw [hcaller] at htrim
  have hsame := congrArg String.length (hagain.symm.trans (text_eq_self htrim hlong.le))
  rw [hlong, String.length_ofList, List.length_replicate] at hsame
  exact absurd hsame (by decide)

end Protheus.SecretBroker
