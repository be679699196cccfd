import Protheus.Conduit

/-!
`process_command` of `conduit/src/lib.rs`: from a command envelope to the handler and
the response.

Every check runs before the handler.  The schema, the structure of the command and
the policy gate change nothing; the security context moves its limiter only, and
only for an envelope that passes all that comes before the limiter.
`validateCommand_eq` says so of the validation, and `complete_mediation` of the whole:
the handler is called exactly when every check accepts.

The policy gate is any function of the command, the handler any function of its own
state and the command.  The clock is read three times.
-/

namespace Protheus.Conduit

open Protheus.ConduitSecurity

/-- `AgentLifecycleState`. -/
inductive AgentLifecycleState where
  | started
  | stopped
  deriving DecidableEq

/-- `RustEvent`. -/
inductive RustEvent where
  | agentLifecycle (state : AgentLifecycleState) (agentId : String)
  | receiptAdded (receiptHash : String)
  | systemFeedback (status : String) (detail : Json) (violationReason : Option String)

def RustEvent.json : RustEvent → Json
  | .agentLifecycle state agentId =>
    Json.ofFields [("type", .str "agent_lifecycle"),
      ("state", .str (match state with | .started => "started" | .stopped => "stopped")),
      ("agent_id", .str agentId)]
  | .receiptAdded receiptHash =>
    Json.ofFields [("type", .str "receipt_added"), ("receipt_hash", .str receiptHash)]
  | .systemFeedback status detail violationReason =>
    Json.ofFields [("type", .str "system_feedback"), ("status", .str status), ("detail", detail),
      ("violation_reason", (violationReason.map Json.str).getD .null)]

/-- `PolicyDecision`. -/
structure PolicyDecision where
  /-- Whether the policy lets the command through. -/
  allow : Bool
  reason : String

/-- `PolicyGate`. -/
abbrev PolicyGate := TsCommand → PolicyDecision

/-- `CommandHandler`, over the handler's state. -/
abbrev CommandHandler (H : Type*) := H → TsCommand → H × RustEvent

/-- `ValidationReceipt`. -/
structure ValidationReceipt where
  /-- Whether every check accepts. -/
  ok : Bool
  /-- Whether the command was stopped. -/
  failClosed : Bool
  reason : String
  policyReceiptHash : String
  securityReceiptHash : String
  receiptHash : String

/-- The fields a validation receipt is hashed over. -/
def receiptPayload (ok failClosed : Bool) (reason policyReceiptHash securityReceiptHash : String) :
    List (String × Json) :=
  [("ok", .bool ok), ("fail_closed", .bool failClosed), ("reason", .str reason),
    ("policy_receipt_hash", .str policyReceiptHash),
    ("security_receipt_hash", .str securityReceiptHash)]

def ValidationReceipt.json (receipt : ValidationReceipt) : Json :=
  Json.ofFields (receiptPayload receipt.ok receipt.failClosed receipt.reason receipt.policyReceiptHash
    receipt.securityReceiptHash ++ [("receipt_hash", .str receipt.receiptHash)])

/-- `CrossingReceipt`; the direction is always from the client to the kernel. -/
structure CrossingReceipt where
  crossingId : String
  commandType : String
  deterministicHash : String
  tsMs : UInt64

def CrossingReceipt.json (crossing : CrossingReceipt) : Json :=
  Json.ofFields [("crossing_id", .str crossing.crossingId), ("direction", .str "TsToRust"),
    ("command_type", .str crossing.commandType),
    ("deterministic_hash", .str crossing.deterministicHash), ("ts_ms", .num (.posInt crossing.tsMs))]

/-- `ResponseEnvelope`. -/
structure ResponseEnvelope where
  schemaId : String
  schemaVersion : String
  requestId : String
  tsMs : UInt64
  /-- What the handler answered, or the violation. -/
  event : RustEvent
  /-- How the envelope fared. -/
  validation : ValidationReceipt
  crossing : CrossingReceipt
  /-- The hash of the response with no hash in it. -/
  receiptHash : String

def ResponseEnvelope.json (response : ResponseEnvelope) : Json :=
  Json.ofFields [("schema_id", .str response.schemaId), ("schema_version", .str response.schemaVersion),
    ("request_id", .str response.requestId), ("ts_ms", .num (.posInt response.tsMs)),
    ("event", response.event.json), ("validation", response.validation.json),
    ("crossing", response.crossing.json), ("receipt_hash", .str response.receiptHash)]

def CommandEnvelope.json (envelope : CommandEnvelope) : Json :=
  Json.ofFields [("schema_id", .str envelope.schemaId), ("schema_version", .str envelope.schemaVersion),
    ("request_id", .str envelope.requestId), ("ts_ms", .num (.posInt envelope.tsMs)),
    ("command", envelope.command.json),
    ("security", Json.ofFields [("client_id", .str envelope.security.clientId),
      ("key_id", .str envelope.security.keyId), ("nonce", .str envelope.security.nonce),
      ("signature", .str envelope.security.signature),
      ("capability_token", tokenJson envelope.security.capabilityToken)])]

/-! ## The checks -/

/-- `char::is_ascii_hexdigit`. -/
def isAsciiHexdigit (c : Char) : Bool :=
  c.isDigit || ('a' ≤ c && c ≤ 'f') || ('A' ≤ c && c ≤ 'F')

/-- `is_valid_sha256`. -/
def isValidSha256 (raw : String) : Bool :=
  raw.utf8ByteSize == 64 && raw.toList.all isAsciiHexdigit

/-- The first pair of a failed test and its text. -/
def firstFailed : List (Bool × String) → Option String
  | [] => none
  | (failed, reason) :: rest => if failed then some reason else firstFailed rest

/-- Whether a text is blank. -/
def blank (s : String) : Bool := (RustStd.trim s).isEmpty

/-- `validate_structure`: what is wrong with a command by itself. -/
def validateStructure : TsCommand → Option String
  | .startAgent agentId => firstFailed [(blank agentId, "agent_id_required")]
  | .stopAgent agentId => firstFailed [(blank agentId, "agent_id_required")]
  | .queryReceiptChain _ limit =>
    firstFailed [(limit.any fun value => value == 0 || value > 1000, "receipt_query_limit_out_of_range")]
  | .applyPolicyUpdate patchId _ =>
    firstFailed [(blank patchId, "policy_patch_id_required"),
      (!"constitution_safe/".toList.isPrefixOf patchId.toList,
        "policy_update_must_be_constitution_safe")]
  | .installExtension extensionId wasmSha256 capabilities =>
    firstFailed [(blank extensionId, "extension_id_required"),
      (!isValidSha256 wasmSha256, "extension_wasm_sha256_invalid"),
      (capabilities.isEmpty || capabilities.any blank, "extension_capabilities_invalid")]
  | .listActiveAgents => none
  | .getSystemStatus => none

section Process

variable (sha256Hex : String → String) (printFloat : ℚ → String)

/-- `fail_closed_receipt`. -/
def failClosedReceipt (reason policyReceiptHash securityReceiptHash : String) : ValidationReceipt where
  ok := false
  failClosed := true
  reason
  policyReceiptHash
  securityReceiptHash
  receiptHash := deterministicHash sha256Hex printFloat
    (Json.ofFields (receiptPayload false true reason policyReceiptHash securityReceiptHash))

/-- `success_receipt`. -/
def successReceipt (policyReceiptHash securityReceiptHash : String) : ValidationReceipt where
  ok := true
  failClosed := false
  reason := "validated"
  policyReceiptHash
  securityReceiptHash
  receiptHash := deterministicHash sha256Hex printFloat
    (Json.ofFields (receiptPayload true false "validated" policyReceiptHash securityReceiptHash))

def policyReceiptHash (decision : PolicyDecision) (command : TsCommand) : String :=
  deterministicHash sha256Hex printFloat
    (Json.ofFields [("allow", .bool decision.allow), ("reason", .str decision.reason),
      ("command_type", .str (commandTypeName command))])

/-- `validate_command`, with the security context read at `nowTsMs`. -/
def validateCommand (policy : PolicyGate) (nowTsMs : UInt64) (envelope : CommandEnvelope)
    (security : ConduitSecurityContext) : ConduitSecurityContext × ValidationReceipt :=
  if envelope.schemaId != conduitSchemaId || envelope.schemaVersion != conduitSchemaVersion then
    (security, failClosedReceipt sha256Hex printFloat "conduit_schema_mismatch" "policy_not_evaluated"
      "security_not_evaluated")
  else
    match validateStructure envelope.command with
    | some reason =>
      (security, failClosedReceipt sha256Hex printFloat reason "policy_not_evaluated"
        "security_not_evaluated")
    | none =>
      let decision := policy envelope.command
      let policyHash := policyReceiptHash sha256Hex printFloat decision envelope.command
      if !decision.allow then
        (security, failClosedReceipt sha256Hex printFloat decision.reason policyHash
          "security_not_evaluated")
      else
        let (security, answer) := security.validate sha256Hex printFloat nowTsMs envelope
        match answer with
        | .error err =>
          (security, failClosedReceipt sha256Hex printFloat err.display policyHash "security_denied")
        | .ok receiptHash => (security, successReceipt sha256Hex printFloat policyHash receiptHash)

/-- The clock, where `process_command` reads it. -/
structure Readings where
  /-- By the security context. -/
  validated : UInt64
  /-- For the crossing. -/
  crossed : UInt64
  /-- For the response. -/
  answered : UInt64

/-- What `process_command` leaves and returns. -/
structure Processed (H : Type*) where
  security : ConduitSecurityContext
  handler : H
  response : ResponseEnvelope

/-- `process_command`. -/
def processCommand {H : Type*} (handle : CommandHandler H) (policy : PolicyGate) (readings : Readings)
    (envelope : CommandEnvelope) (security : ConduitSecurityContext) (handler : H) : Processed H :=
  let (security, validation) :=
    validateCommand sha256Hex printFloat policy readings.validated envelope security
  let (handler, event) :=
    if validation.ok then handle handler envelope.command
    else (handler, .systemFeedback "policy_violation"
      (Json.ofFields [("fail_closed", .bool validation.failClosed)]) (some validation.reason))
  let crossing : CrossingReceipt :=
    { crossingId := envelope.requestId, commandType := commandTypeName envelope.command,
      deterministicHash := deterministicHash sha256Hex printFloat envelope.json,
      tsMs := readings.crossed }
  let response : ResponseEnvelope :=
    { schemaId := conduitSchemaId, schemaVersion := conduitSchemaVersion,
      requestId := envelope.requestId, tsMs := readings.answered, event, validation, crossing,
      receiptHash := "" }
  { security, handler,
    response := { response with
      receiptHash := deterministicHash sha256Hex printFloat response.json } }

/-! ## Complete mediation -/

/-- The checks before the security context. -/
structure Admissible (policy : PolicyGate) (envelope : CommandEnvelope) : Prop where
  /-- The schema is the conduit's. -/
  schema : envelope.schemaId = conduitSchemaId ∧ envelope.schemaVersion = conduitSchemaVersion
  /-- Nothing is wrong with the command by itself. -/
  structural : validateStructure envelope.command = none
  /-- The policy gate lets it through. -/
  policy : (policy envelope.command).allow = true

/-- The checks before the limiter. -/
structure Cleared (policy : PolicyGate) (nowTsMs : UInt64) (envelope : CommandEnvelope)
    (security : ConduitSecurityContext) : Prop extends Admissible policy envelope where
  /-- The envelope carries the context's key and signature, and a token of the authority with the
  scope the command requires. -/
  security : ∃ requiredScope, Passes sha256Hex printFloat security nowTsMs envelope requiredScope

variable {sha256Hex printFloat} {policy : PolicyGate} {nowTsMs : UInt64} {envelope : CommandEnvelope}
  {security : ConduitSecurityContext}

/-- A receipt fails closed where it does not say ok. -/
theorem validateCommand_failClosed :
    (validateCommand sha256Hex printFloat policy nowTsMs envelope security).2.failClosed =
      !(validateCommand sha256Hex printFloat policy nowTsMs envelope security).2.ok := by
  unfold validateCommand
  split
  · rfl
  · cases validateStructure envelope.command with
    | some reason => rfl
    | none =>
      dsimp only
      split
      · rfl
      · cases security.validate sha256Hex printFloat nowTsMs envelope with
        | mk after answer => cases answer <;> rfl

/-- An envelope that is stopped before the security context leaves it alone. -/
theorem validateCommand_of_not_admissible (h : ¬ Admissible policy envelope) :
    (validateCommand sha256Hex printFloat policy nowTsMs envelope security).1 = security ∧
      (validateCommand sha256Hex printFloat policy nowTsMs envelope security).2.ok = false := by
  unfold validateCommand
  split
  · exact ⟨rfl, rfl⟩
  · rename_i hschema
    simp only [bne_iff_ne, Bool.or_eq_true, not_or, not_not] at hschema
    cases hstructure : validateStructure envelope.command with
    | some reason => exact ⟨rfl, rfl⟩
    | none =>
      cases hallow : (policy envelope.command).allow with
      | false => simp [hallow, failClosedReceipt]
      | true => exact absurd ⟨hschema, hstructure, hallow⟩ h

/-- An envelope that is not is judged by the security context. -/
theorem validateCommand_of_admissible (h : Admissible policy envelope) :
    (validateCommand sha256Hex printFloat policy nowTsMs envelope security).1 =
        (security.validate sha256Hex printFloat nowTsMs envelope).1 ∧
      (validateCommand sha256Hex printFloat policy nowTsMs envelope security).2.ok =
        security.accepts sha256Hex printFloat nowTsMs envelope := by
  have hschema : (envelope.schemaId != conduitSchemaId ||
      envelope.schemaVersion != conduitSchemaVersion) = false := by
    simp [h.schema.1, h.schema.2]
  unfold validateCommand ConduitSecurityContext.accepts
  rw [hschema, h.structural]
  simp only [h.policy, Bool.not_true, Bool.false_eq_true, if_false]
  cases security.validate sha256Hex printFloat nowTsMs envelope with
  | mk after answer => cases answer <;> exact ⟨rfl, rfl⟩

/-- **What a validation does.**  It moves the limiter where every check before it accepts, and nothing
else; it says ok where the limiter accepts as well. -/
theorem validateCommand_eq :
    (Cleared sha256Hex printFloat policy nowTsMs envelope security →
        (validateCommand sha256Hex printFloat policy nowTsMs envelope security).1 =
            { security with rateLimiter := (security.limit envelope).1 } ∧
          ((validateCommand sha256Hex printFloat policy nowTsMs envelope security).2.ok = true ↔
            (security.limit envelope).2 = .ok ())) ∧
      (¬ Cleared sha256Hex printFloat policy nowTsMs envelope security →
        (validateCommand sha256Hex printFloat policy nowTsMs envelope security).1 = security ∧
          (validateCommand sha256Hex printFloat policy nowTsMs envelope security).2.ok = false) := by
  by_cases hadmissible : Admissible policy envelope
  · obtain ⟨hcontext, hok⟩ := @validateCommand_of_admissible sha256Hex printFloat policy nowTsMs envelope
      security hadmissible
    rw [hcontext, hok, validate_eq.1, validate_eq.2]
    constructor
    · intro h
      rw [reaches_iff.mpr h.security, if_pos rfl, Bool.true_and, decide_eq_true_eq]
      exact ⟨rfl, Iff.rfl⟩
    · intro h
      have hreach : security.reaches sha256Hex printFloat nowTsMs envelope = false := by
        rw [← Bool.not_eq_true, reaches_iff]
        exact fun hpass => h ⟨hadmissible, hpass⟩
      rw [hreach, if_neg Bool.false_ne_true, Bool.false_and]
      exact ⟨rfl, rfl⟩
  · exact ⟨fun h => absurd h.toAdmissible hadmissible,
      fun _ => validateCommand_of_not_admissible hadmissible⟩

section Processed

variable {H : Type*} {handle : CommandHandler H} {readings : Readings} {handler : H}

/-- The handler is given the command where the validation says ok. -/
theorem processCommand_handler :
    (processCommand sha256Hex printFloat handle policy readings envelope security handler).handler =
      if (validateCommand sha256Hex printFloat policy readings.validated envelope security).2.ok then
        (handle handler envelope.command).1
      else handler := by
  unfold processCommand
  cases validateCommand sha256Hex printFloat policy readings.validated envelope security with
  | mk after validation =>
    dsimp only
    split <;> rfl

end Processed

/-- **Complete mediation.**  For every envelope, policy gate, security context and handler: where a
check before the limiter fails, the handler's state and the limiter are as they were, and the receipt
fails closed; otherwise the limiter alone of the context moves.  The receipt says ok exactly where
every check and the limiter accept; there the handler is given the command, and anywhere else its
state is as it was. -/
theorem complete_mediation {H : Type*} (handle : CommandHandler H) (policy : PolicyGate)
    (readings : Readings) (envelope : CommandEnvelope) (security : ConduitSecurityContext) (handler : H) :
    let processed :=
      processCommand sha256Hex printFloat handle policy readings envelope security handler
    let cleared := Cleared sha256Hex printFloat policy readings.validated envelope security
    (¬ cleared → processed.handler = handler ∧ processed.security = security ∧
        processed.response.validation.ok = false ∧ processed.response.validation.failClosed = true) ∧
      (cleared → processed.security = { security with rateLimiter := (security.limit envelope).1 }) ∧
      (processed.response.validation.ok = true ↔ cleared ∧ (security.limit envelope).2 = .ok ()) ∧
      (cleared ∧ (security.limit envelope).2 = .ok () →
        processed.handler = (handle handler envelope.command).1) ∧
      (processed.handler ≠ handler → cleared ∧ (security.limit envelope).2 = .ok ()) := by
  intro processed cleared
  have hvalidation : processed.response.validation =
      (validateCommand sha256Hex printFloat policy readings.validated envelope security).2 := rfl
  have hhandler : processed.handler = if processed.response.validation.ok then
      (handle handler envelope.command).1 else handler := processCommand_handler
  obtain ⟨hpast, hstopped⟩ := @validateCommand_eq sha256Hex printFloat policy readings.validated envelope
    security
  have hok : processed.response.validation.ok = true ↔
      cleared ∧ (security.limit envelope).2 = .ok () := by
    rw [hvalidation]
    constructor
    · intro h
      by_cases hcleared : cleared
      · exact ⟨hcleared, (hpast hcleared).2.mp h⟩
      · rw [(hstopped hcleared).2] at h
        cases h
    · exact fun h => (hpast h.1).2.mpr h.2
  refine ⟨fun h => ?_, fun h => ?_, hok, fun h => ?_, fun h => ?_⟩
  · have hnot : processed.response.validation.ok = false := by
      rw [hvalidation]
      exact (hstopped h).2
    refine ⟨?_, (hstopped h).1, hnot, ?_⟩
    · rw [hhandler, hnot, if_neg Bool.false_ne_true]
    · rw [hvalidation, validateCommand_failClosed, (hstopped h).2]
      rfl
  · exact (hpast h).1
  · rw [hhandler, hok.mpr h, if_pos rfl]
  · rw [← hok]
    by_contra hnot
    exact h (by rw [hhandler, if_neg hnot])

end Process

def countingHandler : CommandHandler ℕ := fun n _ => (n + 1, .receiptAdded "")

/-- The policy gates that let every command through and none. -/
def gate (allow : Bool) : PolicyGate := fun _ => { allow, reason := "" }

theorem sample_cleared : Cleared id (fun _ => "") (gate true) 100
    (sampleEnvelope "alice" "n" 100 aliceToken) freshContext where
  schema := ⟨rfl, rfl⟩
  structural := rfl
  policy := rfl
  security := reaches_iff.mp (sampleEnvelope_reaches (by decide))

theorem complete_mediation_guard :
    (processCommand id (fun _ => "") countingHandler (gate true) ⟨100, 101, 102⟩
        (sampleEnvelope "alice" "n" 100 aliceToken) freshContext 0).handler = 1 ∧
      (processCommand id (fun _ => "") countingHandler (gate false) ⟨100, 101, 102⟩
        (sampleEnvelope "alice" "n" 100 aliceToken) freshContext 0).security = freshContext := by
  have hopen := @complete_mediation id (fun _ => "") ℕ countingHandler (gate true) ⟨100, 101, 102⟩
    (sampleEnvelope "alice" "n" 100 aliceToken) freshContext 0
  have hshut := @complete_mediation id (fun _ => "") ℕ countingHandler (gate false) ⟨100, 101, 102⟩
    (sampleEnvelope "alice" "n" 100 aliceToken) freshContext 0
  have hlimit : (freshContext.limit (sampleEnvelope "alice" "n" 100 aliceToken)).2 = .ok () :=
    (fresh_allow_twice _).1
  exact ⟨hopen.2.2.2.1 ⟨sample_cleared, hlimit⟩, (hshut.1 fun h => Bool.false_ne_true h.policy).2.1⟩

end Protheus.Conduit
