import Protheus.ConduitSecurity

/-!
The security context of `conduit/src/lib.rs`: how a command envelope is signed,
and what `validate` checks before it lets one through.

The checks run in order: the signing key, the envelope's signature, the scope
the policy requires for the command's type, the capability token at the server
clock, and last the rate limiter, which is given the `ts_ms` of the envelope.
Only the last one leaves a trace: `validate_eq` says that an envelope that fails
an earlier check changes nothing, and that one that passes them moves the
limiter and is accepted exactly when the limiter admits it.
-/

namespace Protheus.Conduit

open Std (ExtTreeMap)
open Protheus.ConduitSecurity

/-- `CONDUIT_SCHEMA_ID`. -/
def conduitSchemaId : String := "protheus_conduit"

/-- `CONDUIT_SCHEMA_VERSION`. -/
def conduitSchemaVersion : String := "1.0"

/-- `TsCommand`. -/
inductive TsCommand where
  | startAgent (agentId : String)
  | stopAgent (agentId : String)
  | queryReceiptChain (fromHash : Option String) (limit : Option UInt32)
  | listActiveAgents
  | getSystemStatus
  | applyPolicyUpdate (patchId : String) (patch : Json)
  | installExtension (extensionId wasmSha256 : String) (capabilities : List String)

/-- `command_type_name`. -/
def commandTypeName : TsCommand → String
  | .startAgent _ => "start_agent"
  | .stopAgent _ => "stop_agent"
  | .queryReceiptChain _ _ => "query_receipt_chain"
  | .listActiveAgents => "list_active_agents"
  | .getSystemStatus => "get_system_status"
  | .applyPolicyUpdate _ _ => "apply_policy_update"
  | .installExtension _ _ _ => "install_extension"

/-- The fields a command serialises to beside its type. -/
def TsCommand.fields : TsCommand → List (String × Json)
  | .startAgent agentId => [("agent_id", .str agentId)]
  | .stopAgent agentId => [("agent_id", .str agentId)]
  | .queryReceiptChain fromHash limit =>
    [("from_hash", (fromHash.map Json.str).getD .null),
      ("limit", (limit.map fun n => Json.num (.posInt n.toUInt64)).getD .null)]
  | .listActiveAgents => []
  | .getSystemStatus => []
  | .applyPolicyUpdate patchId patch => [("patch_id", .str patchId), ("patch", patch)]
  | .installExtension extensionId wasmSha256 capabilities =>
    [("extension_id", .str extensionId), ("wasm_sha256", .str wasmSha256),
      ("capabilities", .arr (capabilities.map .str))]

def TsCommand.json (command : TsCommand) : Json :=
  Json.ofFields (("type", .str (commandTypeName command)) :: command.fields)

def tokenJson (token : CapabilityToken) : Json :=
  Json.ofFields [("token_id", .str token.tokenId), ("subject", .str token.subject),
    ("capabilities", .arr (token.capabilities.map .str)),
    ("issued_at_ms", .num (.posInt token.issuedAtMs)),
    ("expires_at_ms", .num (.posInt token.expiresAtMs)), ("signature", .str token.signature)]

/-- `CommandSecurityMetadata`. -/
structure CommandSecurityMetadata where
  clientId : String
  /-- The key it is signed with. -/
  keyId : String
  /-- A number used once, by the name. -/
  nonce : String
  signature : String
  /-- The token that grants the scope. -/
  capabilityToken : CapabilityToken

/-- `CommandEnvelope`. -/
structure CommandEnvelope where
  schemaId : String
  schemaVersion : String
  /-- The sender's name for the request. -/
  requestId : String
  tsMs : UInt64
  command : TsCommand
  security : CommandSecurityMetadata

/-- `signing_payload`: everything of an envelope but its signature. -/
def signingPayload (envelope : CommandEnvelope) : Json :=
  Json.ofFields [("schema_id", .str envelope.schemaId),
    ("schema_version", .str envelope.schemaVersion), ("request_id", .str envelope.requestId),
    ("ts_ms", .num (.posInt envelope.tsMs)), ("command", envelope.command.json),
    ("security", Json.ofFields [("client_id", .str envelope.security.clientId),
      ("key_id", .str envelope.security.keyId), ("nonce", .str envelope.security.nonce),
      ("capability_token", tokenJson envelope.security.capabilityToken)])]

/-- `ConduitSecurityContext`. -/
structure ConduitSecurityContext where
  signer : MessageSigner
  tokenAuthority : CapabilityTokenAuthority
  rateLimiter : RateLimiter
  /-- The scope each command type requires. -/
  commandRequiredCapabilities : ExtTreeMap String String

section Validate

variable (sha256Hex : String → String) (printFloat : ℚ → String)

/-- `ConduitSecurityContext::mint_security_metadata` at the clock `nowTsMs`. -/
def ConduitSecurityContext.mintSecurityMetadata (context : ConduitSecurityContext)
    (clientId requestId : String) (tsMs : UInt64) (command : TsCommand)
    (tokenTtlMs nowTsMs : UInt64) : CommandSecurityMetadata :=
  let scope := (context.commandRequiredCapabilities[commandTypeName command]?).getD "system.read"
  let token := context.tokenAuthority.mint sha256Hex printFloat
    ("tok-" ++ requestId ++ "-" ++ toString nowTsMs.toNat) clientId [scope] nowTsMs
    (RustStd.satAdd nowTsMs tokenTtlMs)
  let metadata : CommandSecurityMetadata :=
    { clientId, keyId := context.signer.keyId,
      nonce := "nonce-" ++ requestId ++ "-" ++ toString nowTsMs.toNat, signature := "",
      capabilityToken := token }
  { metadata with
    signature := context.signer.signValue sha256Hex printFloat
      (signingPayload
        { schemaId := conduitSchemaId, schemaVersion := conduitSchemaVersion, requestId, tsMs,
          command, security := metadata }) }

def acceptReceipt (context : ConduitSecurityContext) (envelope : CommandEnvelope)
    (requiredScope : String) : Json :=
  Json.ofFields [("allow", .bool true),
    ("command_type", .str (commandTypeName envelope.command)),
    ("client_id", .str envelope.security.clientId), ("required_scope", .str requiredScope),
    ("token_key_id", .str context.tokenAuthority.signer.keyId),
    ("signing_key_id", .str context.signer.keyId)]

/-- `ConduitSecurityContext::validate` at the server clock `nowTsMs`. -/
def ConduitSecurityContext.validate (context : ConduitSecurityContext) (nowTsMs : UInt64)
    (envelope : CommandEnvelope) : ConduitSecurityContext × Except SecurityError String :=
  if envelope.security.keyId != context.signer.keyId then (context, .error .signatureInvalid)
  else if !context.signer.verifyValue sha256Hex printFloat (signingPayload envelope)
      envelope.security.signature then (context, .error .signatureInvalid)
  else
    let commandType := commandTypeName envelope.command
    match context.commandRequiredCapabilities[commandType]? with
    | none => (context, .error (.capabilityTokenMissingScope commandType))
    | some requiredScope =>
      match context.tokenAuthority.validate sha256Hex printFloat envelope.security.capabilityToken
          nowTsMs requiredScope with
      | .error e => (context, .error e)
      | .ok () =>
        let (rateLimiter, allowed) :=
          context.rateLimiter.allow envelope.security.clientId commandType envelope.tsMs
        match allowed with
        | .error e => ({ context with rateLimiter }, .error e)
        | .ok () => ({ context with rateLimiter },
            .ok (deterministicHash sha256Hex printFloat (acceptReceipt context envelope requiredScope)))

/-! ## What `validate` accepts -/

/-- The checks an envelope passes before the rate limiter sees it. -/
structure Passes (context : ConduitSecurityContext) (nowTsMs : UInt64) (envelope : CommandEnvelope)
    (requiredScope : String) : Prop where
  /-- It names the context's signing key. -/
  keyId : envelope.security.keyId = context.signer.keyId
  /-- It carries that key's signature over everything but the signature. -/
  signed : envelope.security.signature =
    context.signer.signValue sha256Hex printFloat (signingPayload envelope)
  /-- The policy requires this scope for its command type. -/
  required : context.commandRequiredCapabilities[commandTypeName envelope.command]? =
    some requiredScope
  /-- Its token is the authority's, unexpired at the server clock, and lists the scope. -/
  token : TokenValid sha256Hex printFloat context.tokenAuthority envelope.security.capabilityToken
    nowTsMs requiredScope

/-- Whether an envelope reaches the rate limiter. -/
def ConduitSecurityContext.reaches (context : ConduitSecurityContext) (nowTsMs : UInt64)
    (envelope : CommandEnvelope) : Bool :=
  envelope.security.keyId == context.signer.keyId &&
    context.signer.verifyValue sha256Hex printFloat (signingPayload envelope)
      envelope.security.signature &&
    match context.commandRequiredCapabilities[commandTypeName envelope.command]? with
    | none => false
    | some requiredScope => decide (context.tokenAuthority.validate sha256Hex printFloat
        envelope.security.capabilityToken nowTsMs requiredScope = .ok ())

/-- The limiter's answer to an envelope, and the limiter it leaves. -/
def ConduitSecurityContext.limit (context : ConduitSecurityContext) (envelope : CommandEnvelope) :
    RateLimiter × Except SecurityError Unit :=
  context.rateLimiter.allow envelope.security.clientId (commandTypeName envelope.command) envelope.tsMs

/-- Whether `validate` accepts an envelope. -/
def ConduitSecurityContext.accepts (context : ConduitSecurityContext) (nowTsMs : UInt64)
    (envelope : CommandEnvelope) : Bool :=
  (context.validate sha256Hex printFloat nowTsMs envelope).2.isOk

variable {sha256Hex printFloat} {context : ConduitSecurityContext} {nowTsMs : UInt64}
  {envelope : CommandEnvelope}

theorem reaches_iff : context.reaches sha256Hex printFloat nowTsMs envelope = true ↔
    ∃ requiredScope, Passes sha256Hex printFloat context nowTsMs envelope requiredScope := by
  unfold ConduitSecurityContext.reaches
  rw [Bool.and_eq_true, Bool.and_eq_true, beq_iff_eq, verifyValue_iff]
  constructor
  · rintro ⟨⟨hkey, hsig⟩, hscope⟩
    cases hreq : context.commandRequiredCapabilities[commandTypeName envelope.command]? with
    | none => simp [hreq] at hscope
    | some requiredScope =>
      simp only [hreq, decide_eq_true_eq] at hscope
      exact ⟨requiredScope, hkey, hsig, hreq, tokenValidate_ok_iff.mp hscope⟩
  · rintro ⟨requiredScope, h⟩
    refine ⟨⟨h.keyId, h.signed⟩, ?_⟩
    simp only [h.required, decide_eq_true_eq]
    exact tokenValidate_ok_iff.mpr h.token

/-- **What one call does.**  An envelope that fails a check before the limiter is
refused and changes nothing; one that reaches the limiter moves it and is
accepted exactly when the limiter admits it. -/
theorem validate_eq :
    (context.validate sha256Hex printFloat nowTsMs envelope).1 =
        (if context.reaches sha256Hex printFloat nowTsMs envelope then
          { context with rateLimiter := (context.limit envelope).1 } else context) ∧
      context.accepts sha256Hex printFloat nowTsMs envelope =
        (context.reaches sha256Hex printFloat nowTsMs envelope &&
          decide ((context.limit envelope).2 = .ok ())) := by
  unfold ConduitSecurityContext.accepts ConduitSecurityContext.reaches
    ConduitSecurityContext.validate ConduitSecurityContext.limit
  by_cases hkey : envelope.security.keyId = context.signer.keyId
  · cases context.signer.verifyValue sha256Hex printFloat (signingPayload envelope)
        envelope.security.signature with
    | false => simp [hkey, Except.isOk, Except.toBool]
    | true =>
      cases hreq : context.commandRequiredCapabilities[commandTypeName envelope.command]? with
      | none => simp [hkey, hreq, Except.isOk, Except.toBool]
      | some requiredScope =>
        cases htok : context.tokenAuthority.validate sha256Hex printFloat
            envelope.security.capabilityToken nowTsMs requiredScope with
        | error e => simp [hkey, hreq, htok, Except.isOk, Except.toBool]
        | ok u =>
          cases hallow : context.rateLimiter.allow envelope.security.clientId
              (commandTypeName envelope.command) envelope.tsMs with
          | mk rateLimiter allowed =>
            cases allowed <;> simp [hkey, hreq, htok, hallow, Except.isOk, Except.toBool]
  · simp [hkey, Except.isOk, Except.toBool]

/-- **What an accepted envelope proves.**  An envelope is accepted exactly when it
names the context's key and carries its signature, the policy requires a scope
for its command's type, its token carries the authority's signature, is not past
its expiry and lists that scope, and the limiter admits it. -/
theorem accepts_iff_checks :
    context.accepts sha256Hex printFloat nowTsMs envelope = true ↔
      ∃ requiredScope, Passes sha256Hex printFloat context nowTsMs envelope requiredScope ∧
        (context.limit envelope).2 = .ok () := by
  rw [validate_eq.2, Bool.and_eq_true, reaches_iff, decide_eq_true_eq]
  exact ⟨fun ⟨⟨s, hs⟩, hl⟩ => ⟨s, hs, hl⟩, fun ⟨s, hs, hl⟩ => ⟨⟨s, hs⟩, hl⟩⟩

/-- **Minted metadata is accepted** exactly where the policy lists the command, the token has not
expired and the limiter admits the envelope. -/
theorem mint_accepted_iff {clientId requestId : String} {tsMs tokenTtlMs issuedMs : UInt64}
    {command : TsCommand} :
    let envelope : CommandEnvelope :=
      { schemaId := conduitSchemaId, schemaVersion := conduitSchemaVersion, requestId, tsMs, command,
        security := context.mintSecurityMetadata sha256Hex printFloat clientId requestId tsMs command
          tokenTtlMs issuedMs }
    context.accepts sha256Hex printFloat nowTsMs envelope = true ↔
      context.commandRequiredCapabilities[commandTypeName command]?.isSome = true ∧
        nowTsMs ≤ RustStd.satAdd issuedMs tokenTtlMs ∧ (context.limit envelope).2 = .ok () := by
  intro envelope
  rw [accepts_iff_checks]
  constructor
  · rintro ⟨requiredScope, ⟨-, -, hreq, htoken⟩, hlimit⟩
    exact ⟨Option.isSome_of_eq_some hreq, htoken.unexpired, hlimit⟩
  · rintro ⟨hlisted, hnow, hlimit⟩
    obtain ⟨requiredScope, hreq⟩ := Option.isSome_iff_exists.mp hlisted
    refine ⟨requiredScope, ⟨rfl, rfl, hreq, rfl, hnow, ?_⟩, hlimit⟩
    simp [envelope, ConduitSecurityContext.mintSecurityMetadata, CapabilityTokenAuthority.mint, hreq]

end Validate

/-! ### Samples -/

/-- A context that requires `system.read` for a status query, with a given limiter. -/
def sampleContext (rateLimiter : RateLimiter) : ConduitSecurityContext :=
  { signer := { keyId := "msg", secret := "s1" }
    tokenAuthority := { signer := { keyId := "tok", secret := "s2" } }
    rateLimiter
    commandRequiredCapabilities := (∅ : ExtTreeMap String String).insert "get_system_status" "system.read" }

/-- A context with a fresh limiter under the default limits. -/
def freshContext : ConduitSecurityContext := sampleContext { policy := {} }

/-- A status query of `clientId`, signed, around a token of the authority. -/
def sampleEnvelope (clientId nonce : String) (tsMs : UInt64) (token : CapabilityToken) :
    CommandEnvelope :=
  let envelope : CommandEnvelope :=
    { schemaId := conduitSchemaId, schemaVersion := conduitSchemaVersion, requestId := "r", tsMs,
      command := .getSystemStatus,
      security := { clientId, keyId := "msg", nonce, signature := "", capabilityToken := token } }
  { envelope with
    security := { envelope.security with
      signature := freshContext.signer.signValue id (fun _ => "") (signingPayload envelope) } }

/-- A token for `alice`, issued at 500 and good until 1000. -/
def aliceToken : CapabilityToken :=
  freshContext.tokenAuthority.mint id (fun _ => "") "t" "alice" ["system.read"] 500 1000

section Samples

variable {clientId nonce : String} {tsMs nowTsMs : UInt64} {limiter : RateLimiter}

theorem sampleEnvelope_clientId (token : CapabilityToken) :
    (sampleEnvelope clientId nonce tsMs token).security.clientId = clientId := rfl

/-- The sample envelope passes every check before the limiter while its token lasts. -/
theorem sampleEnvelope_reaches (hnow : nowTsMs ≤ 1000) :
    (sampleContext limiter).reaches id (fun _ => "") nowTsMs
      (sampleEnvelope clientId nonce tsMs aliceToken) = true := by
  refine reaches_iff.mpr ⟨"system.read", rfl, rfl, ?_, rfl, hnow, ?_⟩
  · simp [sampleContext, sampleEnvelope, commandTypeName]
  · change "system.read" ∈ aliceToken.capabilities
    decide

theorem sampleEnvelope_accepts (hnow : nowTsMs ≤ 1000) :
    (sampleContext limiter).accepts id (fun _ => "") nowTsMs
        (sampleEnvelope clientId nonce tsMs aliceToken) =
      decide ((limiter.allow clientId "get_system_status" tsMs).2 = .ok ()) := by
  rw [validate_eq.2, sampleEnvelope_reaches hnow, Bool.true_and]
  rfl

theorem sampleEnvelope_validate (hnow : nowTsMs ≤ 1000) :
    ((sampleContext limiter).validate id (fun _ => "") nowTsMs
        (sampleEnvelope clientId nonce tsMs aliceToken)).1 =
      sampleContext (limiter.allow clientId "get_system_status" tsMs).1 := by
  rw [validate_eq.1, sampleEnvelope_reaches hnow]
  rfl

/-- A fresh limiter admits a call, and the same call again. -/
theorem fresh_allow_twice (commandType : String) :
    (RateLimiter.allow { policy := {} } clientId commandType 100).2 = .ok () ∧
      ((RateLimiter.allow { policy := {} } clientId commandType 100).1.allow clientId commandType
        100).2 = .ok () := by
  have h1 : RustStd.satSucc 0 = 1 := by decide
  have h2 : RustStd.satSucc 1 = 2 := by decide
  constructor <;> simp [RateLimiter.allow, bump, WindowCounter.increment, WindowCounter.stale,
    RustStd.satSub, h1, h2]

end Samples

/-- `mallory` sends a command with the token issued to `alice`, and before it was
issued; it is accepted. -/
theorem accepts_foreign_token :
    freshContext.accepts id (fun _ => "") 100 (sampleEnvelope "mallory" "n" 100 aliceToken) = true ∧
      (sampleEnvelope "mallory" "n" 100 aliceToken).security.capabilityToken.subject ≠
        (sampleEnvelope "mallory" "n" 100 aliceToken).security.clientId ∧
      ¬ (sampleEnvelope "mallory" "n" 100 aliceToken).security.capabilityToken.issuedAtMs ≤ 100 := by
  refine ⟨?_, by decide, by decide⟩
  rw [freshContext, sampleEnvelope_accepts (by decide)]
  exact decide_eq_true (fresh_allow_twice _).1

end Protheus.Conduit
