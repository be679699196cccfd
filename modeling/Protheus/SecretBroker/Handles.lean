import Protheus.Lib.Base64Url
import Protheus.Lib.Runs
import Protheus.SecretBroker.Secrets

/-!
The handles of `secret_broker_kernel.rs`: tickets for a secret, signed by the broker.

A handle is a signed ticket: the base64 of a JSON object and the hex of its HMAC.  Issuing
one records its id in the state file; resolving one checks the signature, reads the ticket
back, and checks its time, its scope and its caller before the secret is loaded.  Both
commands read every text with `text`, which trims it and then cuts it, so a text that is
cut behind a blank is not the same text when it is read once more.
-/

namespace Protheus.SecretBroker

/-! ## Signatures -/

/-- `hex::encode`. -/
def hexEncode (bytes : List UInt8) : String :=
  String.ofList (bytes.flatMap fun b => [Nat.digitChar (b.toNat / 16), Nat.digitChar (b.toNat % 16)])

/-- The value of a hex digit of either case. -/
def hexValue (c : Char) : Option ℕ :=
  let n := c.toNat
  if 48 ≤ n ∧ n ≤ 57 then some (n - 48)
  else if 97 ≤ n ∧ n ≤ 102 then some (n - 87)
  else if 65 ≤ n ∧ n ≤ 70 then some (n - 55)
  else none

/-- `hex::decode`. -/
def hexDecode : List Char → Option (List UInt8)
  | a :: b :: rest => do
    let byte := (← hexValue a) * 16 + (← hexValue b)
    return UInt8.ofNat byte :: (← hexDecode rest)
  | [_] => none
  | [] => some []

/-- `sign_handle`. -/
def signHandle (host : Host) (body key : String) : String := hexEncode (host.hmacSha256 key body)

/-- `verify_handle_sig`. -/
def verifyHandleSig (host : Host) (body sigHex key : String) : Bool :=
  hexDecode sigHex.toList == some (host.hmacSha256 key body)

/-! ## Tickets -/

/-- What a handle says. -/
structure Ticket where
  handleId : String
  secretId : String
  scope : String
  caller : String
  reason : Option String
  issuedMs : Int64
  issuedAt : String
  expiresMs : Int64
  expiresAt : String
  nonce : String

/-- The fields of a handle's body. -/
def Ticket.fields (ticket : Ticket) : List (String × Json) := [
  ("v", .str "1.1"),
  ("handle_id", .str ticket.handleId),
  ("secret_id", .str ticket.secretId),
  ("scope", .str ticket.scope),
  ("caller", .str ticket.caller),
  ("reason", (ticket.reason.map Json.str).getD .null),
  ("issued_at_ms", .ofInt ticket.issuedMs.toInt),
  ("issued_at", .str ticket.issuedAt),
  ("expires_at_ms", .ofInt ticket.expiresMs.toInt),
  ("expires_at", .str ticket.expiresAt),
  ("nonce", .str ticket.nonce)]

/-- The bytes of a ticket's JSON text. -/
def Ticket.bytes (host : Host) (ticket : Ticket) : List UInt8 :=
  (host.toText (.ofFields ticket.fields)).toUTF8.data.toList

def Ticket.body (host : Host) (ticket : Ticket) : String :=
  String.ofList (Base64Url.encode (ticket.bytes host))

def Ticket.handle (host : Host) (key : String) (ticket : Ticket) : String :=
  ticket.body host ++ "." ++ signHandle host (ticket.body host) key

def handleParts (handle : String) : Option (String × String) :=
  match RustStd.splitChar '.' handle with
  | [body, sig] => some (body, sig)
  | _ => none

/-! ## State -/

structure SecretHandleStateRow where
  handleId : String
  secretId : String
  scope : String
  caller : String
  reason : Option String
  issuedAt : String
  expiresAt : String
  valueHash : String
  backendProviderType : Option String
  backendProviderRef : Option String
  rotationStatus : Option String
  resolveCount : UInt64
  lastResolvedAt : Option String
  lastBackendProviderType : Option String
  lastRotationStatus : Option String

/-- The state file as `read_state` gives it. -/
structure SecretBrokerState where
  version : String
  issued : List (String × SecretHandleStateRow)

/-- `BTreeMap::insert`; the order of the rows is not looked at. -/
def SecretBrokerState.insert (state : SecretBrokerState) (row : SecretHandleStateRow) :
    SecretBrokerState :=
  { state with issued := (row.handleId, row) :: state.issued.filter (·.1 ≠ row.handleId) }

/-- Whether a handle's id is recorded. -/
def SecretBrokerState.records (state : SecretBrokerState) (handleId : String) : Bool :=
  state.issued.any (·.1 == handleId)

/-- `issued.get_mut`, with a change of the row. -/
def SecretBrokerState.update (state : SecretBrokerState) (handleId : String)
    (f : SecretHandleStateRow → SecretHandleStateRow) : SecretBrokerState :=
  { state with
    issued := state.issued.map fun entry => if entry.1 = handleId then (entry.1, f entry.2) else entry }

/-! ## Commands -/

inductive Command where
  | issueHandle
  | resolveHandle
  deriving DecidableEq

/-- A call of the broker: its payload, what the clock shows, the policy's secrets and what
their providers answer at the time, and whether the state file can be written. -/
structure Call where
  command : Command
  payload : List (String × Json)
  clock : Int64
  secrets : List (String × SecretSpec)
  writable : Bool

/-- The answer to a handle that is issued. -/
structure Issued where
  handle : String
  handleId : String
  secretId : String
  scope : String
  caller : String
  issuedAt : String
  expiresAt : String
  ttlSec : Int64
  loaded : LoadedSecret
  deriving DecidableEq

/-- The answer to a handle that is resolved; the secret's value is in `loaded`. -/
structure Resolved where
  handleId : String
  secretId : String
  scope : String
  caller : String
  expiresAt : Json
  loaded : LoadedSecret
  deriving DecidableEq

/-- An answer that is not ok, with what it says besides its error. -/
inductive Refusal where
  | payload (error : String)
  | handle (error handleId secretId : String)
  /-- `scope_mismatch` and `caller_mismatch`: what was asked for and what the handle says. -/
  | mismatch (error handleId secretId required held : String)
  /-- The secret could not be loaded. -/
  | notLoaded (loaded : LoadedSecret)
  /-- `rotation_policy_enforced`. -/
  | rotationEnforced (secretId : String) (rotation : RotationHealth)
  deriving DecidableEq

inductive Reply where
  | refused (refusal : Refusal)
  | issued (answer : Issued)
  | resolved (answer : Resolved)
  deriving DecidableEq

/-- The answer of a command. -/
def Reply.of {α : Type} (ok : α → Reply) : Except Refusal α → Reply
  | .ok answer => ok answer
  | .error refusal => .refused refusal

/-- The caller of an issued handle. -/
def callerOf (payload : List (String × Json)) : String :=
  let clean := text (payload.lookup "caller") 180
  if clean = "" then "unknown" else clean

/-- The lifetime of an issued handle, in seconds. -/
def ttlSec (payload : List (String × Json)) : Int64 :=
  let asked := (intValue (payload.lookup "ttl_sec")).getD 300
  if asked < 30 then 30 else if 3600 < asked then 3600 else asked

/-- When a handle runs out. -/
def expiryOf (call : Call) : Int64 :=
  nowMs call.payload call.clock + ttlSec call.payload * 1000

/-- The first 16 digits of a value's hash. -/
def hash16 (host : Host) (value : Json) : String :=
  String.ofList ((V8Kernel.deterministicReceiptHash host.toHost value).toList.take 16)

/-- The ticket `issue_handle` writes. -/
def ticketOf (host : Host) (call : Call) : Ticket :=
  let secretId := text (call.payload.lookup "secret_id") 160
  let scope := text (call.payload.lookup "scope") 180
  let caller := callerOf call.payload
  let reason := text (call.payload.lookup "reason") 240
  let issuedMs := nowMs call.payload call.clock
  let expiresMs := expiryOf call
  let handleId := "sh_" ++ hash16 host (.ofFields [("secret_id", .str secretId),
    ("scope", .str scope), ("caller", .str caller), ("issued_ms", .ofInt issuedMs.toInt)])
  { handleId := handleId
    secretId := secretId
    scope := scope
    caller := caller
    reason := if reason = "" then none else some reason
    issuedMs := issuedMs
    issuedAt := isoFromMs host issuedMs call.clock
    expiresMs := expiresMs
    expiresAt := isoFromMs host expiresMs call.clock
    nonce := hash16 host (.ofFields [("handle_id", .str handleId),
      ("issued_ms", .ofInt issuedMs.toInt)]) }

/-- The row of a ticket in the state file. -/
def rowOf (ticket : Ticket) (loaded : LoadedSecret) : SecretHandleStateRow where
  handleId := ticket.handleId
  secretId := ticket.secretId
  scope := ticket.scope
  caller := ticket.caller
  reason := ticket.reason
  issuedAt := ticket.issuedAt
  expiresAt := ticket.expiresAt
  valueHash := loaded.valueHash
  backendProviderType := loaded.backend.map (·.providerType)
  backendProviderRef := loaded.backend.bind (·.providerRef)
  rotationStatus := loaded.rotation.map (·.status)
  resolveCount := 0
  lastResolvedAt := none
  lastBackendProviderType := none
  lastRotationStatus := none

/-- Whether the rotation policy forbids to issue a handle. -/
def enforced (loaded : LoadedSecret) : Option RotationHealth :=
  loaded.rotation.filter fun rotation =>
    rotation.config.enforceOnIssue && rotation.status == "critical"

/-- `issue_handle`: the answer and the state file. -/
def issueHandle (host : Host) (key : String) (state : SecretBrokerState) (call : Call) :
    Except Refusal Issued × SecretBrokerState :=
  let ticket := ticketOf host call
  if ticket.secretId = "" then (.error (.payload "secret_id_required"), state)
  else if ticket.scope = "" then (.error (.payload "scope_required"), state)
  else
    let loaded := loadSecretById host call.secrets call.payload call.clock
    if !loaded.ok then (.error (.notLoaded loaded), state)
    else
      match enforced loaded with
      | some rotation => (.error (.rotationEnforced ticket.secretId rotation), state)
      | none =>
        (.ok {
            handle := ticket.handle host key
            handleId := ticket.handleId
            secretId := ticket.secretId
            scope := ticket.scope
            caller := ticket.caller
            issuedAt := ticket.issuedAt
            expiresAt := ticket.expiresAt
            ttlSec := ttlSec call.payload
            loaded := loaded },
          if call.writable then state.insert (rowOf ticket loaded) else state)

/-- The payload `resolve_handle` loads a secret with. -/
def loadPayload (payload : List (String × Json)) (secretId : String) (now : Int64) :
    List (String × Json) :=
  [("now_ms", .ofInt now.toInt), ("policy_path", (payload.lookup "policy_path").getD .null),
    ("secret_id", .str secretId)]

/-- The ticket `resolve_handle` reads from a handle, by the fields of the body. -/
def openHandle (host : Host) (key handle : String) : Except String (List (String × Json)) :=
  match handleParts handle with
  | none => .error "handle_malformed"
  | some (body, sig) =>
    if !verifyHandleSig host body sig key then .error "handle_signature_invalid"
    else
      match ((Base64Url.decode body.toList).bind host.parseJson).bind Json.asObject with
      | none => .error "handle_payload_invalid"
      | some fields => .ok fields

/-- What `resolve_handle` reads from the body of a handle. -/
structure Presented where
  handleId : String
  secretId : String
  scope : String
  caller : String
  expiresAtMs : Int64
  expiresAt : Json

def presentedOf (fields : List (String × Json)) : Presented where
  handleId := text (fields.lookup "handle_id") 160
  secretId := text (fields.lookup "secret_id") 160
  scope := text (fields.lookup "scope") 180
  caller := text (fields.lookup "caller") 180
  expiresAtMs := (intValue (fields.lookup "expires_at_ms")).getD 0
  expiresAt := (fields.lookup "expires_at").getD .null

/-- Why `resolve_handle` turns a handle down before it loads the secret. -/
def denial (state : SecretBrokerState) (call : Call) (handle : Presented) :
    Option Refusal :=
  let requiredScope := text (call.payload.lookup "scope") 180
  let requiredCaller := text (call.payload.lookup "caller") 180
  if handle.handleId = "" ∨ handle.secretId = "" ∨ handle.scope = "" ∨ handle.caller = "" then
    some (.payload "handle_payload_missing_fields")
  else if handle.expiresAtMs ≤ nowMs call.payload call.clock then
    some (.handle "handle_expired" handle.handleId handle.secretId)
  else if requiredScope ≠ "" ∧ requiredScope ≠ handle.scope then
    some (.mismatch "scope_mismatch" handle.handleId handle.secretId requiredScope handle.scope)
  else if requiredCaller ≠ "" ∧ requiredCaller ≠ handle.caller then
    some (.mismatch "caller_mismatch" handle.handleId handle.secretId requiredCaller handle.caller)
  else if !state.records handle.handleId then
    some (.handle "handle_unknown" handle.handleId handle.secretId)
  else none

def SecretHandleStateRow.resolvedWith (row : SecretHandleStateRow) (at_ : String)
    (loaded : LoadedSecret) : SecretHandleStateRow :=
  { row with
    resolveCount := row.resolveCount + 1
    lastResolvedAt := some at_
    lastBackendProviderType := loaded.backend.map (·.providerType)
    lastRotationStatus := loaded.rotation.map (·.status) }

/-- `resolve_handle`, past the reading of the handle. -/
def redeem (host : Host) (state : SecretBrokerState) (call : Call) (handle : Presented) :
    Except Refusal Resolved × SecretBrokerState :=
  match denial state call handle with
  | some refusal => (.error refusal, state)
  | none =>
    let now := nowMs call.payload call.clock
    let loaded :=
      loadSecretById host call.secrets (loadPayload call.payload handle.secretId now) call.clock
    if !loaded.ok then (.error (.notLoaded loaded), state)
    else
      (.ok {
          handleId := handle.handleId
          secretId := handle.secretId
          scope := handle.scope
          caller := handle.caller
          expiresAt := handle.expiresAt
          loaded := loaded },
        if call.writable then
          state.update handle.handleId (·.resolvedWith (isoFromMs host now call.clock) loaded)
        else state)

/-- The handle a call presents. -/
def presented (call : Call) : String := text (call.payload.lookup "handle") 8192

/-- `resolve_handle`: the answer and the state file. -/
def resolveHandle (host : Host) (key : String) (state : SecretBrokerState) (call : Call) :
    Except Refusal Resolved × SecretBrokerState :=
  match openHandle host key (presented call) with
  | .error e => (.error (.payload e), state)
  | .ok fields => redeem host state call (presentedOf fields)

/-- A call of the broker. -/
def run (host : Host) (key : String) (state : SecretBrokerState) (call : Call) :
    Reply × SecretBrokerState :=
  match call.command with
  | .issueHandle =>
    let (answer, state) := issueHandle host key state call
    (.of .issued answer, state)
  | .resolveHandle =>
    let (answer, state) := resolveHandle host key state call
    (.of .resolved answer, state)

/-- The state file after a call. -/
def step (host : Host) (key : String) (state : SecretBrokerState) (call : Call) :
    SecretBrokerState :=
  (run host key state call).2

/-- The state file the `n`-th call of a run finds. -/
def stateAt (host : Host) (key : String) (state : SecretBrokerState) (calls : List Call) (n : ℕ) :
    SecretBrokerState :=
  Runs.before (step host key) state calls n

/-- The answer to the `n`-th call of a run. -/
def replyAt (host : Host) (key : String) (state : SecretBrokerState) (calls : List Call) (n : ℕ) :
    Option Reply :=
  calls[n]?.map fun call => (run host key (stateAt host key state calls n) call).1

end Protheus.SecretBroker
