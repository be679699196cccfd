import Protheus.Lib.SharedFile
import Protheus.SecretBroker.Tickets

/-!
The capability leases of `core/layer1/security`.

A lease is a signed token and an entry in the state file.  Every command reads the file as a whole
and, where it changes anything, writes the whole of it back; nothing keeps another command from
writing in between.  `issue` cleans the texts it signs, and `verify` and `consume` clean them once
more, so a text that was cut behind a blank is another text then.
-/

namespace Protheus.Security.Leases

open V8Kernel RustStd

/-- What the process gets from outside besides: HMAC-SHA256 of a key and a text, the reader of JSON,
and the writer of time stamps. -/
structure Host extends V8Kernel.Host where
  hmacSha256 : String → String → List UInt8
  parseJson : List UInt8 → Option Json
  isoText : Int64 → Option String

/-- `secure_eq_hex`. -/
def secureEqHex (a b : String) : Bool := toAsciiLowercase (trim a) == toAsciiLowercase (trim b)

/-- `lease_sign`. -/
def leaseSign (host : Host) (body key : String) : String :=
  SecretBroker.hexEncode (host.hmacSha256 key body)

/-! ## Tokens -/

/-- What a token says. -/
structure Lease where
  id : String
  scope : String
  target : Option String
  issuedAtMs : Int64
  issuedAt : String
  expiresAtMs : Int64
  expiresAt : String
  issuedBy : String
  reason : Option String
  nonce : String

/-- An optional text in `json!`. -/
def optional (v : Option String) : Json := (v.map Json.str).getD .null

/-- The fields of a token's body. -/
def Lease.fields (lease : Lease) : List (String × Json) := [
  ("v", .str "1.0"),
  ("id", .str lease.id),
  ("scope", .str lease.scope),
  ("target", optional lease.target),
  ("issued_at_ms", .ofInt lease.issuedAtMs.toInt),
  ("issued_at", .str lease.issuedAt),
  ("expires_at_ms", .ofInt lease.expiresAtMs.toInt),
  ("expires_at", .str lease.expiresAt),
  ("issued_by", .str lease.issuedBy),
  ("reason", optional lease.reason),
  ("nonce", .str lease.nonce)]

/-- The bytes of a lease's JSON text. -/
def Lease.bytes (host : Host) (lease : Lease) : List UInt8 :=
  (host.toText (.ofFields lease.fields)).toUTF8.data.toList

def Lease.body (host : Host) (lease : Lease) : String :=
  String.ofList (Base64Url.encode (lease.bytes host))

/-- `lease_pack_token`. -/
def leasePackToken (host : Host) (lease : Lease) (key : String) : String :=
  lease.body host ++ "." ++ leaseSign host (lease.body host) key

/-- `lease_unpack_token`: the body, the signature and the fields of the payload. -/
def leaseUnpackToken (host : Host) (token : String) :
    Except String (String × String × List (String × Json)) :=
  match splitChar '.' (trim token) with
  | [body, sig] =>
    if body = "" ∨ sig = "" then .error "token_malformed"
    else
      match ((Base64Url.decode body.toList).bind host.parseJson).bind Json.asObject with
      | some fields => .ok (body, sig, fields)
      | none => .error "token_payload_invalid"
  | _ => .error "token_malformed"

/-! ## State -/

/-- `LeaseState`. -/
structure LeaseState where
  version : String := "1.0"
  issued : List (String × Json) := []
  consumed : List (String × Json) := []

/-- `contains_key`. -/
def contains (rows : List (String × Json)) (id : String) : Bool := (rows.lookup id).isSome

/-! ## Commands -/

inductive Command where
  | issue
  | verify
  | consume
  deriving DecidableEq

/-- What a command reads off the clock: `timestamp_millis`, and the times of its `now_iso`. -/
structure Clock where
  nowMs : Int64
  idMs : ℕ
  issuedMs : ℕ
  fallbackMs : ℕ
  consumedMs : ℕ

/-- The bounds of a lease's lifetime that the environment sets. -/
structure Limits where
  minTtl : Int64
  maxTtl : Int64
  defaultTtl : Int64

/-- A command with its flags, the environment, the clock and the process's number. -/
structure Call where
  command : Command
  flags : List (String × String)
  limits : Limits
  clock : Clock
  pid : ℕ

/-- What a command that is ok says of a lease. -/
structure Accepted where
  leaseId : String
  scope : String
  target : Option String
  expiresAt : Json
  consumed : Bool

/-- An answer that is not ok, with what it says besides its error. -/
inductive Refusal where
  | failed (error : String)
  | expired (leaseId : String) (expiresAt : Json)
  | scopeMismatch (leaseScope requiredScope leaseId : String)
  | targetMismatch (leaseTarget : Option String) (requiredTarget leaseId : String)
  | alreadyConsumed (leaseId : String) (consumedAt : Json)
  | unknown (leaseId : String)

inductive Reply where
  | refused (refusal : Refusal)
  | issued (lease : Lease) (ttlSec : Int64) (token : String)
  | accepted (answer : Accepted)

/-- A flag's text, cleaned, where it says anything. -/
def Call.filled (call : Call) (name : String) (maxLen : ℕ) : Option String :=
  ((call.flags.lookup name).map (clean · maxLen)).filter (· ≠ "")

/-- The scope of an issued lease. -/
def Call.scope (call : Call) : String := clean ((call.flags.lookup "scope").getD "") 180

/-- The lifetime of an issued lease, in seconds; `clamp` panics where the bounds are the wrong way
round. -/
def Call.ttlSec (call : Call) : Option Int64 :=
  let asked := (call.flags.lookup "ttl-sec").or (call.flags.lookup "ttl_sec")
  let ttl := (asked.bind parseI64).getD call.limits.defaultTtl
  if call.limits.minTtl ≤ call.limits.maxTtl then
    some (if ttl < call.limits.minTtl then call.limits.minTtl
      else if call.limits.maxTtl < ttl then call.limits.maxTtl else ttl)
  else none

/-- The first 16 digits of a text's hash. -/
def hash16 (host : Host) (text : String) : String :=
  String.ofList ((host.sha256HexStr text).toList.take 16)

/-- `lease_make_id`. -/
def leaseMakeId (host : Host) (call : Call) (scope : String) (target : Option String) : String :=
  "lease_" ++ hash16 host (host.nowIso call.clock.idMs ++ "|" ++ scope ++ "|" ++
    target.getD "none" ++ "|" ++ toString call.pid)

/-- The lease `issue` makes. -/
def leaseOf (host : Host) (call : Call) (ttl : Int64) : Lease :=
  let target := call.filled "target" 240
  let issuedBy := (call.flags.lookup "issued-by").or (call.flags.lookup "issued_by")
  let expiresAtMs := call.clock.nowMs + ttl * 1000
  { id := leaseMakeId host call call.scope target
    scope := call.scope
    target := target
    issuedAtMs := call.clock.nowMs
    issuedAt := host.nowIso call.clock.issuedMs
    expiresAtMs := expiresAtMs
    expiresAt := (host.isoText expiresAtMs).getD (host.nowIso call.clock.fallbackMs)
    issuedBy := clean (issuedBy.getD "unknown") 120
    reason := call.filled "reason" 240
    nonce := hash16 host (toString call.clock.nowMs ++ ":" ++ toString call.pid) }

/-- The row of a lease in the state file. -/
def issuedRow (lease : Lease) : Json :=
  .ofFields [("id", .str lease.id), ("scope", .str lease.scope), ("target", optional lease.target),
    ("issued_at", .str lease.issuedAt), ("expires_at", .str lease.expiresAt),
    ("issued_by", .str lease.issuedBy), ("reason", optional lease.reason)]

def LeaseState.issue (state : LeaseState) (lease : Lease) : LeaseState :=
  { state with issued := Json.insertField lease.id (issuedRow lease) state.issued }

def consumedRow (host : Host) (call : Call) : Json :=
  .ofFields [("ts", .str (host.nowIso call.clock.consumedMs)),
    ("reason", .str (clean ((call.flags.lookup "reason").getD "consumed") 180))]

def LeaseState.consume (host : Host) (state : LeaseState) (call : Call) (leaseId : String) :
    LeaseState :=
  { state with consumed := Json.insertField leaseId (consumedRow host call) state.consumed }

/-- What `verify` and `consume` read from the payload of a token. -/
structure Presented where
  leaseId : String
  scope : String
  target : Option String
  expiresAtMs : ℤ
  expiresAt : Json

def presentedOf (fields : List (String × Json)) : Presented where
  leaseId := clean (((fields.lookup "id").bind Json.asStr).getD "") 120
  scope := clean (((fields.lookup "scope").bind Json.asStr).getD "") 180
  target := (((fields.lookup "target").bind Json.asStr).map (clean · 240)).filter (· ≠ "")
  expiresAtMs := ((fields.lookup "expires_at_ms").bind Json.asI64).getD 0
  expiresAt := (fields.lookup "expires_at").getD .null

def Call.requiredScope (call : Call) : Option String := (call.flags.lookup "scope").map (clean · 180)

def Call.requiredTarget (call : Call) : Option String := call.filled "target" 240

/-- Why a token whose signature is right is turned down. -/
def denial (state : LeaseState) (call : Call) (lease : Presented) : Option Refusal :=
  if lease.leaseId = "" then some (.failed "token_missing_id")
  else if lease.expiresAtMs ≤ call.clock.nowMs.toInt then
    some (.expired lease.leaseId lease.expiresAt)
  else
    match call.requiredScope.filter (· ≠ lease.scope) with
    | some required => some (.scopeMismatch lease.scope required lease.leaseId)
    | none =>
      match call.requiredTarget.filter (lease.target.getD "" ≠ ·) with
      | some required => some (.targetMismatch lease.target required lease.leaseId)
      | none =>
        match state.consumed.lookup lease.leaseId with
        | some row => some (.alreadyConsumed lease.leaseId ((row.get? "ts").getD .null))
        | none =>
          if contains state.issued lease.leaseId then none else some (.unknown lease.leaseId)

/-- The token a command presents. -/
def Call.token (call : Call) : String := clean ((call.flags.lookup "token").getD "") 16384

/-- The answer to a token that is let through. -/
def acceptedOf (call : Call) (lease : Presented) : Accepted where
  leaseId := lease.leaseId
  scope := lease.scope
  target := lease.target
  expiresAt := lease.expiresAt
  consumed := call.command == .consume

/-- What `verify` and `consume` do up to the point where `consume` writes. -/
def check (host : Host) (key : String) (state : LeaseState) (call : Call) :
    Except Refusal Accepted :=
  if call.token = "" then .error (.failed "token_required")
  else
    match leaseUnpackToken host call.token with
    | .error err => .error (.failed err)
    | .ok (body, sig, fields) =>
      if secureEqHex sig (leaseSign host body key) then
        match denial state call (presentedOf fields) with
        | some refusal => .error refusal
        | none => .ok (acceptedOf call (presentedOf fields))
      else .error (.failed "token_signature_invalid")

/-! ## Processes -/

/-- Where a process is: it runs no command, or it has read the state file and is about to write. -/
inductive Place where
  | idle
  | issuing (call : Call) (ttl : Int64) (loaded : LeaseState)
  | consuming (call : Call) (answer : Accepted) (loaded : LeaseState)

/-- A step of a process: it starts a command and reads the state file, or it writes the file, which
may fail. -/
inductive Action where
  | start (call : Call)
  | save (failure : Option String)

variable (host : Host) (key : String)

/-- A command up to the point where it has read the state file. -/
def start (call : Call) (file : LeaseState) : Place × Option Reply :=
  match call.command with
  | .issue =>
    if call.scope = "" then (.idle, some (.refused (.failed "scope_required")))
    else
      match call.ttlSec with
      | some ttl => (.issuing call ttl file, none)
      | none => (.idle, none)
  | .verify =>
    match check host key file call with
    | .error refusal => (.idle, some (.refused refusal))
    | .ok answer => (.idle, some (.accepted answer))
  | .consume =>
    match check host key file call with
    | .error refusal => (.idle, some (.refused refusal))
    | .ok answer => (.consuming call answer file, none)

/-- A step of a process: the file, its place, and the command it answers with its reply. -/
def turn : Action → LeaseState → Place → LeaseState × Place × Option (Call × Reply)
  | .start call, file, .idle =>
    let (place, reply) := start host key call file
    (file, place, reply.map (call, ·))
  | .save none, _, .issuing call ttl loaded =>
    let lease := leaseOf host call ttl
    (loaded.issue lease, .idle, some (call, .issued lease ttl (leasePackToken host lease key)))
  | .save none, _, .consuming call answer loaded =>
    (loaded.consume host call answer.leaseId, .idle, some (call, .accepted answer))
  | .save (some err), file, .issuing call _ _ =>
    (file, .idle, some (call, .refused (.failed (clean err 220))))
  | .save (some err), file, .consuming call _ _ =>
    (file, .idle, some (call, .refused (.failed (clean err 220))))
  | _, file, place => (file, place, none)

variable {ι : Type*} [DecidableEq ι]

/-- The file, the processes, and the commands that have been answered with their replies. -/
structure World (ι : Type*) where
  shared : SharedFile.State ι LeaseState Place
  history : List (Call × Reply)

/-- No file yet, and no process in a command. -/
def World.initial : World ι where
  shared := { file := {}, place := fun _ => .idle }
  history := []

/-- A step of a process in the world. -/
def step (world : World ι) (event : ι × Action) : World ι where
  shared := SharedFile.step
    (fun _ action file place =>
      let (file, place, _) := turn host key action file place
      (file, place)) world.shared event
  history := world.history ++
    (turn host key event.2 world.shared.file (world.shared.place event.1)).2.2.toList

end Protheus.Security.Leases
