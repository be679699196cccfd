import Protheus.F64
import Protheus.ReceiptHash

/-!
How `secret_broker_kernel.rs` reads a payload and loads a secret.

A policy names the providers of a secret: an environment variable, files or a process.
What each of them answers when it is asked is the outside's; `load_secret_by_id` takes
the first enabled one whose answer holds a value, and judges how long ago the secret was
rotated.  Times are `i64` milliseconds, with the arithmetic of a release build.
-/

namespace Protheus.SecretBroker

/-- What the process gets from outside besides: HMAC-SHA256 of a key and a text, the
nearest float, the reader of JSON, the reader and the writer of time stamps. -/
structure Host extends V8Kernel.Host where
  hmacSha256 : String → String → List UInt8
  roundFloat : ℚ → F64
  parseJson : List UInt8 → Option Json
  parseRfc3339 : String → Option Int64
  isoText : Int64 → Option String

/-! ## Payload fields -/

/-- `text`. -/
def text (value : Option Json) (maxLen : ℕ) : String :=
  V8Kernel.clean ((value.bind Json.asStr).getD "") maxLen

/-- `int_value`. -/
def intValue (value : Option Json) : Option Int64 :=
  value.bind fun v =>
    match v.asI64 with
    | some n => some (Int64.ofInt n)
    | none => v.asStr.bind fun raw => RustStd.parseI64 (RustStd.trim raw)

/-- `bool_value`. -/
def boolValue (value : Option Json) (fallback : Bool) : Bool :=
  match value with
  | some (.bool v) => v
  | some (.str v) => V8Kernel.parseBool (some v) fallback
  | some (.num n) => ((Json.num n).asI64.map (· != 0)).getD fallback
  | _ => fallback

/-- `now_ms`: the time the payload names, or the clock's. -/
def nowMs (payload : List (String × Json)) (clock : Int64) : Int64 :=
  (intValue (payload.lookup "now_ms")).getD clock

/-- `iso_from_ms`. -/
def isoFromMs (host : Host) (ms clock : Int64) : String :=
  (host.isoText ms).getD ((host.isoText clock).getD "")

/-- `sha16`. -/
def sha16 (host : Host) (value : String) : String :=
  String.ofList ((host.sha256HexStr value).toList.take 16)

/-! ## Policy -/

structure RotationConfig where
  warnAfterDays : F64
  maxAfterDays : F64
  requireRotatedAt : Bool
  enforceOnIssue : Bool
  deriving DecidableEq

inductive ProviderKind where
  | env
  | jsonFile
  | command
  deriving DecidableEq

def ProviderKind.word : ProviderKind → String
  | env => "env"
  | jsonFile => "json_file"
  | command => "command"

/-- A provider, and what it answers when it is asked. -/
structure Provider where
  kind : ProviderKind
  enabled : Bool
  answer : Option Json

structure SecretSpec where
  providers : List Provider
  rotation : RotationConfig

/-! ## Loading a secret -/

structure RotationHealth where
  status : String
  reason : String
  rotatedAt : Option String
  ageDays : Option F64
  config : RotationConfig
  deriving DecidableEq

structure ResolvedBackend where
  providerType : String
  providerRef : Option String
  external : Bool
  deriving DecidableEq

structure LoadedSecret where
  ok : Bool
  secretId : String
  value : String
  valueHash : String
  backend : Option ResolvedBackend
  rotation : Option RotationHealth
  error : Option String
  providerErrors : List Json
  deriving DecidableEq

/-- `parse_ts_ms`. -/
def parseTsMs (host : Host) (value : Json) : Option Int64 :=
  let scaled (n : ℤ) : Option Int64 :=
    if 100000000000 < n then some (Int64.ofInt n)
    else if 1000000000 < n then some (Int64.ofInt (n * 1000))
    else none
  (value.asI64.bind scaled).or <| value.asStr.bind fun raw =>
    let raw := RustStd.trim raw
    if raw = "" then none
    else ((RustStd.parseI64 raw).bind fun n => scaled n.toInt).or (host.parseRfc3339 raw)

/-- `evaluate_rotation`. -/
def evaluateRotation (host : Host) (config : RotationConfig) (rotatedAt : Option Json)
    (now clock : Int64) : RotationHealth :=
  match rotatedAt.bind (parseTsMs host) with
  | none =>
    { status := if config.requireRotatedAt then "critical" else "unknown"
      reason := "rotated_at_missing"
      rotatedAt := none
      ageDays := none
      config := config }
  | some rotatedAtMs =>
    let elapsed := if now - rotatedAtMs < 0 then 0 else now - rotatedAtMs
    let ageDays := F64.div host.roundFloat (host.roundFloat elapsed.toInt) (.finite 86400000)
    let (status, reason) :=
      if config.maxAfterDays.lt ageDays then ("critical", "rotation_age_exceeded")
      else if config.warnAfterDays.lt ageDays then ("warn", "rotation_age_warning")
      else ("ok", "rotation_fresh")
    let shown :=
      match F64.mul host.roundFloat ageDays (.finite 1000) with
      | .finite q => F64.div host.roundFloat (.finite (RustStd.round q)) (.finite 1000)
      | other => other
    { status := status
      reason := reason
      rotatedAt := some (isoFromMs host rotatedAtMs clock)
      ageDays := some shown
      config := config }

def providerError (provider : Provider) (answer : Json) : Json :=
  .ofFields [
    ("provider_type",
      .str (((answer.get? "provider_type").bind Json.asStr).getD provider.kind.word)),
    ("reason", .str (((answer.get? "reason").bind Json.asStr).getD "provider_failed")),
    ("code", (answer.get? "code").getD .null),
    ("ref", (answer.get? "provider_ref").getD .null)]

/-- What `load_secret_by_id` makes of a provider's answer: its value and where it came
from, or an error. -/
def readAnswer (provider : Provider) : Except Json (String × Json) :=
  match provider.answer with
  | none =>
    .error (.ofFields [("provider_type", .str provider.kind.word),
      ("reason", .str "provider_failed")])
  | some answer =>
    if (answer.get? "ok").bind Json.asBool ≠ some true then .error (providerError provider answer)
    else
      let value := text (answer.get? "value") 8192
      if value = "" then
        .error (.ofFields [
          ("provider_type", .str (((answer.get? "provider_type").bind Json.asStr).getD "unknown")),
          ("reason", .str "value_empty")])
      else .ok (value, answer)

/-- The loop of `load_secret_by_id` over the providers. -/
def firstValue : List Provider → List Json → Except (List Json) (String × Json)
  | [], errors => .error errors
  | provider :: rest, errors =>
    if !provider.enabled then firstValue rest errors
    else
      match readAnswer provider with
      | .ok found => .ok found
      | .error e => firstValue rest (errors ++ [e])

/-- `load_secret_by_id`. -/
def loadSecretById (host : Host) (secrets : List (String × SecretSpec))
    (payload : List (String × Json)) (clock : Int64) : LoadedSecret :=
  let secretId := text (payload.lookup "secret_id") 160
  let now := nowMs payload clock
  let failed (error : String) (errors : List Json) : LoadedSecret :=
    { ok := false, secretId := secretId, value := "", valueHash := "", backend := none,
      rotation := none, error := some error, providerErrors := errors }
  match secrets.lookup secretId with
  | none => failed "secret_id_unsupported" []
  | some spec =>
    match firstValue spec.providers [] with
    | .error errors => failed "secret_value_missing" errors
    | .ok (value, answer) =>
      let ref := text (answer.get? "provider_ref") 240
      { ok := true
        secretId := secretId
        value := value
        valueHash := sha16 host value
        backend := some {
          providerType := text (answer.get? "provider_type") 64
          providerRef := if ref = "" then none else some ref
          external := boolValue (answer.get? "external") false }
        rotation := some (evaluateRotation host spec.rotation (answer.get? "rotated_at") now clock)
        error := none
        providerErrors := [] }

/-! ## Texts that are read twice -/

theorem text_str (s : String) (maxLen : ℕ) : text (some (.str s)) maxLen = V8Kernel.clean s maxLen :=
  rfl

/-- A text without blanks around it, no longer than asked for, is read as it stands. -/
theorem text_eq_self {s : String} {maxLen : ℕ} (htrim : RustStd.trim s = s)
    (hlength : s.length ≤ maxLen) : text (some (.str s)) maxLen = s := by
  rw [text_str, V8Kernel.clean, htrim, List.take_of_length_le, String.ofList_toList]
  rwa [String.length_toList]

@[simp] theorem text_none (maxLen : ℕ) : text none maxLen = "" := by
  have htrim : RustStd.trim "" = "" := RustStd.trim_eq_self (by simp)
  rw [text, V8Kernel.clean, Option.bind_none, Option.getD_none, htrim]
  simp

/-- A word is read as it stands. -/
theorem text_of_visible {s : String} {maxLen : ℕ}
    (h : ∀ c ∈ s.toList, RustStd.isWhitespace c = false) (hlength : s.length ≤ maxLen) :
    text (some (.str s)) maxLen = s :=
  text_eq_self (RustStd.trim_eq_self h) hlength

theorem length_text_le (value : Option Json) (maxLen : ℕ) : (text value maxLen).length ≤ maxLen := by
  rw [text, V8Kernel.clean, String.length_ofList]
  exact List.length_take_le _ _

/-- A number that is written is read back. -/
theorem intValue_ofInt (n : Int64) : intValue (some (.ofInt n.toInt)) = some n := by
  rw [intValue, Option.bind_some, Json.asI64_ofInt]
  dsimp only
  rw [Int64.ofInt_toInt]

end Protheus.SecretBroker
