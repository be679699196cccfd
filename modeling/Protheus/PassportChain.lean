import Protheus.Egress
import Protheus.Lib.UnixPath

/-!
The chain of iterations of `passport_iteration_chain_kernel.rs`.

`record` appends a row with the next number to a chain file, chained by hash to the row before it,
and writes what it appended to the file of the latest row.
-/

namespace Protheus.PassportChain

open LaneUtils
open UnixPath (Path Place)

/-- What the process gets from outside: SHA-256, the text of a float in JSON, and the runtime root
where a payload names none. -/
structure Host where
  sha256Hex : String → String
  printFloat : ℚ → String
  runtimeRoot : Path

/-- A file: the value it was last written with as a whole, if it was, and the rows appended since.
No line of such a value is a row. -/
structure File where
  whole : Option Json := none
  rows : List Json := []

/-- The files. -/
abbrev Disk := Place → File

/-- A call of `record`: its payload, the two time stamps it reads, and the texts of the errors with
which appending and writing fail, if they do. -/
structure Call where
  payload : List (String × Json)
  now : String
  nowLatest : String
  appendFault : Option String := none
  writeFault : Option String := none

/-- `resolve_path`. -/
def resolvePath (runtimeRoot : Path) (raw fallbackRel : String) : Path :=
  let trimmed := RustStd.trim raw
  UnixPath.join runtimeRoot (if trimmed = "" then fallbackRel else trimmed).toList

/-- `relative_to_runtime`. -/
def relativeToRuntime (runtimeRoot target : Path) : String :=
  String.ofList (((UnixPath.stripPrefix runtimeRoot target).getD target).map fun c =>
    if c = '\\' then '/' else c)

/-- A token, or what stands for none. -/
def tokenOr (text : String) (maxLen : ℕ) (fallback : String) : String :=
  let normalized := Egress.normalizeToken text maxLen
  if normalized = "" then fallback else normalized

/-- What `record` reads from its payload. -/
structure Event where
  lane : String
  step : String
  iteration : ℤ
  objectiveId : Option String
  targetPath : Option String
  metadata : Json

/-- A text, or `null`. -/
def orNull (text : Option String) : Json := (text.map Json.str).getD .null

def Event.fields (event : Event) (ts : String) : List (String × Json) :=
  [("schema_id", .str "passport_iteration_chain_event"), ("schema_version", .str "1.0"),
    ("ts", .str ts), ("lane", .str event.lane), ("step", .str event.step),
    ("iteration", .ofInt event.iteration), ("objective_id", orNull event.objectiveId),
    ("target_path", orNull event.targetPath), ("metadata", event.metadata)]

/-- The `iteration` of a payload. -/
def iterationOf (host : Host) (value : Option Json) : ℤ :=
  max 1 (((value.bind Json.asI64).or
    ((RustStd.parseI64 (asStr host.printFloat value)).map Int64.toInt)).getD 1)

/-- The head of `record`: the files and the event; `none` where `clean_text` aborts the process. -/
def readCall (host : Host) (payload : List (String × Json)) : Option (Path × Path × Path × Event) := do
  let explicit ← cleanText host.printFloat (payload.lookup "root") 520
  let runtime := if explicit = "" then host.runtimeRoot else explicit.toList
  let chain ← cleanText host.printFloat (payload.lookup "chain_path") 520
  let latest ← cleanText host.printFloat (payload.lookup "latest_path") 520
  let lane ← cleanText host.printFloat (payload.lookup "lane") 120
  let step ← cleanText host.printFloat (payload.lookup "step") 120
  let objective ← cleanText host.printFloat
    ((payload.lookup "objective_id").or (payload.lookup "objectiveId")) 180
  let target ← cleanText host.printFloat
    ((payload.lookup "target_path").or (payload.lookup "targetPath")) 360
  let objectiveId := Egress.normalizeToken objective 180
  return (runtime,
    resolvePath runtime chain "local/state/security/passport_iteration_chain.jsonl",
    resolvePath runtime latest "local/state/security/passport_iteration_chain.latest.json",
    { lane := tokenOr lane 120 "iterative_repair"
      step := tokenOr step 120 "step"
      iteration := iterationOf host (payload.lookup "iteration")
      objectiveId := if objectiveId = "" then none else some objectiveId
      targetPath := if target = "" then none else some target
      metadata := ((payload.lookup "metadata").filter Json.isObject).getD (.obj []) })

/-- The row `record` appends, and its number and hash. -/
def chainRow (host : Host) (rows : List Json) (event : Event) (ts : String) :
    Json × ℤ × String × Json :=
  let latest := rows.getLast?
  let seq := (Int64.ofInt (((latest.bind (·.get? "seq")).bind Json.asI64).getD 0) + 1).toInt
  let prevHash := orNull ((latest.bind (·.get? "hash")).bind Json.asStr)
  let payloadHash := host.sha256Hex ((Json.ofFields (event.fields ts)).render host.printFloat)
  let hash := host.sha256Hex ((Json.ofFields [("seq", .ofInt seq), ("prev_hash", prevHash),
    ("payload_hash", .str payloadHash)]).render host.printFloat)
  (Json.ofFields (event.fields ts ++ [("seq", .ofInt seq), ("prev_hash", prevHash),
    ("payload_hash", .str payloadHash), ("hash", .str hash)]), seq, hash, prevHash)

/-- `record`. -/
def record (host : Host) (call : Call) (disk : Disk) : Option (Except String Json × Disk) := do
  let (runtime, chainPath, latestPath, event) ← readCall host call.payload
  let chain := UnixPath.resolve chainPath
  let (row, seq, hash, prevHash) := chainRow host (disk chain).rows event call.now
  match call.appendFault with
  | some err => return (.error err, disk)
  | none =>
    let disk := Function.update disk chain { disk chain with rows := (disk chain).rows ++ [row] }
    let latest := Json.ofFields [("ok", .bool true), ("type", .str "passport_iteration_chain_record"),
      ("ts", .str call.nowLatest), ("lane", .str event.lane), ("step", .str event.step),
      ("iteration", .ofInt event.iteration), ("seq", .ofInt seq), ("hash", .str hash),
      ("prev_hash", prevHash), ("chain_path", .str (relativeToRuntime runtime chainPath)),
      ("latest_path", .str (relativeToRuntime runtime latestPath)),
      ("passport", .ofFields [("ok", .bool false), ("skipped", .bool true)])]
    match call.writeFault with
    | some err => return (.error err, disk)
    | none =>
      return (.ok latest, Function.update disk (UnixPath.resolve latestPath) { whole := some latest })

end Protheus.PassportChain
