import Protheus.CliArgs
import Protheus.F64
import Protheus.V8Kernel

/-!
The auto-approvals of `autophagy_auto_approval.rs`: an approval waits in the state as a
pending entry and is committed or rolled back; a rollback also files a regret.

Each command writes up to four files, one after another, and stops at the first write that
fails.  JSON reads back as it was written unless it is nested too deeply to be parsed.
-/

namespace Protheus.AutoApproval

/-- What the process gets from outside: digests, floats, JSON texts and other files.
No digest is empty; `fixed3` writes a float with three decimals. -/
structure Host extends V8Kernel.Host where
  digest_ne : ∀ text, sha256HexStr text ≠ ""
  fixed3 : ℚ → String
  parseF64 : String → Option F64
  parseJson : String → Except String Json
  readFile : String → Except String String

structure Policy where
  enabled : Bool
  minConfidence : ℚ
  minHistoricalSuccessRate : ℚ
  maxImpactScore : ℚ
  excludedTypes : List String
  autoRollbackOnDegradation : Bool
  maxDriftDelta : ℚ
  maxYieldDrop : ℚ
  rollbackWindowMinutes : ℤ
  regretIssueLabel : String
  statePath : String
  latestPath : String
  receiptsPath : String
  regretsPath : String

structure ProposalSummary where
  id : String
  title : String
  proposalType : String
  confidence : ℚ
  historicalSuccessRate : ℚ
  impactScore : ℚ
  raw : Json

/-- The files a command writes. -/
inductive File where
  | state
  | latest
  | receipts
  | regrets
  deriving DecidableEq, Repr

/-- A command line, the policy it loads, the readings of the clock in their order, and
the error each file's write ends in, if it fails. -/
structure Command where
  argv : List String
  policy : Policy
  root : String := ""
  clock : ℕ → ℤ
  fault : File → Option String := fun _ => none

/-- The files of one auto-approval state. -/
structure Files where
  state : Option Json := none
  latest : Option Json := none
  receipts : List Json := []
  regrets : List Json := []

def Command.flag (cmd : Command) (key : String) : Option String := CliArgs.parseFlag key cmd.argv

def Command.applies (cmd : Command) : Bool := V8Kernel.parseBool (cmd.flag "apply") false

/-! ## Proposals -/

/-- A text, trimmed, unless it is blank. -/
def nonBlank (value : Option Json) : Option String :=
  ((value.bind Json.asStr).map RustStd.trim).filter (· ≠ "")

/-- `value_string`. -/
def valueString (value : Option Json) (fallback : String) : String := (nonBlank value).getD fallback

/-- `value_f64`. -/
def valueF64 (value : Option Json) (fallback : ℚ) : ℚ := (value.bind Json.asF64).getD fallback

/-- `stable_proposal_id`. -/
def stableProposalId (host : Host) (proposal : Json) : String :=
  let seed := Json.ofFields
    [("title", .str (valueString (proposal.get? "title") "proposal")),
      ("proposal_type",
        .str (valueString ((proposal.get? "type").or (proposal.get? "kind")) "generic")),
      ("payload", proposal)]
  String.ofList ((host.digest seed).toList.take 16)

/-- `proposal_summary`. -/
def proposalSummary (host : Host) (proposal : Json) : ProposalSummary where
  id := (nonBlank (proposal.get? "id")).getD (stableProposalId host proposal)
  title := valueString (proposal.get? "title") "Untitled proposal"
  proposalType := RustStd.toAsciiLowercase (valueString
    (((proposal.get? "proposal_type").or (proposal.get? "type")).or (proposal.get? "kind")) "generic")
  confidence := valueF64 (proposal.get? "confidence") 0
  historicalSuccessRate := valueF64
    ((proposal.get? "historical_success_rate").or (proposal.get? "historical_success")) 0
  impactScore := valueF64 (proposal.get? "impact_score") 100
  raw := proposal

/-- The fields of a summary, as the receipt of an evaluation has them. -/
def ProposalSummary.fields (summary : ProposalSummary) : List (String × Json) :=
  [("id", .str summary.id), ("title", .str summary.title),
    ("proposal_type", .str summary.proposalType), ("confidence", .ofRat summary.confidence),
    ("historical_success_rate", .ofRat summary.historicalSuccessRate),
    ("impact_score", .ofRat summary.impactScore)]

/-- `parse_proposal`. -/
def parseProposal (host : Host) (cmd : Command) : Except String Json :=
  match cmd.flag "proposal-json" with
  | some raw => (host.parseJson raw).mapError ("proposal_json_parse_failed:" ++ ·)
  | none =>
    match cmd.flag "proposal-file" with
    | some file => do
      let raw ← (host.readFile file).mapError ("proposal_file_read_failed:" ++ ·)
      (host.parseJson raw).mapError ("proposal_file_parse_failed:" ++ ·)
    | none => .error "missing_proposal_payload"

/-- A value that is out of bounds, as a reason gives it. -/
def outOfBounds (host : Host) (name sign : String) (value bound : ℚ) : String :=
  name ++ ":" ++ host.fixed3 value ++ sign ++ host.fixed3 bound

/-- `evaluate_proposal`: the reasons against a proposal; it is eligible where there are none. -/
def evaluateProposal (host : Host) (policy : Policy) (proposal : ProposalSummary) : List String :=
  (if policy.enabled then [] else ["auto_approval_disabled"]) ++
  (if policy.excludedTypes.contains proposal.proposalType then
    ["excluded_type:" ++ proposal.proposalType] else []) ++
  (if proposal.confidence < policy.minConfidence then
    [outOfBounds host "confidence_below_floor" "<" proposal.confidence policy.minConfidence]
    else []) ++
  (if proposal.historicalSuccessRate < policy.minHistoricalSuccessRate then
    [outOfBounds host "historical_success_below_floor" "<" proposal.historicalSuccessRate
      policy.minHistoricalSuccessRate] else []) ++
  (if policy.maxImpactScore < proposal.impactScore then
    [outOfBounds host "impact_score_above_cap" ">" proposal.impactScore policy.maxImpactScore]
    else [])

/-! ## Files -/

/-- `load_state`. -/
def loadState (files : Files) : Json :=
  (files.state.filter fun state => state.depth ≤ Json.parseDepth).getD
    (.ofFields [("version", .str "1.0"), ("pending_commit", .arr []), ("committed", .arr []),
      ("rolled_back", .arr [])])

/-- `store_state`. -/
def storeState (cmd : Command) (state : Json) (files : Files) : Except String Unit × Files :=
  match cmd.fault .state with
  | some err => (.error err, files)
  | none => (.ok (), { files with state := some state })

/-- `finalize_receipt`. -/
def finalizeReceipt (host : Host) (cmd : Command) (receipt : Json) (files : Files) :
    Except String Json × Files :=
  let receipt := receipt.setField "receipt_hash" (.str (host.digest receipt))
  match cmd.fault .latest with
  | some err => (.error err, files)
  | none =>
    let files := { files with latest := some receipt }
    match cmd.fault .receipts with
    | some err => (.error err, files)
    | none => (.ok receipt, { files with receipts := files.receipts ++ [receipt] })

/-- `base_receipt`. -/
def baseReceipt (kind command : String) (policy : Policy) (nowMs : ℤ) : Json :=
  .ofFields [("ok", .bool true), ("type", .str kind), ("authority", .str "core/layer2/ops"),
    ("command", .str command), ("state_path", .str policy.statePath),
    ("latest_path", .str policy.latestPath), ("receipts_path", .str policy.receiptsPath),
    ("regrets_path", .str policy.regretsPath), ("ts_epoch_ms", .ofInt nowMs)]

/-- `value[key] = ...` for each of the fields. -/
def withFields (fields : List (String × Json)) (value : Json) : Json :=
  fields.foldl (fun value f => value.setField f.1 f.2) value

/-- `array_from`: the rows under the key, none where there is no array. -/
def arrayFrom (object : List (String × Json)) (key : String) : List Json :=
  ((object.lookup key).bind Json.asArray).getD []

/-- The rows under the key, replaced. -/
def putRows (key : String) (rows : List Json) (object : List (String × Json)) :
    List (String × Json) := Json.insertField key (.arr rows) object

/-- The identifier of the proposal in a row. -/
def rowId (row : Json) : Option String :=
  (((row.get? "proposal").bind Json.asObject).bind (·.lookup "id")).bind Json.asStr

/-- `remove_entry`. -/
def removeEntry (rows : List Json) (proposalId : String) : Option (Json × List Json) :=
  (rows.find? (rowId · == some proposalId)).map fun row =>
    (row, rows.eraseP (rowId · == some proposalId))

/-- `insert_pending`. -/
def insertPending (object : List (String × Json)) (pending : Json) : List (String × Json) :=
  let rows := arrayFrom object "pending_commit"
  let proposalId := (rowId pending).getD ""
  let rows := if proposalId = "" then rows else rows.filter (rowId · != some proposalId)
  putRows "pending_commit" (rows ++ [pending]) object

/-! ## Commands -/

/-- The proposal of a pending entry, as its record keeps it. -/
def recordedProposal (pending : Json) (proposalId : String) : Json :=
  (pending.get? "proposal").getD (.ofFields [("id", .str proposalId)])

def optF64 : Option F64 → Json
  | some value => value.toJson
  | none => .null

def evaluationReceipt (host : Host) (cmd : Command) (summary : ProposalSummary) : Json :=
  let apply := cmd.applies
  let reasons := evaluateProposal host cmd.policy summary
  let eligible := reasons.isEmpty
  let decision :=
    if eligible then if apply then "auto_execute_pending_commit" else "auto_approve_eligible"
    else "human_review_required"
  withFields
    [("root", .str cmd.root), ("proposal", .ofFields summary.fields), ("decision", .str decision),
      ("eligible", .bool eligible), ("apply", .bool apply),
      ("decision_reasons", .arr (reasons.map .str)),
      ("claim_evidence", .arr [.ofFields
        [("id", .str "confidence_gated_auto_approval"),
          ("claim", .str
            "high_confidence_bounded_proposals_can_auto_execute_with_rollback_window"),
          ("evidence", .ofFields
            [("eligible", .bool eligible), ("apply", .bool apply),
              ("rollback_window_minutes", .ofInt cmd.policy.rollbackWindowMinutes)])]])]
    (baseReceipt "autophagy_auto_approval_evaluation" "evaluate" cmd.policy (cmd.clock 0))

def pendingEntry (cmd : Command) (summary : ProposalSummary) : Json :=
  .ofFields
    [("proposal", .ofFields (summary.fields ++ [("raw", summary.raw)])),
      ("approved_at_epoch_ms", .ofInt (cmd.clock 1)),
      ("rollback_deadline_epoch_ms",
        .ofInt (cmd.clock 1 + cmd.policy.rollbackWindowMinutes * 60 * 1000)),
      ("state", .str "pending_commit")]

/-- The state with a pending entry for the proposal. -/
def approve (host : Host) (cmd : Command) (summary : ProposalSummary)
    (object : List (String × Json)) : List (String × Json) :=
  Json.insertField "updated_at_epoch_ms" (.ofInt (cmd.clock 1))
    (Json.insertField "last_decision" (evaluationReceipt host cmd summary)
      (insertPending object (pendingEntry cmd summary)))

/-- `evaluate_command`. -/
def evaluateCommand (host : Host) (cmd : Command) (files : Files) : Except String Json × Files :=
  match parseProposal host cmd with
  | .error text => (.error text, files)
  | .ok proposal =>
    let summary := proposalSummary host proposal
    let receipt := evaluationReceipt host cmd summary
    if (evaluateProposal host cmd.policy summary).isEmpty && cmd.applies then
      match loadState files with
      | .obj object =>
        match storeState cmd (.obj (approve host cmd summary object)) files with
        | (.error text, files) => (.error text, files)
        | (.ok (), files) =>
          finalizeReceipt host cmd (receipt.setField "pending_record" (pendingEntry cmd summary)) files
      -- `expect` panics before anything is written
      | _ => (.error "state object", files)
    else finalizeReceipt host cmd receipt files

structure Rollback where
  proposalId : String
  trigger : String
  reason : String
  drift : Option F64
  yieldDrop : Option F64
  now : ℤ
  receiptMs : ℤ

def Rollback.regret (rollback : Rollback) (policy : Policy) : Json :=
  .ofFields
    [("proposal_id", .str rollback.proposalId), ("label", .str policy.regretIssueLabel),
      ("reason", .str rollback.reason), ("trigger", .str rollback.trigger),
      ("remediation_path", .str ("review/" ++ rollback.proposalId)),
      ("ts_epoch_ms", .ofInt rollback.now)]

def Rollback.record (rollback : Rollback) (policy : Policy) (pending : Json) : Json :=
  .ofFields
    [("proposal", recordedProposal pending rollback.proposalId),
      ("rolled_back_at_epoch_ms", .ofInt rollback.now), ("trigger", .str rollback.trigger),
      ("reason", .str rollback.reason), ("drift", optF64 rollback.drift),
      ("yield_drop", optF64 rollback.yieldDrop), ("regret", rollback.regret policy)]

/-- The state with a pending entry moved to the records under the key. -/
def moveRecord (key : String) (rest : List Json) (record : Json) (now : ℤ)
    (object : List (String × Json)) : List (String × Json) :=
  let object := putRows "pending_commit" rest object
  Json.insertField "updated_at_epoch_ms" (.ofInt now)
    (putRows key (arrayFrom object key ++ [record]) object)

/-- `rollback_from_state`, with the state that is to be stored after it. -/
def rollbackFromState (host : Host) (cmd : Command) (rollback : Rollback) (state : Json)
    (files : Files) : Except String (Json × Json) × Files :=
  match state with
  | .obj object =>
    match removeEntry (arrayFrom object "pending_commit") rollback.proposalId with
    | none => (.error ("proposal_not_pending:" ++ rollback.proposalId), files)
    | some (pending, rest) =>
      let regret := rollback.regret cmd.policy
      let rolled := rollback.record cmd.policy pending
      let object := moveRecord "rolled_back" rest rolled rollback.now object
      match cmd.fault .regrets with
      | some err => (.error err, files)
      | none =>
        let files := { files with regrets := files.regrets ++ [regret] }
        let receipt := withFields
          [("proposal_id", .str rollback.proposalId), ("trigger", .str rollback.trigger),
            ("reason", .str rollback.reason), ("drift", optF64 rollback.drift),
            ("yield_drop", optF64 rollback.yieldDrop), ("regret_issue", regret),
            ("rolled_back_record", rolled)]
          (baseReceipt "autophagy_auto_approval_rollback" "rollback" cmd.policy rollback.receiptMs)
        match finalizeReceipt host cmd receipt files with
        | (.error text, files) => (.error text, files)
        | (.ok receipt, files) => (.ok (receipt, .obj object), files)
  | _ => (.error "invalid_state_object", files)

/-- `rollback_from_state` and the `store_state` after it. -/
def rollbackAndStore (host : Host) (cmd : Command) (rollback : Rollback) (files : Files) :
    Except String Json × Files :=
  match rollbackFromState host cmd rollback (loadState files) files with
  | (.error text, files) => (.error text, files)
  | (.ok (receipt, state), files) =>
    match storeState cmd state files with
    | (.error text, files) => (.error text, files)
    | (.ok (), files) => (.ok receipt, files)

def Command.float (host : Host) (cmd : Command) (key : String) : Option F64 :=
  (cmd.flag key).bind fun v => host.parseF64 (RustStd.trim v)

/-- Whether a value is above its bound. -/
def breaches (value : Option F64) (bound : ℚ) : Bool :=
  match value with
  | some value => (F64.finite bound).lt value
  | none => false

/-- Whether the drift or the drop in yield is above its bound. -/
def Command.degraded (host : Host) (cmd : Command) : Bool :=
  breaches (cmd.float host "drift") cmd.policy.maxDriftDelta ||
    breaches (cmd.float host "yield-drop") cmd.policy.maxYieldDrop

/-- The deadline of a pending entry. -/
def Command.deadline (cmd : Command) (pending : Json) : ℤ :=
  ((pending.get? "rollback_deadline_epoch_ms").bind Json.asI64).getD (cmd.clock 0)

/-- Whether the deadline of a pending entry is reached. -/
def Command.expired (cmd : Command) (pending : Json) : Bool :=
  decide (cmd.deadline pending ≤ cmd.clock 0)

def Command.shouldRollback (host : Host) (cmd : Command) (pending : Json) : Bool :=
  cmd.policy.autoRollbackOnDegradation && (cmd.degraded host || cmd.expired pending)

/-- `monitor_command`. -/
def monitorCommand (host : Host) (cmd : Command) (files : Files) : Except String Json × Files :=
  match cmd.flag "proposal-id" with
  | none => (.error "missing_proposal_id", files)
  | some proposalId =>
    let drift := cmd.float host "drift"
    let yieldDrop := cmd.float host "yield-drop"
    let rows := (((loadState files).get? "pending_commit").bind Json.asArray).getD []
    match rows.find? (rowId · == some proposalId) with
    | none => (.error ("proposal_not_pending:" ++ proposalId), files)
    | some pending =>
      let trigger :=
        if cmd.degraded host then "degradation_threshold_breach"
        else if cmd.expired pending then "rollback_window_expired"
        else "healthy_pending"
      if cmd.applies && cmd.shouldRollback host pending then
        let reason :=
          if cmd.degraded host then "degradation_detected"
          else "rollback_window_expired_without_commit"
        rollbackAndStore host cmd
          { proposalId, trigger, reason, drift, yieldDrop
            now := cmd.clock 1
            receiptMs := cmd.clock 2 }
          files
      else
        finalizeReceipt host cmd
          (withFields
            [("proposal_id", .str proposalId), ("drift", optF64 drift),
              ("yield_drop", optF64 yieldDrop),
              ("rollback_deadline_epoch_ms", .ofInt (cmd.deadline pending)),
              ("expired", .bool (cmd.expired pending)),
              ("should_rollback", .bool (cmd.shouldRollback host pending)),
              ("trigger", .str trigger)]
            (baseReceipt "autophagy_auto_approval_monitor" "monitor" cmd.policy (cmd.clock 1)))
          files

def commitRecord (cmd : Command) (pending : Json) (proposalId reason : String) : Json :=
  .ofFields
    [("proposal", recordedProposal pending proposalId),
      ("committed_at_epoch_ms", .ofInt (cmd.clock 0)), ("reason", .str reason)]

/-- `commit_command`. -/
def commitCommand (host : Host) (cmd : Command) (files : Files) : Except String Json × Files :=
  match cmd.flag "proposal-id" with
  | none => (.error "missing_proposal_id", files)
  | some proposalId =>
    let reason := (cmd.flag "reason").getD "human_confirmed"
    match loadState files with
    | .obj object =>
      match removeEntry (arrayFrom object "pending_commit") proposalId with
      | none => (.error ("proposal_not_pending:" ++ proposalId), files)
      | some (pending, rest) =>
        let committed := commitRecord cmd pending proposalId reason
        let object := moveRecord "committed" rest committed (cmd.clock 1) object
        match storeState cmd (.obj object) files with
        | (.error text, files) => (.error text, files)
        | (.ok (), files) =>
          finalizeReceipt host cmd
            (withFields
              [("proposal_id", .str proposalId), ("reason", .str reason),
                ("committed_record", committed)]
              (baseReceipt "autophagy_auto_approval_commit" "commit" cmd.policy (cmd.clock 2)))
            files
    | _ => (.error "invalid_state_object", files)

/-- `rollback_command`. -/
def rollbackCommand (host : Host) (cmd : Command) (files : Files) : Except String Json × Files :=
  match cmd.flag "proposal-id" with
  | none => (.error "missing_proposal_id", files)
  | some proposalId =>
    rollbackAndStore host cmd
      { proposalId
        trigger := "manual_rollback"
        reason := (cmd.flag "reason").getD "manual_rollback"
        drift := cmd.float host "drift"
        yieldDrop := cmd.float host "yield-drop"
        now := cmd.clock 0
        receiptMs := cmd.clock 1 }
      files

/-- The commands that write. -/
inductive Verb where
  | evaluate
  | monitor
  | commit
  | rollback
  deriving DecidableEq, Repr

def Command.verb (cmd : Command) : Option Verb :=
  let name := CliArgs.commandName cmd.argv
  if name = "evaluate" then some .evaluate
  else if name = "monitor" then some .monitor
  else if name = "commit" then some .commit
  else if name = "rollback" then some .rollback
  else none

/-- `run`, on a command that may write; the others write nothing. -/
def exec (host : Host) (files : Files) (cmd : Command) : Except String Json × Files :=
  match cmd.verb with
  | some .evaluate => evaluateCommand host cmd files
  | some .monitor => monitorCommand host cmd files
  | some .commit => commitCommand host cmd files
  | some .rollback => rollbackCommand host cmd files
  | none => (.error "unknown_command", files)

/-- The files a command leaves. -/
def step (host : Host) (files : Files) (cmd : Command) : Files := (exec host files cmd).2

end Protheus.AutoApproval
