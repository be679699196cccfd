import Protheus.Swarm.Commands

/-!
`run`: one command of `swarm_runtime.rs` from the loaded state to the saved one, and
the two entry points other lanes use, `run_thorn_contract` and `force_shutdown`.
-/

namespace Protheus.Swarm

open Program Script
open RustStd (u64Max addUpTo)

/-- A command with its flags.  A missing or blank identifier is refused with the text
the source has for it. -/
inductive Command where
  | spawn (parentId : Option String) (task : String) (recursive : Bool) (maxDepth : UInt8)
      (levels : Option UInt8) (options : SpawnOptions)
  | tick (advanceMs maxCheckIns : ℕ)
  | sessionsWake (sessionId : Option String)
  | sessionsResume (sessionId : Option String)
  | sessionsTerminate (sessionId : Option String) (graceful : Bool)
  | sessionsHandoff (senderId recipientId reason : Option String) (importance : Option ℚ)
      (context : Option Json) (networkId : Option String)
  | sessionsContextPut (sessionId : Option String) (context : Option Json) (merge : Bool)
  | sessionsSend (senderId recipientId message : Option String) (delivery : DeliveryGuarantee)
      (simulateFirstAttemptFail : Bool) (ttlMs : ℕ)
  | sessionsSendRole (senderId role message : Option String) (delivery : DeliveryGuarantee)
  | sessionsReceive (sessionId : Option String) (limit : ℕ) (markRead : Bool)
  | sessionsAck (sessionId messageId : Option String)
  | sessionsRetryDeadLetter (messageId : Option String)
  | toolsRegister (sessionId toolName : Option String) (schema : Option Json)
      (bridgePath entrypoint : Option String)
  | toolsInvoke (sessionId toolName : Option String) (args : Option Json)
  | turnsRun (sessionId : Option String) (turns : List Json)
  | networksCreate (sessionId : Option String) (spec : Option Json)
  | channelsCreate (name : Option String) (participants : List String)
  | channelsPublish (channelId senderId message : Option String) (delivery : DeliveryGuarantee)
  | backgroundStart (parentId : Option String) (task : String) (maxDepth : UInt8)
      (options : SpawnOptions) (taskCfg : PersistentAgentConfig)
  | backgroundStop (sessionId : Option String) (graceful : Bool)
  | scheduledAdd (taskId : String) (task : ScheduledTask)
  | scheduledRunDue (advanceMs maxRuns : ℕ)
  | byzantineTest (enabled : Bool)
  | thornQuarantine (sessionId anomalyType reason : Option String)
  | thornRelease (sessionId reason : Option String)
  /-- A command that reads the state or writes what is not modelled. -/
  | report

/-- Where a command comes in: `run` itself, `run_thorn_contract`, or
`force_shutdown`. -/
inductive Entry where
  | run (command : Command) (autoTick : Bool) (autoMaxCheckIns : ℕ)
  | thornContract (command : Command)
  | forceShutdown

/-- What one process gets: the clock when it starts, at its automatic tick and at its
command, the readings of its identifier loops, and what it is to do. -/
structure Request where
  nowMs : ℕ
  autoNowMs : ℕ
  commandNowMs : ℕ
  readings : List ℕ
  entry : Entry

variable {host : Host} {readings : List ℕ}

/-- `clamp(0.0, 1.0)`, which keeps a NaN. -/
def clampUnit : Option ℚ → Option ℚ := Option.map (RustStd.clamp · 0 1)

/-- A flag that is not blank, or what stands in for it. -/
def flagOr (fallback : String) (raw : Option String) : String :=
  (raw.filter fun value => RustStd.trim value != "").getD fallback

def command (nowMs : ℕ) : Command → Script host readings Unit
  | .spawn parentId task recursive maxDepth levels options =>
    let maxDepth := max maxDepth.toNat 1
    spawn parentId task recursive (max ((levels.map (·.toNat)).getD maxDepth) 1) maxDepth options
      nowMs
  | .tick advanceMs maxCheckIns =>
    tickPersistentSessions (addUpTo u64Max nowMs advanceMs) (max maxCheckIns 1)
  | .sessionsWake sessionId => do
    perform (.wake (← flag "session_id_required" sessionId) nowMs)
  | .sessionsResume sessionId => do
    perform (.resume (← flag "session_id_required" sessionId) nowMs)
  | .sessionsTerminate sessionId graceful => do
    perform (.terminate (← flag "session_id_required" sessionId) graceful nowMs)
  | .sessionsHandoff senderId recipientId reason importance context networkId => do
    let senderId ← flag "session_id_required" senderId
    let recipientId ← flag "target_session_id_required" recipientId
    let reason ← flag "reason_required" reason
    registerHandoff senderId recipientId reason (clampUnit importance) context
      (networkId.filter fun value => RustStd.trim value != "") nowMs
  | .sessionsContextPut sessionId context merge => do
    let sessionId ← flag "session_id_required" sessionId
    let context ← ofOption (.error "context_json_required") context
    perform (.contextUpdate sessionId context merge)
  | .sessionsSend senderId recipientId message delivery simulate ttlMs => do
    let recipientId ← flag "session_id_required" recipientId
    let message ← flag "message_required" message
    perform (.send (flagOr "coordinator" senderId) recipientId message delivery simulate ttlMs nowMs)
  | .sessionsSendRole senderId role message delivery => do
    let role ← flag "role_required" role
    let message ← flag "message_required" message
    sendToRole (flagOr "coordinator" senderId) role message delivery nowMs
  | .sessionsReceive sessionId limit markRead => do
    perform (.receive (← flag "session_id_required" sessionId) limit markRead)
  | .sessionsAck sessionId messageId => do
    let sessionId ← flag "session_id_required" sessionId
    perform (.ack sessionId (← flag "message_id_required" messageId) nowMs)
  | .sessionsRetryDeadLetter messageId => do
    perform (.retryDeadLetter (← flag "message_id_required" messageId) nowMs)
  | .toolsRegister sessionId toolName schema bridgePath entrypoint => do
    let sessionId ← flag "session_id_required" sessionId
    let toolName ← flag "tool_name_required" toolName
    let schema ← ofOption (.error "schema_json_required") schema
    let bridgePath ← flag "bridge_path_required" bridgePath
    registerJsonSchemaTool sessionId toolName schema bridgePath
      (← flag "entrypoint_required" entrypoint)
  | .toolsInvoke sessionId toolName args => do
    let sessionId ← flag "session_id_required" sessionId
    invokeRegisteredTool sessionId (← flag "tool_name_required" toolName) (args.getD (.obj [])) nowMs
  | .turnsRun sessionId turns => do
    executeTurns (← flag "session_id_required" sessionId) turns nowMs
  | .networksCreate sessionId spec => do
    createAgentNetwork (sessionId.filter fun value => RustStd.trim value != "")
      (← ofOption (.error "spec_json_required") spec) nowMs
  | .channelsCreate name participants =>
    perform (.createChannel (flagOr "swarm-channel" name) participants nowMs)
  | .channelsPublish channelId senderId message delivery => do
    let channelId ← flag "channel_id_required" channelId
    let message ← flag "message_required" message
    publishChannelMessage channelId (flagOr "coordinator" senderId) message delivery nowMs
  | .backgroundStart parentId task maxDepth options taskCfg =>
    let cfg := match options.executionMode with
      | .background cfg | .persistent cfg => cfg
      | .taskOriented => taskCfg
    perform (.spawnPersistent parentId task (max maxDepth.toNat 1) options cfg true nowMs)
  | .backgroundStop sessionId graceful => Script.backgroundStop sessionId graceful nowMs
  | .scheduledAdd taskId task => perform (.scheduledAdd taskId task)
  | .scheduledRunDue advanceMs maxRuns =>
    Script.scheduledRunDue (addUpTo u64Max nowMs advanceMs) (max maxRuns 1)
  | .byzantineTest enabled => perform (.setByzantine enabled)
  | .thornQuarantine sessionId anomalyType reason => do
    perform (.quarantine (← flag "session_id_required" sessionId) (flagOr "anomaly" anomalyType)
      (flagOr "thorn_quarantine" reason) nowMs)
  | .thornRelease sessionId reason => do
    perform (.releaseThorn (← flag "session_id_required" sessionId)
      (flagOr "threat_removed" reason) nowMs)
  | .report => pure ()

/-- `drain_expired_thorn_cells`. -/
def drainExpiredThornCells (nowMs : ℕ) : Script host readings Unit := do
  let state ← get
  forEach (fun targetId => attempt (perform (.releaseThorn targetId "ttl_expired" nowMs)))
    (expiredThornTargets state nowMs)

def Command.isTick : Command → Bool
  | .tick .. => true
  | _ => false

def Command.isThorn : Command → Bool
  | .thornQuarantine .. | .thornRelease .. => true
  | _ => false

/-- The automatic tick before a command: its error is ignored. -/
def autoTickStep (nowMs maxCheckIns : ℕ) : Script host readings Unit := do
  let state ← get
  if (persistentSessionIds state).isEmpty then pure ()
  else attempt (tickPersistentSessions nowMs (max maxCheckIns 1))

/-- What a request does to the state it finds. -/
def Request.script (request : Request) : Script host request.readings Unit :=
  match request.entry with
  | .run cmd autoTick autoMaxCheckIns => do
    perform (.recover request.nowMs)
    perform (.drainMessages request.nowMs)
    drainExpiredThornCells request.nowMs
    if autoTick && !cmd.isTick then autoTickStep request.autoNowMs autoMaxCheckIns else pure ()
    command request.commandNowMs cmd
  | .thornContract cmd => do
    perform (.drainMessages request.nowMs)
    drainExpiredThornCells request.nowMs
    require cmd.isThorn (.error "unknown_thorn_subcommand")
    command request.commandNowMs cmd
  | .forceShutdown => perform .forceShutdown

variable (host)

/-- The outcome of a request. -/
def handle (state : SwarmState) (request : Request) :
    Outcome (exec host request.readings) state Unit := request.script state

/-- The state file after a request: the error of a command is saved with the rest, and
a process that does not end saves nothing. -/
def step (state : SwarmState) (request : Request) : SwarmState :=
  match (handle host state request).result with
  | .error .unending => state
  | _ => (handle host state request).state

/-- Every operation a request performs meets the guard. -/
def Heeds (guard : Host → List ℕ → SwarmState → Op → Prop) (state : SwarmState)
    (request : Request) : Prop :=
  Runs.Meets (effect (exec host request.readings)) (guard host request.readings) state
    (handle host state request).calls

instance (guard : Host → List ℕ → SwarmState → Op → Prop)
    [∀ host readings state op, Decidable (guard host readings state op)] (state : SwarmState)
    (request : Request) : Decidable (Heeds host guard state request) :=
  inferInstanceAs (Decidable (Runs.Meets _ _ _ _))

variable {host}

/-- **Requests keep what their operations keep.** -/
theorem step_invariant {Inv : SwarmState → Prop}
    {guard : Host → List ℕ → SwarmState → Op → Prop}
    (hop : ∀ readings state op, Inv state → guard host readings state op →
      Inv (exec host readings op state).2)
    {state : SwarmState} {request : Request} (hinv : Inv state)
    (hheeds : Heeds host guard state request) : Inv (step host state request) := by
  have hstate := (handle host state request).invariant (hop request.readings) hinv hheeds
  unfold step
  split
  · exact hinv
  · exact hstate

/-! ## Concrete runs -/

/-- A process whose digest is the receipt hash on the listed seeds, for runs that print
no floats. -/
def Host.ofDigests (digests : List (Json × String)) : Host where
  digest seed := (digests.lookup seed).getD (String.ofList (List.replicate 64 '0'))
  printFloat _ := "0.5"
  displayFloat _ := "0.5"

/-- A command at a time of the clock. -/
def Command.at (cmd : Command) (nowMs : ℕ) : Request :=
  ⟨nowMs, nowMs, nowMs, [nowMs], .run cmd false 1⟩

/-- The seed of a session identifier that is free at its first try. -/
def sessionSeed (task : String) (depth nowMs : ℕ) : Json :=
  Json.ofFields [("task", .str task), ("depth", Json.ofNat depth), ("salt", Json.ofNat 0),
    ("ts", Json.ofNat nowMs)]

end Protheus.Swarm
