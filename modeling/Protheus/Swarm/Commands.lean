import Protheus.Lib.Program
import Protheus.Swarm.Thorn

/-!
The commands of `swarm_runtime.rs` as programs over its operations.

An operation (`Op`) is one of the functions of the modules before, with the values
it reads from outside; `exec` carries it out.  Loops, sequences and error exits of
the source are programs that make such calls, so whatever every operation keeps is
kept by every command.  `run` is the source's: it recovers, drains and ticks before
the command, and it saves the state whether or not the command succeeded.
-/

namespace Protheus.Swarm

open Std (ExtTreeMap)
open RustStd (u64Max addUpTo)

/-- One operation on the state. -/
inductive Op where
  | recover (nowMs : ℕ)
  | drainMessages (nowMs : ℕ)
  | releaseThorn (targetId reason : String) (nowMs : ℕ)
  | quarantine (targetId anomalyType reason : String) (nowMs : ℕ)
  | tickRound (nowMs : ℕ) (sessionId : String)
  | wake (sessionId : String) (nowMs : ℕ)
  | terminate (sessionId : String) (graceful : Bool) (nowMs : ℕ)
  | resume (sessionId : String) (nowMs : ℕ)
  | spawnSingle (parentId : Option String) (task : String) (maxDepth : ℕ) (options : SpawnOptions)
  | spawnPersistent (parentId : Option String) (task : String) (maxDepth : ℕ)
      (options : SpawnOptions) (cfg : PersistentAgentConfig) (backgroundWorker : Bool) (nowMs : ℕ)
  | contextUpdate (sessionId : String) (context : Json) (merge : Bool)
  | send (senderSessionId recipientSessionId payload : String) (delivery : DeliveryGuarantee)
      (simulateFirstAttemptFail : Bool) (ttlMs nowMs : ℕ)
  | receive (sessionId : String) (limit : ℕ) (markRead : Bool)
  | ack (sessionId messageId : String) (nowMs : ℕ)
  | retryDeadLetter (messageId : String) (nowMs : ℕ)
  | createChannel (name : String) (participants : List String) (nowMs : ℕ)
  | registerTool (key : String) (manifest : ToolManifest)
  | countInvocation (key : String)
  | setByzantine (enabled : Bool)
  | scheduledAdd (taskId : String) (task : ScheduledTask)
  | scheduledRan (taskId sessionId : String) (nowMs : ℕ)
  | forceShutdown

inductive Answer where
  | done
  | name (id : String)
  | receipt (receipt : SendReceipt)
  | messages (messages : List AgentMessage)
  deriving DecidableEq

/-- The bookkeeping of `scheduled_run_due` after a task has run. -/
def ScheduledTask.ran (task : ScheduledTask) (sessionId : String) (nowMs : ℕ) : ScheduledTask :=
  { task with
    lastSessionId := some sessionId
    remainingRuns := task.remainingRuns - 1
    nextRunMs := addUpTo u64Max nowMs (min (task.intervalSec * 1000) u64Max)
    active := task.active && task.remainingRuns - 1 != 0 }

section Machine

variable (host : Host) (readings : List ℕ)

/-- An operation's answer and the state it leaves; `readings` are the clock readings of
the loops that look for a fresh identifier. -/
def exec (op : Op) (state : SwarmState) : Except Stop Answer × SwarmState :=
  let named (answer : Except Stop String × SwarmState) : Except Stop Answer × SwarmState :=
    (answer.1.map .name, answer.2)
  match op with
  | .recover nowMs => (.ok .done, recoverPersistentSessionsAfterReload state nowMs)
  | .drainMessages nowMs => (.ok .done, drainExpiredMessages state nowMs)
  | .releaseThorn targetId reason nowMs =>
    let answer := releaseThornCellsForTarget state targetId reason nowMs
    (answer.1.map fun _ => .done, answer.2)
  | .quarantine targetId anomalyType reason nowMs =>
    named (quarantineIntoThorn host readings state targetId anomalyType reason nowMs)
  | .tickRound nowMs sessionId => named (tickRound state nowMs sessionId)
  | .wake sessionId nowMs => named (sessionsWake state sessionId nowMs)
  | .terminate sessionId graceful nowMs => named (sessionsTerminate state sessionId graceful nowMs)
  | .resume sessionId nowMs => named (sessionsResume state sessionId nowMs)
  | .spawnSingle parentId task maxDepth options =>
    named (spawnSingle host readings state parentId task maxDepth options)
  | .spawnPersistent parentId task maxDepth options cfg backgroundWorker nowMs =>
    named (spawnPersistentSession host readings state parentId task maxDepth options cfg
      backgroundWorker nowMs)
  | .contextUpdate sessionId context merge =>
    named (applyContextUpdate host state sessionId context merge)
  | .send sender recipient payload delivery simulate ttlMs nowMs =>
    let answer :=
      sendSessionMessage host readings state sender recipient payload delivery simulate ttlMs nowMs
    (answer.1.map .receipt, answer.2)
  | .receive sessionId limit markRead =>
    let answer := receiveSessionMessages state sessionId limit markRead
    (answer.1.map .messages, answer.2)
  | .ack sessionId messageId nowMs =>
    let answer := acknowledgeSessionMessage state sessionId messageId nowMs
    (answer.1.map fun _ => .done, answer.2)
  | .retryDeadLetter messageId nowMs =>
    let answer := sessionsRetryDeadLetter host readings state messageId nowMs
    (answer.1.map .receipt, answer.2)
  | .createChannel name participants nowMs =>
    named (createChannel host state name participants nowMs)
  | .registerTool key manifest =>
    (.ok .done, { state with toolRegistry := state.toolRegistry.insert key manifest })
  | .countInvocation key =>
    (.ok .done, { state with
      toolRegistry := state.toolRegistry.modify key fun manifest =>
        { manifest with invocationCount := addUpTo u64Max manifest.invocationCount 1 } })
  | .setByzantine enabled => (.ok .done, { state with byzantineTestMode := enabled })
  | .scheduledAdd taskId task =>
    (.ok .done, { state with scheduledTasks := state.scheduledTasks.insert taskId task })
  | .scheduledRan taskId sessionId nowMs =>
    (.ok .done, { state with
      scheduledTasks := state.scheduledTasks.modify taskId (·.ran sessionId nowMs) })
  | .forceShutdown => (.ok .done, forceShutdown state)

/-- A program over the operations. -/
abbrev Script (α : Type) := Program (exec host readings) α

namespace Script

open Program

variable {host readings}

def fail {α : Type} (text : String) : Script host readings α := throw (.error text)

/-- An operation whose answer is of no further use. -/
def perform (op : Op) : Script host readings Unit := do
  let _ ← call op

theorem comesTo_perform (op : Op) (state : SwarmState) :
    ComesTo (perform op : Script host readings Unit) state
      ((exec host readings op state).1.map fun _ => ()) (exec host readings op state).2 [op] := by
  have hcall : ComesTo (call op : Script host readings Answer) state _ _ _ := .call op state
  cases hanswer : (exec host readings op state).1 with
  | error stop =>
    rw [hanswer] at hcall
    exact hcall.bind_error _
  | ok answer =>
    rw [hanswer] at hcall
    exact hcall.bind (.pure () _)

theorem state_perform (op : Op) (state : SwarmState) :
    ((perform op : Script host readings Unit) state).state = (exec host readings op state).2 :=
  (comesTo_perform op state).state

/-- An operation that answers with an identifier. -/
def callName (op : Op) : Script host readings String := do
  match ← call op with
  | .name id => pure id
  | _ => pure ""

/-- A flag with `filter(|value| !value.trim().is_empty())`. -/
def flag (text : String) (raw : Option String) : Script host readings String :=
  ofOption (.error text) (raw.filter fun value => RustStd.trim value != "")

/-! ## Sessions -/

/-- The inner loop of `tick_persistent_sessions`. -/
def tickSession (nowMs maxCheckIns : ℕ) (sessionId : String) : Script host readings Unit :=
  rounds (do
    let state ← get
    match tickDue state nowMs sessionId with
    | none => pure false
    | some finalize => do
      perform (.tickRound nowMs sessionId)
      pure !finalize) maxCheckIns

def tickPersistentSessions (nowMs maxCheckIns : ℕ) : Script host readings Unit := do
  let state ← get
  forEach (tickSession nowMs maxCheckIns) (persistentSessionIds state)

/-- The loop of `recursive_spawn_with_tracking`: each session is the parent of the next. -/
def spawnLineage (task : String) (maxDepth : ℕ) (options : SpawnOptions) :
    Option String → ℕ → Script host readings Unit
  | _, 0 => pure ()
  | parentId, levels + 1 => do
    let child ← callName (.spawnSingle parentId task maxDepth options)
    spawnLineage task maxDepth options (some child) levels

/-- The `spawn` command. -/
def spawn (parentId : Option String) (task : String) (recursive : Bool) (levels maxDepth : ℕ)
    (options : SpawnOptions) (nowMs : ℕ) : Script host readings Unit :=
  match recursive, options.executionMode with
  | true, .taskOriented => spawnLineage task maxDepth options parentId levels
  | true, _ => fail "recursive_mode_requires_task_execution_mode"
  | false, .taskOriented => perform (.spawnSingle parentId task maxDepth options)
  | false, .persistent cfg =>
    perform (.spawnPersistent parentId task maxDepth options cfg false nowMs)
  | false, .background cfg =>
    perform (.spawnPersistent parentId task maxDepth options cfg true nowMs)

/-- `background stop`. -/
def backgroundStop (sessionId : Option String) (graceful : Bool) (nowMs : ℕ) :
    Script host readings Unit :=
  match sessionId.filter fun value => RustStd.trim value != "" with
  | some sessionId => perform (.terminate sessionId graceful nowMs)
  | none => do
    let state ← get
    forEach (fun sessionId => perform (.terminate sessionId graceful nowMs))
      ((state.sessions.toList.filter fun entry =>
        entry.2.backgroundWorker && entry.2.status == .backgroundRunning).map Prod.fst)

/-- `scheduled_run_due`. -/
def scheduledRunDue (nowMs maxRuns : ℕ) : Script host readings Unit := do
  let state ← get
  let due := (state.scheduledTasks.toList.filter fun entry =>
    entry.2.active && 0 < entry.2.remainingRuns && entry.2.nextRunMs ≤ nowMs).map Prod.fst
  forEach (fun taskId => do
    let state ← get
    match state.scheduledTasks[taskId]? with
    | none => pure ()
    | some row => do
      let sessionId ← callName (.spawnSingle none row.task 64 {})
      perform (.scheduledRan taskId sessionId nowMs)) (due.take maxRuns)

/-! ## Messages, context and tools -/

/-- The text of the message a handoff sends. -/
def handoffPayload (senderSessionId recipientSessionId reason : String) (importance : Option ℚ)
    (networkId : Option String) : String :=
  (Json.ofFields
    [("kind", .str "handoff"), ("from", .str senderSessionId), ("to", .str recipientSessionId),
      ("reason", .str (cleanText reason 240)),
      ("importance", (importance.map Json.ofRat).getD .null),
      ("network_id", (networkId.map Json.str).getD .null)]).render host.printFloat

def registerHandoff (senderSessionId recipientSessionId reason : String) (importance : Option ℚ)
    (contextOverride : Option Json) (networkId : Option String) (nowMs : ℕ) :
    Script host readings Unit := do
  let state ← get
  let sender ← ofOption (.error ("unknown_sender_session:" ++ senderSessionId))
    state.sessions[senderSessionId]?
  require (state.sessionExists recipientSessionId)
    (.error ("unknown_recipient_session:" ++ recipientSessionId))
  require (inUnitRange importance) (.error ("invalid_importance:" ++ host.display importance))
  perform (.contextUpdate recipientSessionId
    (contextOverride.getD (.obj sender.contextVars.toList)) true)
  perform (.send senderSessionId recipientSessionId
    (@handoffPayload host senderSessionId recipientSessionId reason importance networkId)
    .atLeastOnce false defaultMessageTtlMs nowMs)

def swarmBridge : String := "client/runtime/systems/autonomy/swarm_sessions_bridge.ts"

def safeToolBridgePath (raw : String) : Except String String :=
  let normalized := String.ofList ((cleanText raw 260).toList.map fun ch =>
    if ch = '\\' then '/' else ch)
  if normalized.isEmpty then .error "tool_bridge_path_required"
  else if normalized.startsWith "/" || RustStd.strContains normalized ".." then
    .error ("unsafe_tool_bridge:" ++ normalized)
  else if normalized == swarmBridge || normalized.startsWith "adapters/" then .ok normalized
  else .error ("unsupported_tool_bridge:" ++ normalized)

def toolManifestStorageKey (sessionId toolName : String) : String :=
  sessionId ++ ":" ++ safeRegistrySlug toolName 80

/-- A computed value, or an error text. -/
def ofExcept {α : Type} : Except String α → Script host readings α
  | .ok a => pure a
  | .error text => fail text

def registerJsonSchemaTool (sessionId toolName : String) (schema : Json)
    (bridgePath entrypoint : String) : Script host readings Unit := do
  let state ← get
  require (state.sessionExists sessionId) (.error ("unknown_session:" ++ sessionId))
  require schema.isObject (.error "tool_schema_object_required")
  let safePath ← ofExcept (safeToolBridgePath bridgePath)
  let toolName := cleanText toolName 120
  require (toolName != "") (.error "tool_name_required")
  let entrypoint := cleanText entrypoint 120
  require (entrypoint != "") (.error "tool_entrypoint_required")
  perform (.registerTool (toolManifestStorageKey sessionId toolName)
    { entrypoint, bridgePath := safePath })

/-- The session a tool call is about. -/
def toolTarget (args : Json) : Option String :=
  ((args.get? "target_session_id").or (args.get? "session_id")).bind Json.asStr

def invokeRegisteredTool (sessionId toolName : String) (args : Json) (nowMs : ℕ) :
    Script host readings Unit := do
  let state ← get
  require (state.sessionExists sessionId) (.error ("unknown_session:" ++ sessionId))
  let key := toolManifestStorageKey sessionId toolName
  let manifest ← ofOption (.error ("unknown_tool_manifest:" ++ toolName)) state.toolRegistry[key]?
  let safePath ← ofExcept (safeToolBridgePath manifest.bridgePath)
  require (safePath == swarmBridge) (.error ("unsupported_tool_bridge:" ++ safePath))
  let args := Json.obj (normalizeContextMap args)
  if manifest.entrypoint = "sessions_send" then do
    let target ← ofOption (.error "tool_target_session_id_required") (toolTarget args)
    let message ← ofOption (.error "tool_message_required")
      ((args.get? "message").bind Json.asStr)
    perform (.send sessionId target message .atLeastOnce false defaultMessageTtlMs nowMs)
    perform (.countInvocation key)
  else if manifest.entrypoint = "sessions_state" then do
    let target := (toolTarget args).getD sessionId
    require (state.sessionExists target) (.error ("unknown_session:" ++ target))
    perform (.countInvocation key)
  else if manifest.entrypoint = "sessions_handoff" then do
    let target ← ofOption (.error "tool_target_session_id_required") (toolTarget args)
    let reason := ((args.get? "reason").bind Json.asStr).getD "tool_handoff"
    let importance := ((args.get? "importance").bind Json.asF64).getD (1 / 2)
    registerHandoff sessionId target reason (some importance) (args.get? "context") none nowMs
    perform (.countInvocation key)
  else if manifest.entrypoint = "sessions_context_put" then do
    let context := ((args.get? "context").or (args.get? "context_json")).getD (.obj [])
    let merge := ((args.get? "merge").bind Json.asBool).getD true
    perform (.contextUpdate sessionId context merge)
    perform (.countInvocation key)
  else fail ("unsupported_tool_entrypoint:" ++ manifest.entrypoint)

/-- `publish_channel_message`. -/
def publishChannelMessage (channelId senderSessionId payload : String)
    (delivery : DeliveryGuarantee) (nowMs : ℕ) : Script host readings Unit := do
  let state ← get
  require (senderSessionId == "coordinator" || state.sessionExists senderSessionId)
    (.error ("unknown_sender_session:" ++ senderSessionId))
  let participants ← ofOption (.error ("unknown_channel:" ++ channelId)) state.channels[channelId]?
  forEach (fun participant =>
    perform (.send senderSessionId participant payload delivery false defaultMessageTtlMs nowMs))
    (participants.filter (· ≠ senderSessionId))

/-- `send_to_role`. -/
def sendToRole (senderSessionId role payload : String) (delivery : DeliveryGuarantee)
    (nowMs : ℕ) : Script host readings Unit := do
  let state ← get
  let recipient ← ofOption (.error ("no_healthy_instances_for_role:" ++ role))
    (discoverServices state role).head?
  perform (.send senderSessionId recipient.sessionId payload delivery false defaultMessageTtlMs
    nowMs)

/-! ## Turns and networks -/

/-- One turn of `execute_turns`; `false` when it fails and ends the run. -/
def executeTurn (sessionId : String) (turn : Json) (nowMs : ℕ) : Script host readings Bool := do
  let raw := if turn.isObject then turn else Json.ofFields [("message", turn)]
  let toolName := ((raw.get? "tool_name").or (raw.get? "tool")).bind Json.asStr
  let recovery := ((raw.get? "recovery").bind Json.asStr).getD "fail_closed"
  let failFirstAttempt := ((raw.get? "fail_first_attempt").bind Json.asBool).getD false
  match (raw.get? "context_patch").or (raw.get? "context") with
  | some patch => perform (.contextUpdate sessionId patch true)
  | none => pure ()
  if failFirstAttempt && recovery != "retry_once" then pure false
  else do
    match toolName with
    | some toolName =>
      invokeRegisteredTool sessionId toolName ((raw.get? "tool_args").getD (.obj [])) nowMs
    | none => pure ()
    pure true

/-- The loop of `execute_turns`. -/
def turnLoop (sessionId : String) (nowMs : ℕ) : List Json → Script host readings Unit
  | [] => pure ()
  | turn :: rest => do
    if ← executeTurn sessionId turn nowMs then turnLoop sessionId nowMs rest

def executeTurns (sessionId : String) (turns : List Json) (nowMs : ℕ) :
    Script host readings Unit := do
  let state ← get
  require (state.sessionExists sessionId) (.error ("unknown_session:" ++ sessionId))
  require (!turns.isEmpty) (.error "turns_required")
  turnLoop sessionId nowMs turns

def nodeOptions (node : Json) : SpawnOptions where
  role := ((node.get? "role").bind Json.asStr).map (cleanText · 80)
  tokenBudget := ((node.get? "token_budget").bind Json.asU64).bind fun n =>
    if n.toNat < 2 ^ 32 then some n.toUInt32 else none

/-- A text field of a network, cleaned; `fallback` when it is missing or blank. -/
def networkText (j : Json) (field : String) (maxLen : ℕ) (fallback : String) : String :=
  ((((j.get? field).bind Json.asStr).map (cleanText · maxLen)).filter (· != "")).getD fallback

/-- The nodes of `create_agent_network`, spawned in turn; the answer is the sessions in
order and those that have a label. -/
def spawnNodes (ownerSessionId : Option String) :
    List Json → Script host readings (List String × List (String × String))
  | [] => pure ([], [])
  | node :: rest => do
    require node.isObject (.error "network_node_object_required")
    let sessionId ← callName (.spawnSingle ownerSessionId
      (networkText node "task" 160 "network-node-task") 8 (nodeOptions node))
    match node.get? "context" with
    | some context => perform (.contextUpdate sessionId context true)
    | none => pure ()
    let label := (((node.get? "label").or (node.get? "agent_label")).bind Json.asStr).map
      (cleanText · 80)
    let (sessions, labels) ← spawnNodes ownerSessionId rest
    -- a later node under the same label takes it over
    pure (sessionId :: sessions, labels ++ (label.map (·, sessionId)).toList)

/-- One edge of `create_agent_network`. -/
def networkEdge (labels : List (String × String)) (networkId : String) (nowMs : ℕ) (edge : Json) :
    Script host readings Unit := do
  require edge.isObject (.error "network_edge_object_required")
  let fromKey ← ofOption (.error "network_edge_from_required") ((edge.get? "from").bind Json.asStr)
  let toKey ← ofOption (.error "network_edge_to_required") ((edge.get? "to").bind Json.asStr)
  if ((edge.get? "auto_handoff").bind Json.asBool).getD true then
    registerHandoff ((labels.lookup fromKey).getD fromKey) ((labels.lookup toKey).getD toKey)
      (((edge.get? "reason").bind Json.asStr).getD "network_edge")
      (some (((edge.get? "importance").bind Json.asF64).getD (1 / 2))) (edge.get? "context")
      (some networkId) nowMs
  else pure ()

/-- `create_agent_network`. -/
def createAgentNetwork (ownerSessionId : Option String) (spec : Json) (nowMs : ℕ) :
    Script host readings Unit := do
  require spec.isObject (.error "network_spec_object_required")
  let name := networkText spec "name" 120 "swarm-network"
  let nodes := ((spec.get? "nodes").bind Json.asArray).getD []
  require (!nodes.isEmpty) (.error "network_nodes_required")
  let networkId := "net-" ++ shortDigest host (Json.ofFields
    [("name", .str name), ("node_count", Json.ofNat nodes.length), ("ts", Json.ofNat nowMs)])
  let (sessions, labels) ← spawnNodes ownerSessionId nodes
  perform (.createChannel (name ++ "-channel") sessions nowMs)
  forEach (networkEdge labels networkId nowMs) (((spec.get? "edges").bind Json.asArray).getD [])

end Script

end Machine

end Protheus.Swarm
