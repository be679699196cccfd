import Protheus.Swarm.State

/-!
The operations of `swarm_runtime.rs` on sessions and their budgets: reservation and
settlement, check-ins, the two spawns, ticks, wake, terminate, resume, context
updates and the recovery after a reload.

Each is a function from a state to an answer and a state; an operation that fails
keeps what it had done, as the command that made it saves the state all the same.
-/

namespace Protheus.Swarm

open Std (ExtTreeMap)
open RustStd (u32Max u64Max addUpTo)

/-- Why a command stops: with the text of its error, or not at all, in a loop that
goes on looking for an identifier. -/
inductive Stop where
  | error (text : String)
  | unending
  deriving DecidableEq

/-! ## Reservation and settlement -/

/-- What `reserve_budget_from_parent` answers. -/
structure BudgetReservation where
  effectiveBudget : Option ℕ
  budgetParentSessionId : Option String := none
  budgetReservationTokens : ℕ := 0

def reserveBudgetFromParent (state : SwarmState) (parentId : Option String) (childId : String)
    (requestedBudget : Option ℕ) : Except String BudgetReservation × SwarmState :=
  match parentId with
  | none => (.ok { effectiveBudget := requestedBudget }, state)
  | some parentId =>
    match state.sessions[parentId]? with
    | none => (.error ("parent_session_missing:" ++ parentId), state)
    | some parent =>
      match parent.budgetTelemetry with
      | none => (.ok { effectiveBudget := requestedBudget }, state)
      | some telemetry =>
        let remaining := telemetry.remainingTokens
        let childBudget := requestedBudget.getD remaining
        if remaining = 0 then
          (.error ("parent_token_budget_exceeded:parent=" ++ parentId ++ ":remaining=0"), state)
        else if childBudget > remaining then
          (.error ("parent_token_budget_exceeded:parent=" ++ parentId ++ ":requested=" ++
            toString childBudget ++ ":remaining=" ++ toString remaining), state)
        else
          (.ok { effectiveBudget := some childBudget
                 budgetParentSessionId := some parentId
                 budgetReservationTokens := childBudget },
            state.modifySession parentId fun session =>
              { session with
                budgetTelemetry :=
                  session.budgetTelemetry.map (·.reserveChild childId childBudget) })

/-- What a parent reserves for a child that asks for a budget, or for all that is left. -/
def BudgetTelemetry.reservable (t : BudgetTelemetry) (requestedBudget : Option ℕ) : Option ℕ :=
  let childBudget := requestedBudget.getD t.remainingTokens
  if t.remainingTokens = 0 ∨ t.remainingTokens < childBudget then none else some childBudget

/-- What came of a reservation: nothing to reserve from, or an entry of the parent's. -/
inductive ReserveCase (state : SwarmState) (parentId : Option String) (childId : String)
    (requestedBudget : Option ℕ) : Except String BudgetReservation → SwarmState → Prop where
  | refused (text : String) : ReserveCase state parentId childId requestedBudget (.error text) state
  | unbudgeted (h : parentId.bind state.budget = none) :
      ReserveCase state parentId childId requestedBudget
        (.ok { effectiveBudget := requestedBudget }) state
  | reserved (parentId' : String) (parent : SessionMetadata) (t : BudgetTelemetry) (n : ℕ)
      (hid : parentId = some parentId') (hparent : state.sessions[parentId']? = some parent)
      (ht : parent.budgetTelemetry = some t) (hn : t.reservable requestedBudget = some n) :
      ReserveCase state parentId childId requestedBudget
        (.ok { effectiveBudget := some n
               budgetParentSessionId := some parentId'
               budgetReservationTokens := n })
        (state.modifySession parentId' fun session => { session with
          budgetTelemetry := session.budgetTelemetry.map (·.reserveChild childId n) })

theorem reserve_cases (state : SwarmState) (parentId : Option String) (childId : String)
    (requestedBudget : Option ℕ) : ReserveCase state parentId childId requestedBudget
      (reserveBudgetFromParent state parentId childId requestedBudget).1
      (reserveBudgetFromParent state parentId childId requestedBudget).2 := by
  unfold reserveBudgetFromParent
  cases parentId with
  | none => exact .unbudgeted rfl
  | some parentId =>
    dsimp only
    cases hparent : state.sessions[parentId]? with
    | none => exact .refused _
    | some parent =>
      dsimp only
      cases ht : parent.budgetTelemetry with
      | none => exact .unbudgeted (by simp [SwarmState.budget, hparent, ht])
      | some t =>
        dsimp only
        by_cases hzero : t.remainingTokens = 0
        · rw [if_pos hzero]
          exact .refused _
        · rw [if_neg hzero]
          by_cases hmore : t.remainingTokens < requestedBudget.getD t.remainingTokens
          · rw [if_pos hmore]
            exact .refused _
          · rw [if_neg hmore]
            exact .reserved parentId parent t _ rfl hparent ht
              (by simp [BudgetTelemetry.reservable, hzero, hmore])

def settleBudgetReservation (state : SwarmState) (sessionId : String) : SwarmState :=
  match state.sessions[sessionId]? with
  | none => state
  | some session =>
    if session.budgetReservationSettled || session.budgetReservationTokens == 0 then state
    else
      match session.budgetParentSessionId with
      | none => state
      | some parentId =>
        let childUsage := (session.budgetTelemetry.map (·.finalUsage)).getD 0
        let charged := state.modifySession parentId fun parent =>
          { parent with
            budgetTelemetry := parent.budgetTelemetry.map
              (·.settleChild sessionId session.budgetReservationTokens childUsage) }
        charged.modifySession sessionId fun session =>
          { session with budgetReservationSettled := true }

/-! ## Check-ins -/

def checkInPlan (session : SessionMetadata) : List (String × ℕ) :=
  estimateToolPlan (session.scaledTask.getD session.task)
    (session.budgetTelemetry.map (·.budgetConfig.maxTokens))

def applyToolPlanForSession (session : SessionMetadata) (toolPlan : List (String × ℕ)) :
    Except String (Option String) × SessionMetadata :=
  match session.budgetTelemetry with
  | none => (.ok none, session)
  | some telemetry =>
    match telemetry.recordPlan toolPlan none with
    | (telemetry', .ok action) => (.ok action, { session with budgetTelemetry := some telemetry' })
    | (telemetry', .error reason) =>
      (.error reason, { session with budgetTelemetry := some telemetry', status := .failed })

def performPersistentCheckIn (session : SessionMetadata) :
    Except String Unit × SessionMetadata :=
  match applyToolPlanForSession session (checkInPlan session) with
  | (.error reason, charged) => (.error reason, charged)
  | (.ok action, charged) =>
    let charged := { charged with budgetActionTaken := action.or charged.budgetActionTaken }
    match charged.persistent with
    | none => (.error "persistent_runtime_missing", charged)
    | some runtime =>
      (.ok (), { charged with
        persistent := some { runtime with checkInCount := addUpTo u64Max runtime.checkInCount 1 } })

/-- The time of the next check-in of a runtime after one at `nowMs`. -/
def PersistentRuntime.nextAfter (runtime : PersistentRuntime) (nowMs : ℕ) : ℕ :=
  addUpTo u64Max nowMs (min (runtime.config.checkInIntervalSec * 1000) u64Max)

/-- `runtime.next_check_in_ms = ...` after a check-in. -/
def SessionMetadata.reschedule (session : SessionMetadata) (nowMs : ℕ) : SessionMetadata :=
  { session with
    persistent := session.persistent.map fun runtime =>
      { runtime with nextCheckInMs := runtime.nextAfter nowMs } }

/-- The end of a persistent session: its status, and when it ended. -/
def SessionMetadata.finish (session : SessionMetadata) (status : SessionStatus) (nowMs : ℕ) :
    SessionMetadata :=
  { session with
    status
    persistent := session.persistent.map fun runtime =>
      { runtime with terminatedAtMs := some nowMs } }

/-- What `tick_persistent_sessions` finds due for a session: nothing, an interval
check-in, or (`true`) the last one. -/
def tickDue (state : SwarmState) (nowMs : ℕ) (sessionId : String) : Option Bool :=
  match state.sessions[sessionId]?.bind (·.persistent) with
  | none => none
  | some runtime =>
    if runtime.deadlineMs ≤ nowMs then some true
    else if runtime.nextCheckInMs ≤ nowMs then some false
    else none

/-- One round of the inner loop of `tick_persistent_sessions`. -/
def tickRound (state : SwarmState) (nowMs : ℕ) (sessionId : String) :
    Except Stop String × SwarmState :=
  match state.sessions[sessionId]?, tickDue state nowMs sessionId with
  | some session, some finalize =>
    match performPersistentCheckIn session with
    | (.error reason, charged) => (.error (.error reason), state.insertSession sessionId charged)
    | (.ok (), charged) =>
      if finalize then
        let finished := state.insertSession sessionId (charged.finish .completed nowMs)
        (.ok sessionId,
          settleBudgetReservation (markServiceInstanceUnhealthy finished sessionId) sessionId)
      else (.ok sessionId, state.insertSession sessionId (charged.reschedule nowMs))
  | _, _ => (.ok sessionId, state)

def sessionsWake (state : SwarmState) (sessionId : String) (nowMs : ℕ) :
    Except Stop String × SwarmState :=
  match state.sessions[sessionId]? with
  | none => (.error (.error ("unknown_session:" ++ sessionId)), state)
  | some session =>
    if session.persistent.isNone then
      (.error (.error ("session_not_persistent:" ++ sessionId)), state)
    else if !session.status.isActive then
      (.error (.error ("session_not_active:" ++ sessionId)), state)
    else
      match performPersistentCheckIn session with
      | (.error reason, charged) => (.error (.error reason), state.insertSession sessionId charged)
      | (.ok (), charged) => (.ok sessionId, state.insertSession sessionId (charged.reschedule nowMs))

/-- The last step of `sessions_terminate`. -/
def endSession (state : SwarmState) (sessionId : String) (session : SessionMetadata)
    (status : SessionStatus) (nowMs : ℕ) : SwarmState :=
  settleBudgetReservation
    (markServiceInstanceUnhealthy
      (state.insertSession sessionId (session.finish status nowMs)) sessionId) sessionId

def sessionsTerminate (state : SwarmState) (sessionId : String) (graceful : Bool) (nowMs : ℕ) :
    Except Stop String × SwarmState :=
  match state.sessions[sessionId]? with
  | none => (.error (.error ("unknown_session:" ++ sessionId)), state)
  | some session =>
    if session.persistent.isNone then
      (.error (.error ("session_not_persistent:" ++ sessionId)), state)
    else if graceful then
      match performPersistentCheckIn session with
      | (.error reason, charged) => (.error (.error reason), state.insertSession sessionId charged)
      | (.ok (), charged) =>
        (.ok sessionId, endSession state sessionId charged .terminatedGraceful nowMs)
    else (.ok sessionId, endSession state sessionId session .terminated nowMs)

/-- What `sessions_resume` does to a session that has the runtime. -/
def resumeSession (nowMs : ℕ) (runtime : PersistentRuntime) (session : SessionMetadata) :
    SessionMetadata :=
  if runtime.terminatedAtMs.isSome then { session with reachable := true }
  else
    { session with
      reachable := true
      status := if session.backgroundWorker then .backgroundRunning else .persistentRunning
      persistent := some { runtime with nextCheckInMs := runtime.nextAfter nowMs } }

def sessionsResume (state : SwarmState) (sessionId : String) (nowMs : ℕ) :
    Except Stop String × SwarmState :=
  match state.sessions[sessionId]? with
  | none => (.error (.error ("unknown_session:" ++ sessionId)), state)
  | some session =>
    match session.persistent with
    | none => (.error (.error ("session_not_persistent:" ++ sessionId)), state)
    | some runtime =>
      (.ok sessionId, state.insertSession sessionId (resumeSession nowMs runtime session))

/-- One session under `recover_persistent_sessions_after_reload`. -/
def recoverSession (nowMs : ℕ) (session : SessionMetadata) : SessionMetadata :=
  match session.persistent with
  | none => session
  | some runtime =>
    if runtime.terminatedAtMs.isSome then session
    else if !session.status.isRunning then session
    else
      { session with
        reachable := true
        persistent := some { runtime with nextCheckInMs := max runtime.nextCheckInMs nowMs } }

def recoverPersistentSessionsAfterReload (state : SwarmState) (nowMs : ℕ) : SwarmState :=
  { state with sessions := state.sessions.map fun _ session => recoverSession nowMs session }

def persistentSessionIds (state : SwarmState) : List String :=
  (state.sessions.toList.filter fun entry =>
    entry.2.persistent.isSome && entry.2.status.isActive).map Prod.fst

/-! ## Spawns -/

inductive ExecutionMode where
  | taskOriented
  | persistent (cfg : PersistentAgentConfig)
  | background (cfg : PersistentAgentConfig)

/-- `SpawnOptions`.  Thresholds and confidences are floats; `none` is a NaN. -/
structure SpawnOptions where
  verify : Bool := false
  simulateUnreachable : Bool := false
  byzantine : Bool := false
  tokenBudget : Option UInt32 := none
  tokenWarningThreshold : Option ℚ := some (13421773 / 16777216)
  budgetExhaustionAction : BudgetAction := .failHard
  adaptiveComplexity : Bool := false
  executionMode : ExecutionMode := .taskOriented
  role : Option String := none
  autoPublishResults : Bool := false
  resultConfidence : Option ℚ := some 1

/-- The depth of a new session, if it may be spawned at all. -/
def spawnDepth (state : SwarmState) (parentId : Option String) (maxDepth : ℕ) : Except String ℕ :=
  let bounded (depth : ℕ) : Except String ℕ :=
    if maxDepth ≤ depth then
      .error ("max_depth_exceeded:" ++ toString depth ++ ">=max_depth:" ++ toString maxDepth)
    else .ok depth
  match parentId with
  | none => bounded 0
  | some parent =>
    match state.sessions[parent]? with
    | none => .error ("parent_session_missing:" ++ parent)
    | some session => bounded (addUpTo 255 session.depth 1)

/-- The text a spawned session works on. -/
def spawnTask (options : SpawnOptions) (task : String) (effectiveBudget : Option ℕ) : String :=
  match options.adaptiveComplexity, effectiveBudget with
  | true, some budget => scaleTaskComplexity task budget
  | _, _ => task

def spawnTelemetry (options : SpawnOptions) (effectiveBudget : Option ℕ) :
    Option BudgetTelemetry :=
  effectiveBudget.map fun maxTokens => .new
    { maxTokens
      warningThreshold := options.tokenWarningThreshold
      exhaustionAction := options.budgetExhaustionAction }

def spawnMetadata (parentId : Option String) (task : String) (depth : ℕ) (options : SpawnOptions)
    (reservation : BudgetReservation) : SessionMetadata where
  parentId
  depth
  task
  status := .running
  reachable := true
  budgetTelemetry := spawnTelemetry options reservation.effectiveBudget
  scaledTask := some (spawnTask options task reservation.effectiveBudget)
  role := options.role
  budgetParentSessionId := reservation.budgetParentSessionId
  budgetReservationTokens := reservation.budgetReservationTokens

/-- The metadata `spawn_persistent_session` builds, before the first check-in. -/
def persistentMetadata (parentId : Option String) (task : String) (depth : ℕ)
    (options : SpawnOptions) (cfg : PersistentAgentConfig) (backgroundWorker : Bool) (nowMs : ℕ)
    (reservation : BudgetReservation) : SessionMetadata :=
  { spawnMetadata parentId task depth options reservation with
    status := if backgroundWorker then .backgroundRunning else .persistentRunning
    persistent := some
      { config := cfg
        deadlineMs := addUpTo u64Max nowMs (min (cfg.lifespanSec * 1000) u64Max)
        nextCheckInMs := addUpTo u64Max nowMs (min (cfg.checkInIntervalSec * 1000) u64Max) }
    backgroundWorker }

def spawnPersistentSession (host : Host) (readings : List ℕ) (state : SwarmState)
    (parentId : Option String) (task : String) (maxDepth : ℕ) (options : SpawnOptions)
    (cfg : PersistentAgentConfig) (backgroundWorker : Bool) (nowMs : ℕ) :
    Except Stop String × SwarmState :=
  match spawnDepth state parentId maxDepth with
  | .error text => (.error (.error text), state)
  | .ok depth =>
    match nextSessionId host readings state task depth with
    | none => (.error .unending, state)
    | some sessionId =>
      match reserveBudgetFromParent state parentId sessionId
          (options.tokenBudget.map (·.toNat)) with
      | (.error text, reserved) => (.error (.error text), reserved)
      | (.ok reservation, reserved) =>
        match performPersistentCheckIn
            (persistentMetadata parentId task depth options cfg backgroundWorker nowMs
              reservation) with
        -- the new session is dropped, what was reserved for it is not
        | (.error text, _) => (.error (.error text), reserved)
        | (.ok (), metadata) =>
          (.ok sessionId,
            registerServiceInstance ((reserved.insertSession sessionId metadata).addChild parentId
              sessionId) sessionId options.role)

/-- The metadata `spawn_single` builds, before its plan is recorded. -/
def taskMetadata (parentId : Option String) (task : String) (depth : ℕ) (options : SpawnOptions)
    (reservation : BudgetReservation) : SessionMetadata :=
  { spawnMetadata parentId task depth options reservation with byzantine := options.byzantine }

/-- The plan `spawn_single` records. -/
def taskPlan (options : SpawnOptions) (task : String) (reservation : BudgetReservation) :
    List (String × ℕ) :=
  estimateToolPlan (spawnTask options task reservation.effectiveBudget) reservation.effectiveBudget

/-- A spawned session is stored, registered, counted with its parent's children and settled. -/
def storeSpawned (state : SwarmState) (parentId : Option String) (sessionId : String)
    (role : Option String) (spawned : SessionMetadata) : SwarmState :=
  let registered := registerServiceInstance (state.insertSession sessionId spawned) sessionId role
  settleBudgetReservation (registered.addChild parentId sessionId) sessionId

def spawnSingle (host : Host) (readings : List ℕ) (state : SwarmState) (parentId : Option String)
    (task : String) (maxDepth : ℕ) (options : SpawnOptions) : Except Stop String × SwarmState :=
  match spawnDepth state parentId maxDepth with
  | .error text => (.error (.error text), state)
  | .ok depth =>
    if options.byzantine && !state.byzantineTestMode then
      (.error (.error "byzantine_test_mode_required"), state)
    else
      match nextSessionId host readings state task depth with
      | none => (.error .unending, state)
      | some sessionId =>
        match reserveBudgetFromParent state parentId sessionId
            (options.tokenBudget.map (·.toNat)) with
        | (.error text, reserved) => (.error (.error text), reserved)
        | (.ok reservation, reserved) =>
          match applyToolPlanForSession (taskMetadata parentId task depth options reservation)
              (taskPlan options task reservation) with
          | (.error text, charged) =>
            let failed := { charged with reachable := false, budgetActionTaken := some "fail" }
            (.error (.error text),
              settleBudgetReservation (reserved.insertSession sessionId failed) sessionId)
          | (.ok action, charged) =>
            let spawned := { charged with
              reachable := !options.simulateUnreachable
              budgetActionTaken := action }
            let settled := storeSpawned reserved parentId sessionId options.role spawned
            if options.verify && options.simulateUnreachable then
              (.error (.error ("session_unreachable_timeout:" ++ sessionId)),
                settled.modifySession sessionId fun session => { session with status := .failed })
            -- `publish_result` fails for a session that is there on its confidence alone
            else if options.autoPublishResults && !inUnitRange options.resultConfidence then
              (.error (.error ("invalid_confidence:" ++ host.display options.resultConfidence)),
                settled)
            else (.ok sessionId, settled)

/-! ## Context -/

mutual

/-- `compact_context_value`. -/
def compactContextValue : Json → Json
  | .str text => .str (cleanText text 160)
  | .arr rows => .arr ((compactItems rows).take 8)
  | .obj fields => .obj (Json.insertFields (compactFields fields |>.take 12) [])
  | other => other

def compactItems : List Json → List Json
  | [] => []
  | row :: rest => compactContextValue row :: compactItems rest

def compactFields : List (String × Json) → List (String × Json)
  | [] => []
  | (key, value) :: rest => (cleanText key 64, compactContextValue value) :: compactFields rest

end

def normalizeContextMap : Json → List (String × Json)
  | .obj fields => fields
  | other => [("value", other)]

def jsonSizeBytes (host : Host) (value : Json) : ℕ := (value.render host.printFloat).utf8ByteSize

/-- The context an update applies, compacted when it is larger than the budget's
remaining tokens allow, and whether it was. -/
def effectiveContext (host : Host) (session : SessionMetadata) (context : Json) : Json × Bool :=
  let normalized := Json.obj (normalizeContextMap context)
  let maxBytes := match session.budgetTelemetry with
    | some telemetry => min (max ((max telemetry.remainingTokens 16) * 24) 256) 4096
    | none => 2048
  if jsonSizeBytes host normalized > maxBytes then (compactContextValue normalized, true)
  else (normalized, false)

/-- The tokens an update asks for: one for each started 32 bytes, at least one. -/
def contextTokens (host : Host) (effective : Json) : ℕ :=
  max (min ((jsonSizeBytes host effective + 31) / 32) u32Max) 1

/-- The part of `apply_context_update` after the charge. -/
def SessionMetadata.putContext (session : SessionMetadata) (effective : Json) (degraded merge : Bool) :
    SessionMetadata :=
  { session with
    contextVars := (normalizeContextMap effective).foldl
      (fun vars entry => vars.insert (cleanText entry.1 64) entry.2)
      (if merge then session.contextVars else ∅)
    contextMode := some (if degraded then "context_compacted" else "full") }

/-- `apply_context_update`. -/
def contextUpdate (host : Host) (session : SessionMetadata) (context : Json) (merge : Bool) :
    Except String Unit × SessionMetadata :=
  let (effective, degraded) := effectiveContext host session context
  match session.budgetTelemetry with
  | none => (.ok (), session.putContext effective degraded merge)
  | some telemetry =>
    match telemetry.recordToolUsage "context_propagation" (contextTokens host effective) with
    | (telemetry', .exceededDenied reason) =>
      (.error reason, { session with budgetTelemetry := some telemetry' })
    | (telemetry', .exhaustedAllowed action) =>
      (.ok (), { session with
        budgetTelemetry := some telemetry'
        budgetActionTaken := some action }.putContext effective degraded merge)
    | (telemetry', _) =>
      (.ok (), { session with budgetTelemetry := some telemetry' }.putContext effective degraded merge)

/-- `apply_context_update` on a session of the state. -/
def applyContextUpdate (host : Host) (state : SwarmState) (sessionId : String) (context : Json)
    (merge : Bool) : Except Stop String × SwarmState :=
  match state.sessions[sessionId]? with
  | none => (.error (.error ("unknown_session:" ++ sessionId)), state)
  | some session =>
    match contextUpdate host session context merge with
    | (.error reason, updated) => (.error (.error reason), state.insertSession sessionId updated)
    | (.ok (), updated) => (.ok sessionId, state.insertSession sessionId updated)

end Protheus.Swarm
