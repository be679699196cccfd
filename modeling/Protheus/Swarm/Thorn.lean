import Protheus.Swarm.Messages

/-!
The thorn cells of `swarm_runtime.rs`: a session is quarantined behind a cell until
the cell is released or expires.  `force_shutdown`, which takes every session down,
is here too.
-/

namespace Protheus.Swarm

open Std (ExtTreeMap)
open RustStd (u64Max addUpTo)

/-- A tenth of the sessions, rounded up, at least one. -/
def thornCellLimit (state : SwarmState) : ℕ := max ((max state.sessions.size 1 + 9) / 10) 1

def activeThornCellIds (state : SwarmState) : List String :=
  (state.sessions.toList.filter fun entry =>
    entry.2.thornCell && entry.2.status == .thornActive).map Prod.fst

/-- Whether a session is an active thorn cell for the target. -/
def SessionMetadata.isThornFor (session : SessionMetadata) (targetId : String) : Bool :=
  session.thornCell && session.status == .thornActive &&
    session.thornTargetSessionId == some targetId

/-- The object `restore_quarantined_target` leaves in the context. -/
def releaseNote (reason : String) (nowMs : ℕ) : Json :=
  Json.ofFields [("released_at_ms", Json.ofNat nowMs), ("reason", .str reason)]

/-- The target, as `restore_quarantined_target` leaves it. -/
def restoreSession (reason : String) (nowMs : ℕ) (target : SessionMetadata) : SessionMetadata :=
  { target with
    reachable := true
    status := target.quarantinePreviousStatus.getD .running
    quarantinePreviousStatus := none
    contextVars := target.contextVars.insert "thorn_release" (releaseNote reason nowMs) }

def restoreQuarantinedTarget (state : SwarmState) (targetId reason : String) (nowMs : ℕ) :
    SwarmState :=
  setServiceHealth (state.modifySession targetId (restoreSession reason nowMs)) targetId true

/-- A thorn cell that is released. -/
def destroySession (nowMs : ℕ) (thorn : SessionMetadata) : SessionMetadata :=
  { thorn with
    status := .thornDestroyed
    reachable := false
    thornExpiresAtMs := some nowMs }

/-- One round of the loop of `release_thorn_cells_for_target`. -/
def destroyThorn (nowMs : ℕ) (state : SwarmState) (thornId : String) : SwarmState :=
  setServiceHealth (state.modifySession thornId (destroySession nowMs)) thornId false

def thornIdsFor (state : SwarmState) (targetId : String) : List String :=
  (state.sessions.toList.filter fun entry => entry.2.isThornFor targetId).map Prod.fst

def releaseThornCellsForTarget (state : SwarmState) (targetId reason : String) (nowMs : ℕ) :
    Except Stop Unit × SwarmState :=
  let thornIds := thornIdsFor state targetId
  if thornIds.isEmpty then
    (.error (.error ("no_active_thorn_cell_for_target:" ++ targetId)), state)
  else
    (.ok (), restoreQuarantinedTarget (thornIds.foldl (destroyThorn nowMs) state) targetId reason
      nowMs)

/-- The object `quarantine_into_thorn` leaves in the target's context. -/
def quarantineNote (thornId reason anomalyType : String) (nowMs : ℕ) : Json :=
  Json.ofFields [("thorn_session_id", .str thornId), ("reason", .str reason),
    ("anomaly_type", .str anomalyType), ("quarantined_at_ms", Json.ofNat nowMs)]

/-- The capabilities a thorn cell is left with. -/
def restrictedCapabilities : Json :=
  Json.ofFields [("outbound_network", .bool false), ("tool_execution", .bool false),
    ("memory_access", .str "limited")]

/-- `thorn_replacement_sessions`. -/
def thornReplacementSessions (state : SwarmState) (targetId : String) (role : Option String) :
    List String :=
  match role with
  | none => []
  | some role =>
    ((state.serviceRegistry[role]?.getD []).filter fun row =>
      row.sessionId != targetId && row.healthy &&
        match state.sessions[row.sessionId]? with
        | some session => session.reachable && !session.thornCell
        | none => false).map (·.sessionId)

/-- The thorn cell for a target. -/
def thornMetadata (state : SwarmState) (targetId : String) (target : SessionMetadata)
    (anomalyType reason : String) (nowMs : ℕ) : SessionMetadata where
  parentId := some targetId
  depth := addUpTo 255 target.depth 1
  task := "thorn quarantine for " ++ targetId
  status := .thornActive
  reachable := true
  role := some "thorn_cell"
  contextVars := ExtTreeMap.ofList
    [("restricted_capabilities", restrictedCapabilities), ("anomaly_type", .str anomalyType),
      ("reason", .str reason),
      ("replacement_sessions",
        .arr ((thornReplacementSessions state targetId target.role).map .str))]
  contextMode := some "thorn_quarantine"
  thornCell := true
  thornTargetSessionId := some targetId
  thornExpiresAtMs := some (addUpTo u64Max nowMs 60000)

/-- A session behind a thorn cell. -/
def quarantineSession (thornId reason anomalyType : String) (nowMs : ℕ) (target : SessionMetadata) :
    SessionMetadata :=
  { target with
    reachable := false
    quarantinePreviousStatus := some target.status
    status := .quarantinedThorn
    contextVars := target.contextVars.insert "thorn_quarantine"
      (quarantineNote thornId reason anomalyType nowMs) }

/-- A thorn cell is stored, with an empty mailbox, and registered. -/
def openThorn (state : SwarmState) (thornId : String) (thorn : SessionMetadata) : SwarmState :=
  let opened := state.insertSession thornId thorn
  registerServiceInstance { opened with mailboxes := opened.mailboxes.insert thornId {} } thornId
    (some "thorn_cell")

def quarantineIntoThorn (host : Host) (readings : List ℕ) (state : SwarmState)
    (targetId anomalyType reason : String) (nowMs : ℕ) : Except Stop String × SwarmState :=
  let cap := thornCellLimit state
  let active := (activeThornCellIds state).length
  if cap ≤ active then
    (.error (.error ("thorn_capacity_exceeded:active=" ++ toString active ++ ":cap=" ++
      toString cap)), state)
  else
    match state.sessions[targetId]? with
    | none => (.error (.error ("unknown_session:" ++ targetId)), state)
    | some target =>
      if target.thornCell then (.error (.error ("target_is_thorn_cell:" ++ targetId)), state)
      else if target.status == .quarantinedThorn then
        (.error (.error ("session_already_quarantined:" ++ targetId)), state)
      else
        match nextSessionId host readings state ("thorn:" ++ targetId)
            (addUpTo 255 target.depth 1) with
        | none => (.error .unending, state)
        | some thornId =>
          let quarantined := quarantineSession thornId reason anomalyType nowMs target
          let isolated := setServiceHealth (state.insertSession targetId quarantined) targetId false
          (.ok thornId,
            openThorn isolated thornId
              (thornMetadata state targetId target anomalyType reason nowMs))

def expiredThornTargets (state : SwarmState) (nowMs : ℕ) : List String :=
  (state.sessions.toList.filter fun entry =>
    entry.2.thornCell && entry.2.status == .thornActive &&
      (entry.2.thornExpiresAtMs.map (decide <| · ≤ nowMs)).getD false).filterMap
    fun entry => entry.2.thornTargetSessionId

/-- A session after `force_shutdown`. -/
def shutDownSession (session : SessionMetadata) : SessionMetadata :=
  { session with reachable := false, status := .shutdownT0 }

/-- What `force_shutdown` does to the state. -/
def forceShutdown (state : SwarmState) : SwarmState :=
  { state with
    sessions := state.sessions.map fun _ session => shutDownSession session
    serviceRegistry := state.serviceRegistry.map fun _ rows =>
      rows.map fun row => { row with healthy := false } }

end Protheus.Swarm
