import Protheus.Json
import Protheus.Swarm.Budget

/-!
The state of `swarm_runtime.rs`: sessions, mailboxes, services and tools, and the
small functions that read and edit it.

What no operation of the model reads is left out: receipts, event rows, check-in
reports, metrics, result and stream registries.  The clock and the digest come
from outside: an operation gets the time it reads, and the loops that look for a
fresh identifier get the readings of their rounds.
-/

namespace Protheus.Swarm

open Std (ExtTreeMap)
open RustStd (u32Max u64Max addUpTo)

/-- What the process gets from outside and does not change: the receipt hash, and how
a float is printed in JSON and in an error text. -/
structure Host where
  digest : Json → String
  printFloat : ℚ → String
  displayFloat : ℚ → String

/-- An `f64`, which may be a NaN, in an error text. -/
def Host.display (host : Host) : Option ℚ → String
  | none => "NaN"
  | some q => host.displayFloat q

/-- `(0.0..=1.0).contains`. -/
def inUnitRange : Option ℚ → Bool
  | none => false
  | some q => 0 ≤ q && q ≤ 1

/-- The values of `SessionMetadata::status`. -/
inductive SessionStatus where
  | running
  | failed
  | completed
  | persistentRunning
  | backgroundRunning
  | terminated
  | terminatedGraceful
  | quarantinedThorn
  | thornActive
  | thornDestroyed
  | shutdownT0
  deriving DecidableEq, Repr

structure PersistentAgentConfig where
  lifespanSec : ℕ
  checkInIntervalSec : ℕ
  deriving DecidableEq

structure PersistentRuntime where
  config : PersistentAgentConfig
  deadlineMs : ℕ
  nextCheckInMs : ℕ
  checkInCount : ℕ := 0
  terminatedAtMs : Option ℕ := none
  deriving DecidableEq

structure SessionMetadata where
  parentId : Option String
  children : List String := []
  depth : ℕ
  task : String
  status : SessionStatus
  reachable : Bool
  byzantine : Bool := false
  budgetTelemetry : Option BudgetTelemetry := none
  scaledTask : Option String := none
  budgetActionTaken : Option String := none
  role : Option String := none
  contextVars : ExtTreeMap String Json := ∅
  contextMode : Option String := none
  persistent : Option PersistentRuntime := none
  backgroundWorker : Bool := false
  budgetParentSessionId : Option String := none
  budgetReservationTokens : ℕ := 0
  budgetReservationSettled : Bool := false
  thornCell : Bool := false
  thornTargetSessionId : Option String := none
  thornExpiresAtMs : Option ℕ := none
  quarantinePreviousStatus : Option SessionStatus := none

inductive DeliveryGuarantee where
  | atMostOnce
  | atLeastOnce
  | exactlyOnce
  deriving DecidableEq, Repr

def DeliveryGuarantee.asLabel : DeliveryGuarantee → String
  | .atMostOnce => "at_most_once"
  | .atLeastOnce => "at_least_once"
  | .exactlyOnce => "exactly_once"

structure AgentMessage where
  messageId : String
  senderSessionId : String
  recipientSessionId : String
  payload : String
  delivery : DeliveryGuarantee
  attempts : ℕ
  acknowledged : Bool := false
  ackedAtMs : Option ℕ := none
  dedupeKey : Option String
  ttlMs : ℕ
  expiresAtMs : ℕ
  deferred : Bool
  deriving DecidableEq, Repr

structure SessionMailbox where
  unread : List AgentMessage := []
  read : List AgentMessage := []
  deriving DecidableEq

structure DeadLetterMessage where
  message : AgentMessage
  reason : String
  retryable : Bool
  deriving DecidableEq

structure ServiceInstance where
  sessionId : String
  healthy : Bool
  deriving DecidableEq

/-- A row of the tool registry. -/
structure ToolManifest where
  entrypoint : String
  bridgePath : String
  invocationCount : ℕ := 0

structure ScheduledTask where
  task : String
  intervalSec : ℕ
  nextRunMs : ℕ
  remainingRuns : ℕ
  lastSessionId : Option String := none
  active : Bool := true

structure SwarmState where
  byzantineTestMode : Bool := false
  sessions : ExtTreeMap String SessionMetadata := ∅
  mailboxes : ExtTreeMap String SessionMailbox := ∅
  /-- The participants of each channel. -/
  channels : ExtTreeMap String (List String) := ∅
  serviceRegistry : ExtTreeMap String (List ServiceInstance) := ∅
  toolRegistry : ExtTreeMap String ToolManifest := ∅
  exactlyOnceDedupe : ExtTreeMap String String := ∅
  deadLetters : List DeadLetterMessage := []
  scheduledTasks : ExtTreeMap String ScheduledTask := ∅

/-! ## Texts -/

def cleanText (raw : String) (maxLen : ℕ) : String :=
  String.ofList ((RustStd.trim raw).toList.take maxLen)

/-- The first twelve characters of a digest. -/
def shortDigest (host : Host) (seed : Json) : String :=
  String.ofList ((host.digest seed).toList.take 12)

/-- One step of the loop of `safe_registry_slug`. -/
def slugChar (out : List Char) (ch : Char) : List Char :=
  if ch.isAlphanum then out ++ [ch.toLower]
  else if ch == '-' || ch == '_' || ch == '.' || ch == ':' then out ++ [ch]
  else if RustStd.isWhitespace ch && out.getLast? != some '_' then out ++ ['_']
  else out

def safeRegistrySlug (raw : String) (maxLen : ℕ) : String :=
  let slug := (RustStd.trim raw).toList.foldl
    (fun out ch => if maxLen ≤ out.length then out else slugChar out ch) []
  String.ofList ((slug.dropWhile (· == '_')).reverse.dropWhile (· == '_')).reverse

/-! ## Sessions -/

namespace SwarmState

/-- `sessions.get_mut`, when the session is there. -/
def modifySession (state : SwarmState) (sessionId : String)
    (f : SessionMetadata → SessionMetadata) : SwarmState :=
  { state with sessions := state.sessions.modify sessionId f }

def insertSession (state : SwarmState) (sessionId : String) (session : SessionMetadata) :
    SwarmState :=
  { state with sessions := state.sessions.insert sessionId session }

def sessionExists (state : SwarmState) (sessionId : String) : Bool :=
  state.sessions.contains sessionId

/-- `parent_session.children.push`, unless the child is there already. -/
def addChild (state : SwarmState) (parentId : Option String) (sessionId : String) : SwarmState :=
  match parentId with
  | none => state
  | some parent => state.modifySession parent fun session =>
      if session.children.contains sessionId then session
      else { session with children := session.children ++ [sessionId] }

def budget (state : SwarmState) (sessionId : String) : Option BudgetTelemetry :=
  state.sessions[sessionId]?.bind (·.budgetTelemetry)

theorem getElem?_insertSession (state : SwarmState) (sessionId : String) (session : SessionMetadata)
    (x : String) : (state.insertSession sessionId session).sessions[x]? =
      if x = sessionId then some session else state.sessions[x]? := by
  rw [insertSession, ExtTreeMap.getElem?_insert]
  by_cases h : x = sessionId
  · simp [h]
  · simp [h, Ne.symm h]

theorem getElem?_modifySession (state : SwarmState) (sessionId : String)
    (f : SessionMetadata → SessionMetadata) (x : String) :
    (state.modifySession sessionId f).sessions[x]? =
      if x = sessionId then state.sessions[x]?.map f else state.sessions[x]? := by
  rw [modifySession, ExtTreeMap.getElem?_modify]
  by_cases h : x = sessionId
  · simp [h]
  · simp [h, Ne.symm h]

end SwarmState

/-- `matches!(status, "persistent_running" | "background_running")`. -/
def SessionStatus.isActive : SessionStatus → Bool
  | .persistentRunning | .backgroundRunning => true
  | _ => false

/-- `matches!(status, "persistent_running" | "background_running" | "running")`. -/
def SessionStatus.isRunning : SessionStatus → Bool
  | .persistentRunning | .backgroundRunning | .running => true
  | _ => false

/-- The identifiers `next_session_id` tries: one for each round of its loop, from the
round's clock reading and salt. -/
def sessionIdCandidates (host : Host) (readings : List ℕ) (task : String) (depth : ℕ) :
    List String :=
  readings.zipIdx.map fun (ts, salt) =>
    "swarm-" ++ shortDigest host (Json.ofFields
      [("task", .str task), ("depth", Json.ofNat depth), ("salt", Json.ofNat salt),
        ("ts", Json.ofNat ts)])

/-- `next_session_id`; `none` when the loop is still going after the given rounds. -/
def nextSessionId (host : Host) (readings : List ℕ) (state : SwarmState) (task : String)
    (depth : ℕ) : Option String :=
  (sessionIdCandidates host readings task depth).find? fun id => !state.sessionExists id

theorem nextSessionId_fresh {host : Host} {readings : List ℕ} {state : SwarmState} {task : String}
    {depth : ℕ} {id : String} (h : nextSessionId host readings state task depth = some id) :
    state.sessions[id]? = none := by
  have := List.find?_some h
  exact ExtTreeMap.getElem?_eq_none_of_contains_eq_false
    (by simpa [SwarmState.sessionExists] using this)

/-! ## Services -/

def setServiceHealth (state : SwarmState) (sessionId : String) (healthy : Bool) : SwarmState :=
  { state with
    serviceRegistry := state.serviceRegistry.map fun _ rows =>
      rows.map fun row => if row.sessionId = sessionId then { row with healthy } else row }

/-- `mark_service_instance_unhealthy`. -/
def markServiceInstanceUnhealthy (state : SwarmState) (sessionId : String) : SwarmState :=
  setServiceHealth state sessionId false

def registerServiceInstance (state : SwarmState) (sessionId : String) (role : Option String) :
    SwarmState :=
  match role with
  | none => state
  | some roleName =>
    let entries := (state.serviceRegistry[roleName]?.getD []).filter (·.sessionId ≠ sessionId)
    { state with
      serviceRegistry :=
        state.serviceRegistry.insert roleName (entries ++ [{ sessionId, healthy := true }]) }

def discoverServices (state : SwarmState) (role : String) : List ServiceInstance :=
  (state.serviceRegistry[role]?.getD []).filter fun row =>
    row.healthy && ((state.sessions[row.sessionId]?.map (·.reachable)).getD false)

end Protheus.Swarm
