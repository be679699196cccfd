import Protheus.CliArgs
import Protheus.F64
import Protheus.Lib.Runs

/-!
The session registry of `command_center_session.rs`: `register`, `resume`, `send` and
`kill`, with their aliases and flags, on one state file.

A session counts as terminated where its health says so, and the health ignores case and
blanks in the status; the guards of `resume` and `send` compare the status to the letter,
and `register` and `kill` have none.  `termination_final_iff` says for which commands the
terminated sessions stay as they are and the counters only grow.

The registry reads back as it was written, but for a cost that is no finite number: it is
written as `null`, and the file does not load again.
-/

namespace Protheus.CommandCenter

open Runs
open Std (ExtTreeMap)

/-- What the process gets from outside: digests and floats. -/
structure Host where
  sha256Hex : String → String
  parseF64 : String → Option F64
  roundF64 : ℚ → F64

structure SteeringEvent where
  tsEpochMs : UInt64
  message : String
  messageHash : String
  deriving DecidableEq

structure SessionEvent where
  tsEpochMs : UInt64
  kind : String
  detail : Json
  deriving DecidableEq

structure SessionState where
  sessionId : String
  lineageId : String
  status : String
  startedEpochMs : UInt64
  lastAttachEpochMs : Option UInt64 := none
  terminatedEpochMs : Option UInt64 := none
  attachCount : UInt64 := 0
  steeringCount : UInt64 := 0
  tokenCount : UInt64 := 0
  costUsd : F64 := .finite 0
  health : String := ""
  lastSteeringHash : Option String := none
  recentSteering : List SteeringEvent := []
  events : List SessionEvent := []
  /-- The fields of an object: `register` starts with `{}` and sets `task` in it. -/
  metadata : List (String × Json) := []
  deriving DecidableEq

structure SessionRegistry where
  sessions : ExtTreeMap String SessionState := ∅
  updatedEpochMs : UInt64 := 0

def SessionRegistry.session (registry : SessionRegistry) (sessionId : String) :
    Option SessionState := registry.sessions[sessionId]?

/-! ## Arguments -/

/-- `first_free_positional`. -/
def firstFreePositional (argv : List String) (skip : ℕ) : Option String :=
  (argv.drop skip).find? fun token => (token.toList.dropWhile RustStd.isWhitespace).head? ≠ some '-'

/-- The commands that save the registry. -/
inductive Verb where
  | register
  | resume
  | send
  | kill
  deriving DecidableEq, Repr

/-- The command of a name, under its aliases. -/
def verbOf (cmd : String) : Option Verb :=
  if cmd = "register" ∨ cmd = "start" then some .register
  else if cmd = "resume" ∨ cmd = "attach" then some .resume
  else if cmd = "send" ∨ cmd = "steer" then some .send
  else if cmd = "kill" ∨ cmd = "terminate" then some .kill
  else none

/-- A command line, and the clock when it is run. -/
structure Command where
  argv : List String
  nowMs : UInt64

namespace Command

def name (cmd : Command) : String := CliArgs.commandName cmd.argv

def verb (cmd : Command) : Option Verb := verbOf cmd.name

def flag (cmd : Command) (key : String) : Option String := CliArgs.parseFlag key cmd.argv

/-- `session_id_from_args`. -/
def sessionId (cmd : Command) : Option String :=
  (((cmd.flag "session-id").or (firstFreePositional cmd.argv 1)).filter (RustStd.trim · ≠ "")).map
    fun v => if cmd.name = "send" ∨ cmd.name = "steer" then v else RustStd.trim v

def status (cmd : Command) : String := (cmd.flag "status").getD "running"

def message (cmd : Command) : String :=
  (((cmd.flag "message").or (cmd.flag "steer")).or (firstFreePositional cmd.argv 2)).getD ""

def tokenDelta (cmd : Command) : UInt64 := ((cmd.flag "token-delta").bind RustStd.parseU64).getD 0

def costDelta (host : Host) (cmd : Command) : F64 :=
  F64.max (((cmd.flag "cost-delta").bind host.parseF64).getD (.finite 0)) (.finite 0)

end Command

/-! ## Sessions -/

/-- `lineage_seed`. -/
def lineageSeed (host : Host) (sessionId : String) (nowMs : UInt64) : String :=
  "lineage-" ++ String.ofList
    ((host.sha256Hex (sessionId ++ ":" ++ toString nowMs.toNat)).toList.take 12)

/-- `normalized_health`. -/
def normalizedHealth (status : String) : String :=
  let text := RustStd.toAsciiLowercase (RustStd.trim status)
  if text = "running" then "healthy"
  else if text = "paused" then "paused"
  else if text = "terminated" then "terminated"
  else "degraded"

/-- The newest `n` of a list that grows at the end. -/
def keepLast {α : Type*} (n : ℕ) (items : List α) : List α := items.drop (items.length - n)

namespace SessionState

/-- `push_event`. -/
def pushEvent (session : SessionState) (nowMs : UInt64) (kind : String) (detail : Json) :
    SessionState :=
  { session with events := keepLast 100 (session.events ++ [⟨nowMs, kind, detail⟩]) }

/-- The session `register` writes over the one there is. -/
def register (sessionId lineageId status : String) (task : Option String) (nowMs : UInt64)
    (existing : Option SessionState) : SessionState :=
  let metadata := (existing.map (·.metadata)).getD []
  pushEvent
    { sessionId, lineageId, status
      startedEpochMs := (existing.map (·.startedEpochMs)).getD nowMs
      terminatedEpochMs := if status = "terminated" then some nowMs else none
      health := normalizedHealth status
      metadata := match task with
        | some name => Json.insertField "task" (.str name) metadata
        | none => metadata }
    nowMs "register" (.ofFields [("status", .str status), ("lineage_id", .str lineageId)])

/-- The session after `resume`. -/
def resume (nowMs : UInt64) (session : SessionState) : SessionState :=
  pushEvent
    { session with
      status := "running"
      health := normalizedHealth "running"
      attachCount := RustStd.satAdd session.attachCount 1
      lastAttachEpochMs := some nowMs
      terminatedEpochMs := none }
    nowMs "resume" (.obj [])

/-- The session after `send`. -/
def steer (host : Host) (message : String) (tokenDelta : UInt64) (costDelta : F64)
    (nowMs : UInt64) (session : SessionState) : SessionState :=
  let messageHash := host.sha256Hex message
  pushEvent
    { session with
      steeringCount := RustStd.satAdd session.steeringCount 1
      tokenCount := RustStd.satAdd session.tokenCount tokenDelta
      costUsd := F64.add host.roundF64 session.costUsd costDelta
      lastSteeringHash := some messageHash
      recentSteering := keepLast 20 (session.recentSteering ++ [⟨nowMs, message, messageHash⟩]) }
    nowMs "steer"
    (.ofFields [("message_hash", .str ("sha256:" ++ messageHash)),
      ("token_delta", .num (.posInt tokenDelta)), ("cost_delta", costDelta.toJson)])

/-- The session after `kill`. -/
def kill (nowMs : UInt64) (session : SessionState) : SessionState :=
  pushEvent
    { session with
      status := "terminated"
      health := normalizedHealth "terminated"
      terminatedEpochMs := some nowMs }
    nowMs "kill" (.obj [])

/-- `lineage_receipt_key`. -/
def lineageReceiptKey (session : SessionState) : String :=
  session.lineageId ++ "::" ++ session.sessionId

end SessionState

/-! ## Commands -/

/-- What a command prints: an `error_receipt` or the payload of a `success_receipt`. -/
inductive Receipt where
  | error (code message : String) (exitCode : ℕ)
  | success (laneType : String) (payload : Json)

def Receipt.ok : Receipt → Bool
  | .error .. => false
  | .success .. => true

def missingSessionId (message : String) : Receipt := .error "missing_session_id" message 2

def unknownSession : Receipt := .error "unknown_session" "session_id not found" 3

/-- An epoch, or `null`. -/
def optMs : Option UInt64 → Json
  | some ms => .num (.posInt ms)
  | none => .null

/-- The file loads: each cost in it is a number. -/
def Loads (registry : SessionRegistry) : Prop :=
  ∀ session ∈ registry.sessions.toList.map Prod.snd, ∃ q, session.costUsd = .finite q

instance (f : F64) : Decidable (∃ q, f = .finite q) :=
  match f with
  | .finite q => isTrue ⟨q, rfl⟩
  | .inf _ => isFalse nofun
  | .nan => isFalse nofun

instance (registry : SessionRegistry) : Decidable (Loads registry) :=
  inferInstanceAs (Decidable (∀ _ ∈ _, _))

def SessionRegistry.put (registry : SessionRegistry) (sessionId : String) (session : SessionState)
    (nowMs : UInt64) : SessionRegistry :=
  { sessions := registry.sessions.insert sessionId session, updatedEpochMs := nowMs }

/-- `run` on `register` and `start`. -/
def register (host : Host) (cmd : Command) (registry : SessionRegistry) :
    Receipt × SessionRegistry :=
  match cmd.sessionId with
  | none => (missingSessionId "expected --session-id=<id> or positional session id", registry)
  | some sessionId =>
    let lineageId := (cmd.flag "lineage-id").getD (lineageSeed host sessionId cmd.nowMs)
    let session := SessionState.register sessionId lineageId cmd.status (cmd.flag "task") cmd.nowMs
      (registry.session sessionId)
    (.success "command_center_session_register"
        (.ofFields [("session_id", .str sessionId), ("lineage_id", .str lineageId),
          ("status", .str cmd.status)]),
      registry.put sessionId session cmd.nowMs)

/-- `run` on `resume` and `attach`. -/
def resume (cmd : Command) (registry : SessionRegistry) : Receipt × SessionRegistry :=
  match cmd.sessionId with
  | none => (missingSessionId "expected session id for resume/attach", registry)
  | some sessionId =>
    match registry.session sessionId with
    | none => (unknownSession, registry)
    | some session =>
      if session.status = "terminated" then
        (.error "stale_session" "cannot resume terminated session" 4, registry)
      else
        let session := session.resume cmd.nowMs
        (.success "command_center_session_resume"
            (.ofFields [("session_id", .str session.sessionId), ("lineage_id", .str session.lineageId),
              ("status", .str session.status), ("attach_count", .num (.posInt session.attachCount)),
              ("attached_epoch_ms", optMs session.lastAttachEpochMs),
              ("steering_contract",
                .str ("protheus session send " ++ sessionId ++ " --message=\"...\"")),
              ("lineage_receipt_key", .str session.lineageReceiptKey)]),
          registry.put sessionId session cmd.nowMs)

/-- `run` on `send` and `steer`. -/
def send (host : Host) (cmd : Command) (registry : SessionRegistry) : Receipt × SessionRegistry :=
  match cmd.sessionId with
  | none => (missingSessionId "expected session id for send/steer", registry)
  | some sessionId =>
    if RustStd.trim cmd.message = "" then
      (.error "missing_message" "expected --message=<text> for send/steer" 2, registry)
    else
      match registry.session sessionId with
      | none => (unknownSession, registry)
      | some session =>
        if session.status = "terminated" then
          (.error "stale_session" "cannot steer terminated session" 4, registry)
        else
          let session :=
            session.steer host cmd.message cmd.tokenDelta (cmd.costDelta host) cmd.nowMs
          (.success "command_center_session_steer"
              (.ofFields [("session_id", .str session.sessionId),
                ("lineage_id", .str session.lineageId),
                ("intervention_id",
                  .str (session.sessionId ++ "-" ++ toString session.steeringCount.toNat)),
                ("steering_count", .num (.posInt session.steeringCount)),
                ("message_hash", .str ("sha256:" ++ host.sha256Hex cmd.message)),
                ("lineage_receipt_key", .str session.lineageReceiptKey)]),
            registry.put sessionId session cmd.nowMs)

/-- `run` on `kill` and `terminate`. -/
def kill (cmd : Command) (registry : SessionRegistry) : Receipt × SessionRegistry :=
  match cmd.sessionId with
  | none => (missingSessionId "expected session id for kill/terminate", registry)
  | some sessionId =>
    match registry.session sessionId with
    | none => (unknownSession, registry)
    | some session =>
      let session := session.kill cmd.nowMs
      (.success "command_center_session_kill"
          (.ofFields [("session_id", .str session.sessionId), ("lineage_id", .str session.lineageId),
            ("status", .str session.status),
            ("terminated_epoch_ms", optMs session.terminatedEpochMs)]),
        registry.put sessionId session cmd.nowMs)

/-- `run`, on a command that may save the registry; every other command is answered as an
unknown one and saves nothing either. -/
def exec (host : Host) (registry : SessionRegistry) (cmd : Command) : Receipt × SessionRegistry :=
  if Loads registry then
    match cmd.verb with
    | some .register => register host cmd registry
    | some .resume => resume cmd registry
    | some .send => send host cmd registry
    | some .kill => kill cmd registry
    | none => (.error "unknown_command" "unsupported command" 2, registry)
  else (.error "state_load_failed" "state_parse_failed" 2, registry)

/-- The registry a command leaves. -/
def step (host : Host) (registry : SessionRegistry) (cmd : Command) : SessionRegistry :=
  (exec host registry cmd).2

/-! ## What a run keeps -/

def SessionState.Terminated (session : SessionState) : Prop :=
  normalizedHealth session.status = "terminated"

instance (session : SessionState) : Decidable session.Terminated :=
  inferInstanceAs (Decidable (_ = _))

/-- What is kept of a session: a terminated one keeps its status and a termination time,
and no counter goes down. -/
structure Kept (session later : SessionState) : Prop where
  status : session.Terminated → later.status = session.status
  time : session.Terminated → session.terminatedEpochMs.isSome → later.terminatedEpochMs.isSome
  attach : session.attachCount ≤ later.attachCount
  steering : session.steeringCount ≤ later.steeringCount
  token : session.tokenCount ≤ later.tokenCount

/-- The command attaches to the session or steers it. -/
def Reaches (host : Host) (registry : SessionRegistry) (cmd : Command) (sessionId : String) : Prop :=
  (exec host registry cmd).1.ok ∧ (cmd.verb = some .resume ∨ cmd.verb = some .send) ∧
    cmd.sessionId = some sessionId

/-- A run in which terminated sessions stay as they are and counters only grow. -/
structure Final (host : Host) (registry : SessionRegistry) (cmds : List Command) : Prop where
  stays : ∀ m n, m ≤ n → ∀ sessionId session,
    (before (step host) registry cmds m).session sessionId = some session → session.Terminated →
      ∃ later, (before (step host) registry cmds n).session sessionId = some later ∧
        later.status = session.status ∧
        (session.terminatedEpochMs.isSome → later.terminatedEpochMs.isSome)
  untouched : ∀ m n, m ≤ n → ∀ sessionId session,
    (before (step host) registry cmds m).session sessionId = some session → session.Terminated →
      ∀ cmd, cmds[n]? = some cmd → ¬Reaches host (before (step host) registry cmds n) cmd sessionId
  counters : ∀ n sessionId session,
    (before (step host) registry cmds n).session sessionId = some session →
      ∃ later, (before (step host) registry cmds (n + 1)).session sessionId = some later ∧
        session.attachCount ≤ later.attachCount ∧ session.steeringCount ≤ later.steeringCount ∧
        session.tokenCount ≤ later.tokenCount

/-- What may be done to a session: it is registered again only with its counters at zero
and, if it is terminated, under the same status; and nothing else is done to it where its
status only reads as terminated. -/
def Harmless (cmd : Command) (session : SessionState) : Verb → Prop
  | .register =>
    (session.attachCount = 0 ∧ session.steeringCount = 0 ∧ session.tokenCount = 0) ∧
      (session.Terminated → cmd.status = session.status ∧
        (session.terminatedEpochMs.isSome → cmd.status = "terminated"))
  | .resume | .kill => session.Terminated → session.status = "terminated"
  | .send => RustStd.trim cmd.message ≠ "" → session.Terminated → session.status = "terminated"

/-- Where the file loads, the command is harmless to the session it names. -/
def Guarded (registry : SessionRegistry) (cmd : Command) : Prop :=
  Loads registry → ∀ verb ∈ cmd.verb, ∀ sessionId ∈ cmd.sessionId,
    ∀ session ∈ registry.session sessionId, Harmless cmd session verb

/-! ## What a command writes -/

/-- The session a command writes over the one there is, if it writes one. -/
def written (host : Host) (cmd : Command) (sessionId : String) (existing : Option SessionState) :
    Verb → Option SessionState
  | .register => some (SessionState.register sessionId
      ((cmd.flag "lineage-id").getD (lineageSeed host sessionId cmd.nowMs)) cmd.status
      (cmd.flag "task") cmd.nowMs existing)
  | .resume => (existing.filter (·.status ≠ "terminated")).map (·.resume cmd.nowMs)
  | .send =>
    if RustStd.trim cmd.message = "" then none
    else (existing.filter (·.status ≠ "terminated")).map fun session =>
      session.steer host cmd.message cmd.tokenDelta (cmd.costDelta host) cmd.nowMs
  | .kill => existing.map (·.kill cmd.nowMs)

variable {host : Host} {registry : SessionRegistry} {cmd : Command}

/-- A command that does not load the file, is none of the four or names no session leaves
the registry as it is. -/
theorem exec_idle (h : ¬Loads registry ∨ cmd.verb = none ∨ cmd.sessionId = none) :
    (exec host registry cmd).1.ok = false ∧ (exec host registry cmd).2 = registry := by
  unfold exec
  by_cases hloads : Loads registry
  case neg => simp [hloads, Receipt.ok]
  case pos =>
    rw [if_pos hloads]
    cases hverb : cmd.verb with
    | none => exact ⟨rfl, rfl⟩
    | some verb =>
      have hid : cmd.sessionId = none := by simpa [hloads, hverb] using h
      cases verb <;> simp [register, resume, send, kill, hid, missingSessionId, Receipt.ok]

/-- A command on a session succeeds exactly where it writes one, and it writes only that. -/
theorem exec_written {verb : Verb} {sessionId : String} (hloads : Loads registry)
    (hverb : cmd.verb = some verb) (hid : cmd.sessionId = some sessionId) :
    (exec host registry cmd).1.ok =
        (written host cmd sessionId (registry.session sessionId) verb).isSome ∧
      (exec host registry cmd).2 =
        match written host cmd sessionId (registry.session sessionId) verb with
        | some session => registry.put sessionId session cmd.nowMs
        | none => registry := by
  unfold exec
  rw [if_pos hloads, hverb]
  cases verb with
  | register =>
    simp [register, hid, written, Receipt.ok]
  | resume =>
    simp only [resume, hid, written]
    cases hsession : registry.session sessionId with
    | none => exact ⟨rfl, rfl⟩
    | some session =>
      by_cases hstatus : session.status = "terminated" <;> simp [hstatus, Receipt.ok, Option.filter]
  | send =>
    simp only [send, hid, written]
    by_cases hmessage : RustStd.trim cmd.message = ""
    case pos => simp [hmessage, Receipt.ok]
    case neg =>
      cases hsession : registry.session sessionId with
      | none => simp [hmessage, unknownSession, Receipt.ok]
      | some session =>
        by_cases hstatus : session.status = "terminated" <;>
          simp [hmessage, hstatus, Receipt.ok, Option.filter]
  | kill =>
    simp only [kill, hid, written]
    cases hsession : registry.session sessionId with
    | none => exact ⟨rfl, rfl⟩
    | some session => exact ⟨rfl, rfl⟩

theorem session_put {sessionId other : String} {session : SessionState} {nowMs : UInt64} :
    (registry.put sessionId session nowMs).session other =
      if sessionId = other then some session else registry.session other := by
  simp [SessionRegistry.session, SessionRegistry.put, ExtTreeMap.getElem?_insert]

theorem step_idle (h : ¬Loads registry ∨ cmd.verb = none ∨ cmd.sessionId = none) :
    step host registry cmd = registry := (exec_idle h).2

/-- The session a command names is the one it writes, or the one there was. -/
theorem step_session {verb : Verb} {sessionId : String} (hloads : Loads registry)
    (hverb : cmd.verb = some verb) (hid : cmd.sessionId = some sessionId) :
    (step host registry cmd).session sessionId =
      (written host cmd sessionId (registry.session sessionId) verb).or
        (registry.session sessionId) := by
  rw [step, (exec_written hloads hverb hid).2]
  cases written host cmd sessionId (registry.session sessionId) verb with
  | none => rfl
  | some session => simp [session_put]

theorem step_session_ne {other : String} (h : cmd.sessionId ≠ some other) :
    (step host registry cmd).session other = registry.session other := by
  by_cases hidle : ¬Loads registry ∨ cmd.verb = none ∨ cmd.sessionId = none
  case pos => rw [step_idle hidle]
  case neg =>
    push Not at hidle
    obtain ⟨hloads, hverb, hid⟩ := hidle
    obtain ⟨verb, hverb⟩ := Option.ne_none_iff_exists'.mp hverb
    obtain ⟨sessionId, hid⟩ := Option.ne_none_iff_exists'.mp hid
    have hne : sessionId ≠ other := fun heq => h (heq ▸ hid)
    rw [step, (exec_written hloads hverb hid).2]
    cases written host cmd sessionId (registry.session sessionId) verb with
    | none => rfl
    | some session => rw [session_put, if_neg hne]

/-! ## What is kept of a session -/

theorem Kept.refl (session : SessionState) : Kept session session where
  status _ := rfl
  time _ h := h
  attach := UInt64.le_refl _
  steering := UInt64.le_refl _
  token := UInt64.le_refl _

theorem kept_register_iff {sessionId lineageId : String} {task : Option String} {nowMs : UInt64}
    {session : SessionState} :
    Kept session
        (SessionState.register sessionId lineageId cmd.status task nowMs (some session)) ↔
      Harmless cmd session .register := by
  constructor
  · intro h
    refine ⟨⟨UInt64.le_zero_iff.mp h.attach, UInt64.le_zero_iff.mp h.steering, UInt64.le_zero_iff.mp h.token⟩, ?_⟩
    intro hterm
    refine ⟨h.status hterm, fun htime => ?_⟩
    have hset := h.time hterm htime
    by_contra hstatus
    simp [SessionState.register, SessionState.pushEvent, hstatus] at hset
  · rintro ⟨⟨hattach, hsteering, htoken⟩, hterm⟩
    exact
      { status := fun h => (hterm h).1
        time := fun h htime => by
          have hstatus := (hterm h).2 htime
          simp [SessionState.register, SessionState.pushEvent, hstatus]
        attach := UInt64.le_zero_iff.mpr hattach
        steering := UInt64.le_zero_iff.mpr hsteering
        token := UInt64.le_zero_iff.mpr htoken }

theorem kept_kill_iff {nowMs : UInt64} {session : SessionState} :
    Kept session (session.kill nowMs) ↔ (session.Terminated → session.status = "terminated") := by
  constructor
  · exact fun h hterm => (h.status hterm).symm
  · exact fun h =>
      { status := fun hterm => (h hterm).symm
        time := fun _ _ => rfl
        attach := UInt64.le_refl _
        steering := UInt64.le_refl _
        token := UInt64.le_refl _ }

theorem kept_resume {nowMs : UInt64} {session : SessionState} (h : ¬session.Terminated) :
    Kept session (session.resume nowMs) where
  status hterm := absurd hterm h
  time hterm := absurd hterm h
  attach := RustStd.le_satAdd _ _
  steering := UInt64.le_refl _
  token := UInt64.le_refl _

theorem kept_steer {message : String} {tokenDelta nowMs : UInt64} {costDelta : F64}
    {session : SessionState} :
    Kept session (session.steer host message tokenDelta costDelta nowMs) where
  status _ := rfl
  time _ h := h
  attach := UInt64.le_refl _
  steering := RustStd.le_satAdd _ _
  token := RustStd.le_satAdd _ _

/-- What a command writes over a session keeps it, and neither attaches to a terminated
session nor steers it, exactly where the command is harmless to it. -/
theorem written_kept_iff {sessionId : String} {session : SessionState} {verb : Verb} :
    (Kept session ((written host cmd sessionId (some session) verb).getD session) ∧
        (session.Terminated → (written host cmd sessionId (some session) verb).isSome →
          verb ≠ .resume ∧ verb ≠ .send)) ↔
      Harmless cmd session verb := by
  cases verb with
  | register =>
    simp only [written, Option.getD_some, kept_register_iff]
    exact and_iff_left fun _ _ => ⟨nofun, nofun⟩
  | resume =>
    by_cases hstatus : session.status = "terminated"
    case pos => simp [written, Option.filter, hstatus, Harmless, Kept.refl]
    case neg =>
      by_cases hterm : session.Terminated
      case pos => simp [written, Option.filter, hstatus, hterm, Harmless]
      case neg => simp [written, Option.filter, hstatus, hterm, Harmless, kept_resume hterm]
  | send =>
    by_cases hmessage : RustStd.trim cmd.message = ""
    case pos => simp [written, hmessage, Harmless, Kept.refl]
    case neg =>
      by_cases hstatus : session.status = "terminated"
      case pos => simp [written, Option.filter, hstatus, Harmless, Kept.refl]
      case neg => simp [written, Option.filter, hmessage, hstatus, Harmless, kept_steer]
  | kill =>
    simp only [written, Option.map_some, Option.getD_some, kept_kill_iff]
    exact and_iff_left fun _ _ => ⟨nofun, nofun⟩

/-- What one command keeps of the sessions. -/
structure StepKept (host : Host) (registry : SessionRegistry) (cmd : Command) : Prop where
  kept : ∀ sessionId session, registry.session sessionId = some session →
    ∃ later, (step host registry cmd).session sessionId = some later ∧ Kept session later
  untouched : ∀ sessionId session, registry.session sessionId = some session →
    session.Terminated → ¬Reaches host registry cmd sessionId

/-- The sessions a command does not name are kept anyway. -/
theorem stepKept_iff_named : StepKept host registry cmd ↔
    ∀ sessionId ∈ cmd.sessionId, ∀ session ∈ registry.session sessionId,
      (∃ later, (step host registry cmd).session sessionId = some later ∧ Kept session later) ∧
        (session.Terminated → ¬Reaches host registry cmd sessionId) := by
  constructor
  · exact fun h sessionId _ session hsession =>
      ⟨h.kept sessionId session hsession, h.untouched sessionId session hsession⟩
  · intro h
    constructor
    · intro sessionId session hsession
      by_cases hid : cmd.sessionId = some sessionId
      · exact (h sessionId hid session hsession).1
      · exact ⟨session, (step_session_ne hid).trans hsession, Kept.refl session⟩
    · intro sessionId session hsession hterm hreaches
      exact (h sessionId hreaches.2.2 session hsession).2 hterm hreaches

/-- A command keeps the sessions exactly where it meets the guard. -/
theorem stepKept_iff_guarded : StepKept host registry cmd ↔ Guarded registry cmd := by
  rw [stepKept_iff_named]
  by_cases hidle : ¬Loads registry ∨ cmd.verb = none
  case pos =>
    have hquiet : ¬Loads registry ∨ cmd.verb = none ∨ cmd.sessionId = none := by tauto
    constructor
    · intro _ hloads verb hverb
      simp only [Option.mem_def] at hverb
      simp [hloads, hverb] at hidle
    · intro _ sessionId _ session hsession
      refine ⟨⟨session, by rw [step_idle hquiet]; exact hsession, Kept.refl session⟩, ?_⟩
      intro _ hreaches
      exact Bool.false_ne_true ((exec_idle hquiet).1.symm.trans hreaches.1)
  case neg =>
    push Not at hidle
    obtain ⟨hloads, hverb⟩ := hidle
    obtain ⟨verb, hverb⟩ := Option.ne_none_iff_exists'.mp hverb
    have hguard : Guarded registry cmd ↔ ∀ sessionId ∈ cmd.sessionId,
        ∀ session ∈ registry.session sessionId, Harmless cmd session verb := by
      simp [Guarded, hloads, hverb]
    rw [hguard]
    refine forall₄_congr fun sessionId hid session hsession => ?_
    rw [← written_kept_iff, step_session hloads hverb hid, Option.mem_def.mp hsession]
    refine and_congr ?_ (imp_congr_right fun _ => ?_)
    · cases written host cmd sessionId (some session) verb <;> simp
    · rw [Reaches, (exec_written hloads hverb hid).1, Option.mem_def.mp hsession, hverb]
      simp [Option.mem_def.mp hid]

/-! ## Runs -/

theorem Final.stepKept {cmds : List Command} (h : Final host registry cmds) {n : ℕ} {cmd : Command}
    (hcmd : cmds[n]? = some cmd) : StepKept host (before (step host) registry cmds n) cmd where
  kept sessionId session hsession := by
    obtain ⟨later, hlater, hattach, hsteering, htoken⟩ := h.counters n sessionId session hsession
    rw [before_succ_of_some _ hcmd] at hlater
    refine ⟨later, hlater, ?_⟩
    have hstays := h.stays n (n + 1) (Nat.le_succ n) sessionId session hsession
    rw [before_succ_of_some _ hcmd, hlater] at hstays
    simp only [Option.some.injEq, exists_eq_left'] at hstays
    exact ⟨fun hterm => (hstays hterm).1, fun hterm => (hstays hterm).2, hattach, hsteering, htoken⟩
  untouched sessionId session hsession hterm :=
    h.untouched n n (Nat.le_refl n) sessionId session hsession hterm cmd hcmd

theorem Kept.terminated {session later : SessionState} (h : Kept session later)
    (hterm : session.Terminated) : later.Terminated := by
  rw [SessionState.Terminated, h.status hterm]
  exact hterm

/-- Steps that keep the sessions one by one keep them throughout. -/
theorem Final.of_stepKept {cmds : List Command}
    (h : ∀ n cmd, cmds[n]? = some cmd → StepKept host (before (step host) registry cmds n) cmd) :
    Final host registry cmds := by
  have hstays : ∀ m n, m ≤ n → ∀ sessionId session,
      (before (step host) registry cmds m).session sessionId = some session → session.Terminated →
        ∃ later, (before (step host) registry cmds n).session sessionId = some later ∧
          later.Terminated ∧ later.status = session.status ∧
          (session.terminatedEpochMs.isSome → later.terminatedEpochMs.isSome) := by
    intro m n hmn sessionId session hsession hterm
    refine before_induction (P := fun registry' => ∃ later, registry'.session sessionId = some later ∧
      later.Terminated ∧ later.status = session.status ∧
      (session.terminatedEpochMs.isSome → later.terminatedEpochMs.isSome)) (step host) hmn
      ⟨session, hsession, hterm, rfl, id⟩ ?_
    rintro k cmd - hcmd ⟨there, hthere, hterm', hstatus, htime⟩
    obtain ⟨later, hlater, hkept⟩ := (h k cmd hcmd).kept sessionId there hthere
    exact ⟨later, hlater, hkept.terminated hterm', (hkept.status hterm').trans hstatus,
      fun hset => hkept.time hterm' (htime hset)⟩
  constructor
  · intro m n hmn sessionId session hsession hterm
    obtain ⟨later, hlater, -, hstatus, htime⟩ := hstays m n hmn sessionId session hsession hterm
    exact ⟨later, hlater, hstatus, htime⟩
  · intro m n hmn sessionId session hsession hterm cmd hcmd
    obtain ⟨later, hlater, hterm', -⟩ := hstays m n hmn sessionId session hsession hterm
    exact (h n cmd hcmd).untouched sessionId later hlater hterm'
  · intro n sessionId session hsession
    cases hcmd : cmds[n]? with
    | none =>
      rw [before_succ_of_none _ hcmd]
      exact ⟨session, hsession, UInt64.le_refl _, UInt64.le_refl _, UInt64.le_refl _⟩
    | some cmd =>
      rw [before_succ_of_some _ hcmd]
      obtain ⟨later, hlater, hkept⟩ := (h n cmd hcmd).kept sessionId session hsession
      exact ⟨later, hlater, hkept.attach, hkept.steering, hkept.token⟩

/-- **Termination is final exactly under the guard.**  In a run of commands the terminated
sessions keep their status and their termination time and are neither resumed nor steered,
and no counter goes down, if and only if every command of the run meets the guard. -/
theorem termination_final_iff (host : Host) (registry : SessionRegistry) (cmds : List Command) :
    Final host registry cmds ↔ Meets (step host) Guarded registry cmds := by
  rw [Meets.iff_forall]
  constructor
  · exact fun h n cmd hcmd => stepKept_iff_guarded.mp (h.stepKept hcmd)
  · exact fun h => Final.of_stepKept fun n cmd hcmd => stepKept_iff_guarded.mpr (h n cmd hcmd)

/-! ## A terminated session comes back -/

/-- Digests that are the text itself, and no floats. -/
def plainHost : Host where
  sha256Hex text := text
  parseF64 _ := none
  roundF64 := .finite

/-- `register --session-id=s --status=Terminated`, whose health is `terminated`. -/
def registerTerminated : Command := ⟨["register", "--session-id=s", "--status=Terminated"], 1000⟩

/-- `resume s`. -/
def resumeIt : Command := ⟨["resume", "s"], 2000⟩

/-- The guard of `resume` lets the session through, and it runs again. -/
theorem terminated_session_resumes :
    ¬Final plainHost {} [registerTerminated, resumeIt] := by
  intro h
  obtain ⟨session, hsession, hterm⟩ : ∃ session, (before (step plainHost) {}
      [registerTerminated, resumeIt] 1).session "s" = some session ∧
      session.status = "Terminated" := by
    exact ⟨_, rfl, rfl⟩
  obtain ⟨later, hlater, hstatus, -⟩ := h.stays 1 2 (by decide) "s" session hsession
    (by rw [SessionState.Terminated, hterm]; decide)
  have hruns : ((before (step plainHost) {} [registerTerminated, resumeIt] 2).session "s").map
      (·.status) = some "running" := by decide
  rw [hlater, Option.map_some, hstatus, hterm] at hruns
  exact absurd hruns (by decide)

end Protheus.CommandCenter
