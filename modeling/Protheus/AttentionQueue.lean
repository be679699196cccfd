import Protheus.Importance
import Protheus.Initiative
import Protheus.Lib.Runs

/-!
The attention queue of `core/layer0/ops/src/attention_queue.rs`: a file of event
rows that `enqueue` re-scores and re-sorts, and a consumer that walks it by
position.

A state is the queue file, the consumer's entry in the cursor file, and two
things the code does not keep and no definition reads: the number of rows
admitted so far, by which each row is tagged, and the tags handed to the
consumer.  A command that waits is a number of `load`s and then the command
itself; `load` is also what `status` does.

`chrono`'s two conversions, the SHA-256 of a text and the floats come from outside: how
a result is rounded, and how a float is printed and read again, as it is on every way to
a file or to layer 2 and back.  The clock readings a command takes stand in the command.
-/

namespace Protheus.AttentionQueue

open Protheus.Initiative (Row annotate prioritizeRows importanceField)
open Protheus.Importance (bandRank inferFromEvent)

/-- What the queue takes from other crates. -/
structure Env where
  /-- `DateTime::parse_from_rfc3339` and `timestamp_millis`. -/
  parseTsMs : String → Option ℤ
  /-- `timestamp_millis_opt(..).single()` and `to_rfc3339_opts`. -/
  formatTsMs : ℤ → Option String
  sha256Hex : String → String
  printFloat : ℚ → String
  floats : Floats

/-- `AttentionContract`, with the consumer the cursor file is read for. -/
structure AttentionContract where
  enabled : Bool
  pushAttentionQueue : Bool
  queuePath : String
  maxQueueDepth : ℕ
  maxBatchSize : ℕ
  ttlHours : ℤ
  dedupeWindowHours : ℤ
  backpressureDropBelow : String
  escalateLevels : List String
  priorityMap : List (String × ℤ)
  consumerId : String

/-! ## Reading a row -/

/-- `severity_rank`. -/
def severityRank (raw : String) : ℤ :=
  let raw := RustStd.toAsciiLowercase (RustStd.trim raw)
  if raw = "critical" then 3 else if raw = "warn" ∨ raw = "warning" then 2 else 1

/-- `attention_lane_rank`. -/
def attentionLaneRank (raw : String) : ℤ :=
  let raw := RustStd.toAsciiLowercase (RustStd.trim raw)
  if raw = "critical" then 3 else if raw = "background" then 1 else 2

/-- `normalize_severity`. -/
def normalizeSeverity (raw : Option String) : String :=
  let raw := RustStd.toAsciiLowercase (RustStd.trim (raw.getD ""))
  if raw = "critical" then "critical" else if raw = "warn" ∨ raw = "warning" then "warn" else "info"

/-- A text field of a value. -/
def strField (value : Json) (key : String) : Option String := (value.get? key).bind Json.asStr

/-- The severity of a row, as the fallback order reads it. -/
def rowSeverity (row : Json) : String :=
  RustStd.toAsciiLowercase (RustStd.trim ((strField row "severity").getD "info"))

/-- `event_score`. -/
def eventScore (floats : Floats) (row : Json) : ℚ :=
  RustStd.clamp
    ((((importanceField row "score").or (row.get? "score")).bind Json.asF64).getD
      (floats.round (if rowSeverity row = "critical" then 85 / 100
      else if rowSeverity row = "warn" then 60 / 100
      else 35 / 100))) 0 1

/-- `event_band_rank`; no band ranks at zero or below. -/
def eventBandRank (row : Json) : ℤ :=
  let band := (((importanceField row "band").bind Json.asStr).or (strField row "band")).getD "p4"
  if 0 < bandRank band then bandRank band
  else if rowSeverity row = "critical" then bandRank "p1"
  else if rowSeverity row = "warn" then bandRank "p2"
  else bandRank "p4"

/-- `event_priority`. -/
def eventPriority (row : Json) : ℤ :=
  max 1 (min 1000 (((row.get? "priority").bind Json.asI64).getD 20))

/-- `event_attention_lane_rank`. -/
def eventAttentionLaneRank (row : Json) : ℤ :=
  attentionLaneRank ((strField row "queue_lane").getD "standard")

section Layer2

variable (floats : Floats)

/-- The threshold the queue passes to layer 2. -/
def frontJumpThreshold : ℚ := Initiative.clamp01 (floats.reread (floats.round (70 / 100)))

/-- The row that is read where this one was printed. -/
def rereadRow {τ : Type*} (row : Row τ) : Row τ := { row with event := row.event.reread floats.reread }

/-- `prioritize_rows_via_layer2`: the rows travel there and back as text, two levels inside
a payload, and a payload nested too deep does not parse. -/
def prioritizeRowsViaLayer2 {τ : Type*} (rows : List (Row τ)) : Option (List (Row τ)) :=
  if Json.itemsDepth (rows.map Row.event) + 2 ≤ Json.parseDepth then
    some ((prioritizeRows floats (frontJumpThreshold floats) (rows.map (rereadRow floats))).map
      (rereadRow floats))
  else none

end Layer2

section Times

variable (env : Env)

/-- `event_deadline_ts_ms`. -/
def eventDeadlineTsMs (row : Json) : ℤ :=
  let direct := (strField row "deadline_at").bind env.parseTsMs
  let rawEvent := ((row.get? "raw_event").bind (strField · "deadline_at")).bind env.parseTsMs
  (direct.or rawEvent).getD (2 ^ 63 - 1)

/-- `event_ts_ms`. -/
def eventTsMs (row : Json) : ℤ := ((strField row "ts").bind env.parseTsMs).getD (2 ^ 63 - 1)

/-- `event_attention_key`. -/
def eventAttentionKey (row : Json) : String := (strField row "attention_key").getD ""

/-- The comparison of `sort_active_rows`. -/
def compareActiveRows (a b : Json) : Ordering :=
  (compare (eventAttentionLaneRank b) (eventAttentionLaneRank a)).then <|
  (compare (eventBandRank b) (eventBandRank a)).then <|
  (compare (eventPriority b) (eventPriority a)).then <|
  (compare (eventScore env.floats b) (eventScore env.floats a)).then <|
  (compare (eventDeadlineTsMs env a) (eventDeadlineTsMs env b)).then <|
  (compare (eventTsMs env a) (eventTsMs env b)).then <|
  compare (eventAttentionKey a) (eventAttentionKey b)

/-- `sort_active_rows`. -/
def sortActiveRows {τ : Type*} (rows : List (Row τ)) : List (Row τ) :=
  RustStd.sortBy (fun a b => compareActiveRows env a.event b.event) rows

/-- `sort_active_rows_with_authority`. -/
def sortActiveRowsWithAuthority {τ : Type*} (rows : List (Row τ)) : List (Row τ) :=
  match prioritizeRowsViaLayer2 env.floats rows with
  | some prioritized => prioritized
  | none => sortActiveRows env rows

/-- `read_jsonl`: a line that does not parse is passed over. -/
def readJsonl {τ : Type*} (file : List (Row τ)) : List (Row τ) :=
  (file.filter fun row => decide (row.event.depth ≤ Json.parseDepth)).map (rereadRow env.floats)

/-- Whether a row's `expires_at` has passed. -/
def expired (nowMs : ℤ) (row : Json) : Bool :=
  match (strField row "expires_at").bind env.parseTsMs with
  | some ts => decide (ts ≤ nowMs)
  | none => false

/-- `prune_expired`, with the rows it keeps and how many it drops. -/
def pruneExpired {τ : Type*} (nowMs : ℤ) (rows : List (Row τ)) : List (Row τ) × ℕ :=
  let kept := rows.filter fun row => !expired env nowMs row.event
  (kept, rows.length - kept.length)

/-- `deterministic_receipt_hash`. -/
def deterministicReceiptHash (value : Json) : String := env.sha256Hex (value.render env.printFloat)

end Times

/-! ## Normalising an event -/

/-- Characters up to the first one that would start at byte `maxLen` or later. -/
def takeBytes (maxLen : ℕ) : ℕ → List Char → List Char
  | _, [] => []
  | len, ch :: rest => if maxLen ≤ len then [] else ch :: takeBytes maxLen (len + ch.utf8Size) rest

/-- `clean_text`. -/
def cleanText (value : Option String) (maxLen : ℕ) : String :=
  RustStd.trim (String.ofList (takeBytes maxLen 0 (RustStd.joinWords (value.getD ""))))

/-- A text, or `fallback` where it is empty. -/
def orElse (text fallback : String) : String := if text.isEmpty then fallback else text

/-- `classify_attention_lane`. -/
def classifyAttentionLane (source sourceType severity summary band : String) : String :=
  let severity := normalizeSeverity (some severity)
  let band := RustStd.toAsciiLowercase (RustStd.trim band)
  let source := RustStd.toAsciiLowercase (RustStd.trim source)
  let sourceType := RustStd.toAsciiLowercase (RustStd.trim sourceType)
  let summary := RustStd.toAsciiLowercase (RustStd.trim summary)
  let isCriticalSummary := ["fail", "error", "critical", "degraded", "alert", "benchmark_sanity",
    "backpressure", "throttle", "stale"].any (RustStd.strContains summary)
  if severity = "critical" ∨ severity = "warn" ∨ band = "p0" ∨ band = "p1" ∨ isCriticalSummary then
    "critical"
  else
    let records := ["receipt", "audit", "timeline", "history", "log", "trace"]
    let backgroundSource := records.any (RustStd.strContains sourceType) ||
      records.any (RustStd.strContains source)
    let backgroundBand := severity = "info" ∧ (band = "p3" ∨ band = "p4")
    if backgroundSource ∨ backgroundBand then "background" else "standard"

/-- `evaluate_importance_via_layer2`: the payload is a flat object of finite numbers,
so the layer reads what was encoded and always decides; its score is read again. -/
def evaluateImportanceViaLayer2 (floats : Floats) (event : Json)
    (fallback : Importance.ImportanceDecision) : Initiative.ImportanceDecision :=
  let inherited := ((importanceField event "score").bind Json.asF64).getD fallback.score
  let decision := Initiative.evaluateImportance floats
    { criticality := some (floats.reread fallback.criticality)
      urgency := some (floats.reread fallback.urgency)
      impact := some (floats.reread fallback.impact)
      userRelevance := some (floats.reread fallback.userRelevance)
      confidence := some (floats.reread fallback.confidence)
      coreFloor := some (floats.reread fallback.coreFloor)
      inheritedScore := some (floats.reread inherited) }
    (frontJumpThreshold floats)
  { decision with score := Initiative.clamp01 (floats.reread decision.score) }

/-- The readings an `enqueue` takes of the clock, in the order of their use. -/
structure EnqueueClock where
  /-- The `ts` of an event that has none. -/
  nowIso : String
  /-- The time of an event whose `ts` does not parse. -/
  eventMs : ℤ
  /-- The `expires_at` of a time that does not print. -/
  expiryIso : String
  /-- What rows are expired against. -/
  pruneMs : ℤ
  /-- The time of a candidate whose `ts` does not parse. -/
  dedupeMs : ℤ

/-- `HOUR` in milliseconds. -/
def hourMs : ℤ := 60 * 60 * 1000

section Commands

variable (env : Env) (contract : AttentionContract)

/-- The importance object of a row: layer 0's own, overwritten by layer 2. -/
def rowImportance (fallback : Importance.ImportanceDecision)
    (decision : Initiative.ImportanceDecision) : Json :=
  .obj <| Json.insertFields [
    ("authority", .str "core.layer2.execution.initiative"),
    ("score", Json.ofRat decision.score),
    ("band", .str decision.band),
    ("priority", Json.ofInt decision.priority),
    ("layer2", Json.ofFields [
      ("front_jump", .bool decision.frontJump),
      ("initiative_action", .str decision.initiativeAction),
      ("initiative_repeat_after_sec", Json.ofInt decision.initiativeRepeatAfterSec),
      ("initiative_max_messages", Json.ofInt decision.initiativeMaxMessages)])]
    (Json.insertFields (Importance.decisionFields fallback) [])

/-- What `normalize_event` makes of an event before it writes the row. -/
structure EventParts where
  ts : String
  source : String
  sourceType : String
  severity : String
  summary : String
  attentionKey : String
  fallback : Importance.ImportanceDecision
  decision : Initiative.ImportanceDecision
  expiresAt : String

/-- The parts of an event, with what stands in for the missing ones. -/
def eventParts (clock : EnqueueClock) (event : Json) : EventParts :=
  let ts := orElse (cleanText (strField event "ts") 64) clock.nowIso
  let source := orElse (cleanText (strField event "source") 80) "unknown_source"
  let sourceType := orElse
    (cleanText ((strField event "source_type").or (strField event "type")) 80) "unknown_type"
  let severity := normalizeSeverity (strField event "severity")
  let summary := orElse (cleanText (strField event "summary") 180) (sourceType ++ ":" ++ source)
  let attentionKey := orElse (cleanText (strField event "attention_key") 240)
    (source ++ ":" ++ sourceType ++ ":" ++ severity ++ ":" ++ summary)
  let fallback := inferFromEvent env.floats event severity contract.priorityMap
  { ts
    source
    sourceType
    severity
    summary
    attentionKey
    fallback
    decision := evaluateImportanceViaLayer2 env.floats event fallback
    expiresAt := (env.formatTsMs
      ((env.parseTsMs ts).getD clock.eventMs + contract.ttlHours * hourMs)).getD clock.expiryIso }

def rowFields (parts : EventParts) (event : Json) : List (String × Json) := [
  ("ts", .str parts.ts),
  ("type", .str "attention_event"),
  ("source", .str parts.source),
  ("source_type", .str parts.sourceType),
  ("severity", .str parts.severity),
  ("priority", Json.ofInt parts.decision.priority),
  ("score", Json.ofRat parts.decision.score),
  ("band", .str parts.decision.band),
  ("queue_lane", .str (classifyAttentionLane parts.source parts.sourceType parts.severity
    parts.summary parts.decision.band)),
  ("summary", .str parts.summary),
  ("attention_key", .str parts.attentionKey),
  ("ttl_hours", Json.ofInt contract.ttlHours),
  ("dedupe_window_hours", Json.ofInt contract.dedupeWindowHours),
  ("expires_at", .str parts.expiresAt),
  ("escalate_required", .bool
    (contract.escalateLevels.contains parts.severity || decide (env.floats.round (85 / 100) ≤ parts.decision.score))),
  ("escalation_authority", .str "runtime_policy"),
  ("initiative_action", .str parts.decision.initiativeAction),
  ("initiative_repeat_after_sec", Json.ofInt parts.decision.initiativeRepeatAfterSec),
  ("initiative_max_messages", Json.ofInt parts.decision.initiativeMaxMessages),
  ("queue_front", .bool parts.decision.frontJump),
  ("importance", rowImportance parts.fallback parts.decision),
  ("raw_event", event)]

/-- `normalize_event`. -/
def normalizeEvent (clock : EnqueueClock) (event : Json) : Json :=
  let row := Json.ofFields (rowFields env contract (eventParts env contract clock event) event)
  match row with
  | .obj map => .obj (Json.insertField "receipt_hash" (.str (deterministicReceiptHash env row)) map)
  | row => row

/-- `dedupe_hit`. -/
def dedupeHit {τ : Type*} (nowMs : ℤ) (activeRows : List (Row τ)) (candidate : Json) : Bool :=
  let key := (strField candidate "attention_key").getD ""
  if (RustStd.trim key).isEmpty then false
  else
    let candidateTs := ((strField candidate "ts").bind env.parseTsMs).getD nowMs
    let windowMs := contract.dedupeWindowHours * hourMs
    activeRows.any fun row =>
      (strField row.event "attention_key").getD "" == key &&
        decide (|candidateTs - ((strField row.event "ts").bind env.parseTsMs).getD 0| ≤ windowMs)

/-! ## The commands -/

/-- The files, with the tags of the rows and of what the consumer was handed. -/
structure State where
  /-- `queue.jsonl`. -/
  queue : List (Row ℕ)
  /-- The consumer's `offset` in `cursor_state.json`. -/
  offset : Option ℕ
  /-- How many rows were admitted; the next one is tagged so. -/
  admitted : ℕ
  /-- The tags of the rows handed out by `next` and `drain`. -/
  returned : List ℕ

/-- Before the first command. -/
def State.init : State := ⟨[], none, 0, []⟩

/-- `decision` of an enqueue receipt. -/
inductive Action where
  | disabled
  | deduped
  | droppedBackpressure
  | admittedPriority
  | admitted
  deriving DecidableEq

/-- Whether the event goes into the queue. -/
def Action.queued : Action → Bool
  | .admittedPriority | .admitted => true
  | _ => false

/-- The rows `enqueue` finds in the queue. -/
def keptRows (clock : EnqueueClock) (s : State) : List (Row ℕ) :=
  if contract.enabled && contract.pushAttentionQueue then
    (pruneExpired env clock.pruneMs (readJsonl env s.queue)).1
  else []

/-- What `enqueue` decides about an event. -/
def enqueueAction (clock : EnqueueClock) (s : State) (row : Json) : Action :=
  let activeRows := keptRows env contract clock s
  if !contract.enabled || !contract.pushAttentionQueue then .disabled
  else if dedupeHit env contract clock.dedupeMs activeRows row then .deduped
  else
    let severity := (strField row "severity").getD "info"
    let queueLane := (strField row "queue_lane").getD "standard"
    let highImportance := bandRank "p2" ≤ bandRank ((strField row "band").getD "p4")
    let atOrOverCap := contract.maxQueueDepth ≤ activeRows.length
    if atOrOverCap ∧ (RustStd.toAsciiLowercase queueLane = "background" ∨
        (severityRank severity < severityRank contract.backpressureDropBelow ∧ ¬ highImportance)) then
      .droppedBackpressure
    else if highImportance then .admittedPriority
    else .admitted

/-- `enqueue`: an event whose text nests too deep does not parse, and only an admitted
one touches the queue file. -/
def enqueue (clock : EnqueueClock) (event : Json) (s : State) : State :=
  let row := normalizeEvent env contract clock event
  if event.depth ≤ Json.parseDepth ∧ (enqueueAction env contract clock s row).queued then
    { s with
      queue := sortActiveRowsWithAuthority env (keptRows env contract clock s ++ [⟨row, s.admitted⟩])
      admitted := s.admitted + 1 }
  else s

/-- `load_active_queue`: the active rows, and the files after it. -/
def loadActiveQueue (nowMs : ℤ) (s : State) : List (Row ℕ) × State :=
  if !(contract.enabled && contract.pushAttentionQueue) then ([], s)
  else
    let (active, expiredPruned) := pruneExpired env nowMs (readJsonl env s.queue)
    let active := sortActiveRowsWithAuthority env active
    (active, if 0 < expiredPruned then { s with queue := active } else s)

/-- `next` over the active rows, `drain` with `autoAck`: the rows handed out, and the
state after. -/
def handOut (autoAck : Bool) (limit : Option ℕ) (activeRows : List (Row ℕ)) (s : State) :
    List (Row ℕ) × State :=
  let limit := max 1 (min contract.maxBatchSize (limit.getD 1))
  let cursorOffset := min (s.offset.getD 0) activeRows.length
  let stop := min activeRows.length (cursorOffset + limit)
  let events := (activeRows.drop cursorOffset).take (stop - cursorOffset)
  let s := { s with returned := s.returned ++ events.map Row.tag }
  (events, if autoAck && !events.isEmpty then { s with offset := some (stop - 1 + 1) } else s)

/-- `next`. -/
def next (autoAck : Bool) (nowMs : ℤ) (limit : Option ℕ) (s : State) : List (Row ℕ) × State :=
  let (activeRows, s) := loadActiveQueue env contract nowMs s
  handOut contract autoAck limit activeRows s

/-- `cursor_token_for_event`. -/
def cursorTokenForEvent (index : ℕ) (event : Json) : String :=
  deterministicReceiptHash env <| Json.ofFields [
    ("type", .str "attention_cursor_token"),
    ("consumer_id", .str contract.consumerId),
    ("index", Json.ofNat index),
    ("queue_path", .str contract.queuePath),
    ("event_receipt_hash", (event.get? "receipt_hash").getD .null),
    ("attention_key", (event.get? "attention_key").getD .null),
    ("event_ts", (event.get? "ts").getD .null)]

/-- `ack` over the active rows. -/
def acknowledge (throughIndex : ℕ) (cursorToken : String) (activeRows : List (Row ℕ)) (s : State) :
    State :=
  match activeRows[throughIndex]? with
  | none => s
  | some row =>
    if throughIndex + 1 < min (s.offset.getD 0) activeRows.length then s
    else if cursorTokenForEvent env contract throughIndex row.event ≠ cursorToken then s
    else { s with offset := some (throughIndex + 1) }

/-- `ack`. -/
def ack (nowMs : ℤ) (throughIndex : Option ℕ) (cursorToken : Option String) (s : State) : State :=
  match throughIndex with
  | none => s
  | some throughIndex =>
    let cursorToken := cleanText cursorToken 200
    if cursorToken.isEmpty then s
    else
      let (activeRows, s) := loadActiveQueue env contract nowMs s
      acknowledge env contract throughIndex cursorToken activeRows s

/-- How many rows `compact` cuts: those below every cursor, all but `retain` of them. -/
def compactCount (retain minAcked minOffset : ℕ) : ℕ :=
  if minAcked ≤ minOffset ∧ retain < minOffset then minOffset - retain else 0

/-- `compact` over the active rows. -/
def cutAcked (retain minAcked : ℕ) (activeRows : List (Row ℕ)) (s : State) : State :=
  let queueDepthBefore := activeRows.length
  let minOffset := match s.offset with
    | some offset => min queueDepthBefore (min offset queueDepthBefore)
    | none => 0
  let count := compactCount retain minAcked minOffset
  if 0 < count then
    let keptRows := activeRows.drop (min count queueDepthBefore)
    { s with
      queue := keptRows
      offset := s.offset.map fun offset => min (min offset queueDepthBefore - count) keptRows.length }
  else s

/-- `compact`. -/
def compact (nowMs : ℤ) (retain minAcked : Option ℕ) (s : State) : State :=
  let (activeRows, s) := loadActiveQueue env contract nowMs s
  cutAcked (min 8192 (retain.getD 32)) (min 1000000 (minAcked.getD 1)) activeRows s

/-- A command, with the clock readings it takes. -/
inductive Command where
  | enqueue (clock : EnqueueClock) (event : Json)
  | next (nowMs : ℤ) (limit : Option ℕ)
  | drain (nowMs : ℤ) (limit : Option ℕ)
  | ack (nowMs : ℤ) (throughIndex : Option ℕ) (cursorToken : Option String)
  | compact (nowMs : ℤ) (retain minAcked : Option ℕ)
  | load (nowMs : ℤ)

/-- The state after a command. -/
def step (s : State) : Command → State
  | .enqueue clock event => enqueue env contract clock event s
  | .next nowMs limit => (next env contract false nowMs limit s).2
  | .drain nowMs limit => (next env contract true nowMs limit s).2
  | .ack nowMs throughIndex cursorToken => ack env contract nowMs throughIndex cursorToken s
  | .compact nowMs retain minAcked => compact env contract nowMs retain minAcked s
  | .load nowMs => (loadActiveQueue env contract nowMs s).2

end Commands

end Protheus.AttentionQueue
