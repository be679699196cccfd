import Protheus.F64

/-!
The importance layer 0 infers by itself, `core/layer0/ops/src/importance.rs`:
the metrics it hands to the layer-2 policy and the decision it would fall back
to.  A decimal of the code is the float it is rounded to.
-/

namespace Protheus.Importance

/-- `ImportanceDecision`. -/
structure ImportanceDecision where
  score : ℚ
  band : String
  priority : ℤ
  reasonCodes : List String
  criticality : ℚ
  urgency : ℚ
  impact : ℚ
  userRelevance : ℚ
  confidence : ℚ
  coreFloor : ℚ
  initiativeAction : String
  initiativeRepeatAfterSec : ℤ
  initiativeMaxMessages : ℤ
  queueFront : Bool

/-- `clamp01`. -/
def clamp01 (v : ℚ) : ℚ := RustStd.clamp v 0 1

/-- `parse_f64`. -/
def parseF64 (v : Option Json) : Option ℚ := (v.bind Json.asF64).map clamp01

/-- `parse_bool`. -/
def parseBool (v : Option Json) : Bool := (v.bind Json.asBool).getD false

/-- `severity_criticality`. -/
def severityCriticality (floats : Floats) (severity : String) : ℚ :=
  if severity = "critical" then 1
  else if severity = "warn" then floats.round (65 / 100)
  else floats.round (35 / 100)

/-- `text_contains_any`. -/
def textContainsAny (text : String) (needles : List String) : Bool :=
  needles.any (RustStd.strContains (RustStd.toAsciiLowercase text))

/-- `band_for_score`. -/
def bandForScore (floats : Floats) (score : ℚ) : String :=
  if floats.round (95 / 100) ≤ score then "p0"
  else if floats.round (85 / 100) ≤ score then "p1"
  else if floats.round (70 / 100) ≤ score then "p2"
  else if floats.round (40 / 100) ≤ score then "p3"
  else "p4"

/-- `band_rank`. -/
def bandRank (band : String) : ℤ :=
  let band := RustStd.toAsciiLowercase (RustStd.trim band)
  if band = "p0" then 5
  else if band = "p1" then 4
  else if band = "p2" then 3
  else if band = "p3" then 2
  else 1

/-- A text field of an event, trimmed and in lower case. -/
def textField (event : Json) (key fallback : String) : String :=
  RustStd.toAsciiLowercase (RustStd.trim (((event.get? key).bind Json.asStr).getD fallback))

/-- A field of the `importance` object, else of the event itself. -/
def importanceOr (event : Json) (key outer : String) : Option Json :=
  (((event.get? "importance").bind Json.asObject).bind (·.lookup key)).or (event.get? outer)

/-- A metric, or what the severity stands for. -/
def metricOr (event : Json) (key : String) (fallback : ℚ) : ℚ :=
  (parseF64 (importanceOr event key key)).getD fallback

/-- A value by severity: critical, warn, anything else. -/
def bySeverity (floats : Floats) (severity : String) (critical warn info : ℚ) : ℚ :=
  floats.round (if severity = "critical" then critical else if severity = "warn" then warn else info)

/-- The messages of a score: action, seconds between repeats, messages at most. -/
def initiativeForScore (floats : Floats) (score : ℚ) : String × ℤ × ℤ :=
  if score < floats.round (40 / 100) then ("silent", 0, 0)
  else if score < floats.round (70 / 100) then ("single_message", 0, 1)
  else if score < floats.round (85 / 100) then ("double_message", 300, 2)
  else if score < floats.round (95 / 100) then ("triple_escalation", 120, 3)
  else ("persistent_until_ack", 30, 999)

/-- `infer_from_event`. -/
def inferFromEvent (floats : Floats) (event : Json) (severity : String)
    (priorityMap : List (String × ℤ)) : ImportanceDecision :=
  let source := textField event "source" "unknown_source"
  let sourceType := textField event "source_type" "unknown_type"
  let summary := textField event "summary" ""
  let explicitPriority := (((event.get? "priority").bind Json.asI64).or
    ((((event.get? "importance").bind Json.asObject).bind (·.lookup "priority")).bind Json.asI64)).map
      fun n => max 1 (min 1000 n)
  let explicitScore := parseF64 (importanceOr event "score" "importance_score")
  let criticality := metricOr event "criticality" (severityCriticality floats severity)
  let urgency := metricOr event "urgency" (bySeverity floats severity (85 / 100) (55 / 100) (25 / 100))
  let impact := metricOr event "impact" (bySeverity floats severity (80 / 100) (55 / 100) (35 / 100))
  let userRelevance := metricOr event "user_relevance"
    (if textContainsAny summary ["t1", "goal", "revenue", "deadline"] then floats.round (75 / 100)
      else floats.round (50 / 100))
  let confidence := metricOr event "confidence" (floats.round (80 / 100))
  -- Core and system health dominates what the higher layers ask for.
  let severityCritical := severity == "critical"
  let coreSubsystem := textContainsAny source
      ["spine", "conduit", "security", "integrity", "memory_ambient"] ||
    textContainsAny sourceType ["infra_outage", "system_fault", "eye_run_failed"]
  let conduitHealth := textContainsAny summary
    ["conduit", "bridge", "runtime_gate", "timeout", "degraded"]
  let securityIntegrity := textContainsAny summary
      ["security_global_gate_failed", "integrity", "tamper", "quarantine", "attestation"] ||
    textContainsAny source ["security"]
  let dataIntegrity := textContainsAny summary
    ["data loss", "corrupt", "missing receipts", "receipt mismatch"]
  let dreamInclusion := parseBool (importanceOr event "dream_inclusion" "dream_inclusion")
  let coreFloor := if severityCritical then floats.round (85 / 100) else 0
  let impact := if coreSubsystem then max impact (floats.round (85 / 100)) else impact
  let coreFloor := if conduitHealth then max coreFloor (floats.round (92 / 100)) else coreFloor
  let coreFloor := if securityIntegrity then max coreFloor (floats.round (97 / 100)) else coreFloor
  let coreFloor := if dataIntegrity then max coreFloor (floats.round (95 / 100)) else coreFloor
  let userRelevance :=
    if dreamInclusion then RustStd.clamp (floats.add userRelevance (floats.round (10 / 100))) 0 1
    else userRelevance
  let weighed (metric weight : ℚ) := floats.mul metric (floats.round weight)
  let weighted := clamp01 (floats.add (floats.add (floats.add
    (floats.add (weighed criticality (35 / 100)) (weighed urgency (25 / 100)))
    (weighed impact (20 / 100))) (weighed userRelevance (15 / 100))) (weighed confidence (5 / 100)))
  let score := max weighted coreFloor
  let score := match explicitScore with
    | some explicit => max score explicit
    | none => score
  let score := match explicitPriority with
    | some priority => max score (RustStd.clamp (floats.round ((priority : ℚ) / 1000)) 0 1)
    | none => score
  let score := clamp01 score
  let severityPriority := (priorityMap.lookup severity).getD 20
  let derivedPriority := max 1 (min 1000 (RustStd.round (floats.mul score 1000)))
  let priority := max 1 (min 1000 (max (explicitPriority.getD derivedPriority) severityPriority))
  let (initiativeAction, initiativeRepeatAfterSec, initiativeMaxMessages) :=
    initiativeForScore floats score
  { score
    band := bandForScore floats score
    priority
    reasonCodes :=
      (if severityCritical then ["severity_critical_floor"] else []) ++
      (if coreSubsystem then ["core_subsystem_signal"] else []) ++
      (if conduitHealth then ["conduit_health_risk"] else []) ++
      (if securityIntegrity then ["security_integrity_risk"] else []) ++
      (if dataIntegrity then ["data_integrity_risk"] else []) ++
      (if dreamInclusion then ["dream_inclusion_boost"] else []) ++
      (if explicitScore.isSome then ["explicit_score_override"] else []) ++
      (if explicitPriority.isSome then ["explicit_priority_hint"] else [])
    criticality
    urgency
    impact
    userRelevance
    confidence
    coreFloor
    initiativeAction
    initiativeRepeatAfterSec
    initiativeMaxMessages
    queueFront := decide (floats.round (70 / 100) ≤ score) }

/-- The fields of `to_json`. -/
def decisionFields (decision : ImportanceDecision) : List (String × Json) := [
  ("score", Json.ofRat decision.score),
  ("band", .str decision.band),
  ("priority", Json.ofInt decision.priority),
  ("reason_codes", .arr (decision.reasonCodes.map .str)),
  ("criticality", Json.ofRat decision.criticality),
  ("urgency", Json.ofRat decision.urgency),
  ("impact", Json.ofRat decision.impact),
  ("user_relevance", Json.ofRat decision.userRelevance),
  ("confidence", Json.ofRat decision.confidence),
  ("core_floor", Json.ofRat decision.coreFloor),
  ("initiative", Json.ofFields [
    ("action", .str decision.initiativeAction),
    ("repeat_after_sec", Json.ofInt decision.initiativeRepeatAfterSec),
    ("max_messages", Json.ofInt decision.initiativeMaxMessages)]),
  ("queue_front", .bool decision.queueFront)]

end Protheus.Importance
