import Protheus.F64
import Protheus.Lib.Rank

/-!
The importance and attention policy of `core/layer2/execution/src/initiative.rs`.

An event is scored from its metrics, from a score it already carries and from a
floor; the priority pass writes score, band and priority into every event and
sorts by them.  Since the pass reads the score it wrote before and replaces the
`importance` object the metrics stood in, a second pass need not repeat the
first: `prioritizeAttentionJson_fixed_iff` says exactly when it does in exact arithmetic.

Scores are floats: what `Floats` leaves open of them is how a result is rounded and
what is read where one was printed.  A row of the pass carries a tag beside its event so
that it can be followed through the sort; the code's own rows are tagged `()`,
and no definition reads the tag.
-/

namespace Protheus.Initiative

open Protheus.Rank

section Weights

variable (floats : Floats)

def weightCriticality : ℚ := floats.round (35 / 100)
def weightUrgency : ℚ := floats.round (25 / 100)
def weightImpact : ℚ := floats.round (20 / 100)
def weightUserRelevance : ℚ := floats.round (15 / 100)
def weightConfidence : ℚ := floats.round (5 / 100)
def defaultFrontJumpThreshold : ℚ := floats.round (70 / 100)

end Weights

/-- `ImportanceInput`. -/
structure ImportanceInput where
  criticality : Option ℚ
  urgency : Option ℚ
  impact : Option ℚ
  userRelevance : Option ℚ
  confidence : Option ℚ
  coreFloor : Option ℚ
  inheritedScore : Option ℚ

/-- `ImportanceDecision`. -/
structure ImportanceDecision where
  score : ℚ
  priority : ℤ
  band : String
  frontJump : Bool
  initiativeAction : String
  initiativeRepeatAfterSec : ℤ
  initiativeMaxMessages : ℤ

/-- `clamp01`. -/
def clamp01 (v : ℚ) : ℚ := RustStd.clamp v 0 1

/-- `numeric_value`. -/
def numericValue (v : Option Json) : Option ℚ := (v.bind Json.asF64).map clamp01

/-- A field of the `importance` object, where the event has one. -/
def importanceField (event : Json) (key : String) : Option Json :=
  ((event.get? "importance").bind Json.asObject).bind (·.lookup key)

/-- `metric_from_event`: a field of the event, else of its `importance` object. -/
def metricFromEvent (event : Json) (key : String) : Option ℚ :=
  match numericValue (event.get? key) with
  | some v => some v
  | none => numericValue (importanceField event key)

section Scores

variable (floats : Floats)

/-- The weighted sum of the five metrics, added up in this order. -/
def weightedScore (criticality urgency impact userRelevance confidence : Option ℚ) : ℚ :=
  let weighed (weight : ℚ) (metric : Option ℚ) := floats.mul weight (clamp01 (metric.getD 0))
  let sum := weighed (weightCriticality floats) criticality
  let sum := floats.add sum (weighed (weightUrgency floats) urgency)
  let sum := floats.add sum (weighed (weightImpact floats) impact)
  let sum := floats.add sum (weighed (weightUserRelevance floats) userRelevance)
  clamp01 (floats.add sum (weighed (weightConfidence floats) confidence))

/-- `score_from_input`. -/
def scoreFromInput (input : ImportanceInput) : ℚ :=
  let weighted := weightedScore floats input.criticality input.urgency input.impact
    input.userRelevance input.confidence
  let score := match input.inheritedScore.map clamp01 with
    | some inheritedScore => clamp01 (floats.add (floats.mul inheritedScore (floats.round (8 / 10)))
        (floats.mul weighted (floats.round (2 / 10))))
    | none => weighted
  match input.coreFloor with
  | some floor => max score (clamp01 floor)
  | none => score

/-- `band_for_score`. -/
def bandForScore (score : ℚ) : String :=
  if floats.round (95 / 100) ≤ score then "p0"
  else if floats.round (85 / 100) ≤ score then "p1"
  else if floats.round (70 / 100) ≤ score then "p2"
  else if floats.round (40 / 100) ≤ score then "p3"
  else "p4"

/-- `initiative_for_score`: action, seconds between repeats, messages at most. -/
def initiativeForScore (score : ℚ) : String × ℤ × ℤ :=
  if floats.round (95 / 100) ≤ score then ("persistent_until_ack", 60, 999)
  else if floats.round (85 / 100) < score then ("triple_escalation", 120, 3)
  else if floats.round (70 / 100) ≤ score then ("double_message", 300, 2)
  else if floats.round (40 / 100) ≤ score then ("single_message", 900, 1)
  else ("silent", 0, 0)

def priorityForScore (score : ℚ) : ℤ := max 1 (min 1000 (RustStd.round (floats.mul score 1000)))

/-- `evaluate_importance`. -/
def evaluateImportance (input : ImportanceInput) (frontJumpThreshold : ℚ) : ImportanceDecision :=
  let score := scoreFromInput floats input
  let (initiativeAction, initiativeRepeatAfterSec, initiativeMaxMessages) :=
    initiativeForScore floats score
  { score
    priority := priorityForScore floats score
    band := bandForScore floats score
    frontJump := decide (clamp01 frontJumpThreshold ≤ score)
    initiativeAction
    initiativeRepeatAfterSec
    initiativeMaxMessages }

end Scores

/-- The score an event carries: its own, an `importance_score`, or its `importance` object's. -/
def inheritedScore (event : Json) : Option ℚ :=
  (numericValue (event.get? "score")).or
    ((numericValue (event.get? "importance_score")).or (numericValue (importanceField event "score")))

/-- What `importance_from_event` reads of an event. -/
def importanceInput (event : Json) : ImportanceInput where
  criticality := metricFromEvent event "criticality"
  urgency := metricFromEvent event "urgency"
  impact := metricFromEvent event "impact"
  userRelevance := metricFromEvent event "user_relevance"
  confidence := metricFromEvent event "confidence"
  coreFloor := metricFromEvent event "core_floor"
  inheritedScore := inheritedScore event

/-- `importance_from_event`. -/
def importanceFromEvent (floats : Floats) (event : Json) (frontJumpThreshold : ℚ) :
    ImportanceDecision :=
  evaluateImportance floats (importanceInput event) frontJumpThreshold

/-- The `importance` object the pass writes. -/
def importanceJson (decision : ImportanceDecision) : Json :=
  Json.ofFields [
    ("score", Json.ofRat decision.score),
    ("priority", Json.ofInt decision.priority),
    ("band", .str decision.band),
    ("initiative_action", .str decision.initiativeAction),
    ("initiative_repeat_after_sec", Json.ofInt decision.initiativeRepeatAfterSec),
    ("initiative_max_messages", Json.ofInt decision.initiativeMaxMessages)]

/-- The fields the pass writes, in the order it writes them. -/
def decisionFields (decision : ImportanceDecision) : List (String × Json) := [
  ("score", Json.ofRat decision.score),
  ("priority", Json.ofInt decision.priority),
  ("band", .str decision.band),
  ("initiative_action", .str decision.initiativeAction),
  ("queue_front", .bool decision.frontJump),
  ("importance", importanceJson decision)]

/-- The event with the decision written into it; only an object has fields to write. -/
def annotate (decision : ImportanceDecision) : Json → Json
  | .obj map => .obj (Json.insertFields (decisionFields decision) map)
  | event => event

/-- An event and the tag it is followed by. -/
structure Row (τ : Type*) where
  event : Json
  tag : τ

/-- A row as the sort sees it: its place, its sort keys, the row itself. -/
structure Decorated (τ : Type*) where
  idx : ℕ
  frontJump : Bool
  score : ℚ
  row : Row τ

section Pass

variable {τ : Type*} (floats : Floats)

/-- A row after the pass scored it. -/
def rescore (threshold : ℚ) (row : Row τ) : Row τ :=
  { row with event := annotate (importanceFromEvent floats row.event threshold) row.event }

/-- A row and its place with what the sort compares. -/
def decorated (threshold : ℚ) (entry : Row τ × ℕ) : Decorated τ where
  idx := entry.2
  frontJump := (importanceFromEvent floats entry.1.event threshold).frontJump
  score := (importanceFromEvent floats entry.1.event threshold).score
  row := rescore floats threshold entry.1

/-- The loop over the events from place `idx` on. -/
def decorate (threshold : ℚ) : ℕ → List (Row τ) → List (Decorated τ)
  | _, [] => []
  | idx, row :: rest => decorated floats threshold (row, idx) :: decorate threshold (idx + 1) rest

/-- The comparison of the sort: front first, then the higher score, then the place. -/
def Decorated.cmp (a b : Decorated τ) : Ordering :=
  (compare b.frontJump a.frontJump).then ((compare b.score a.score).then (compare a.idx b.idx))

/-- Scoring and sorting the rows. -/
def prioritizeRows (threshold : ℚ) (rows : List (Row τ)) : List (Row τ) :=
  (RustStd.sortBy Decorated.cmp (decorate floats threshold 0 rows)).map Decorated.row

end Pass

/-- `AttentionPriorityInput`. -/
structure AttentionPriorityInput where
  events : List Json
  frontJumpThreshold : Option ℚ

/-- What `prioritize_attention_json` answers. -/
structure AttentionPriority where
  frontJumpThreshold : ℚ
  queueDepth : ℕ
  events : List Json
  deriving DecidableEq

/-- `prioritize_attention_json`, past the parsing of its payload. -/
def prioritizeAttentionJson (floats : Floats) (input : AttentionPriorityInput) :
    AttentionPriority :=
  let threshold := clamp01 (input.frontJumpThreshold.getD (defaultFrontJumpThreshold floats))
  let ordered := (prioritizeRows floats threshold (input.events.map (Row.mk · ()))).map Row.event
  { frontJumpThreshold := threshold, queueDepth := ordered.length, events := ordered }

/-- The answer's text read as a payload: its `events` and its `front_jump_threshold`. -/
def AttentionPriority.asInput (floats : Floats) (output : AttentionPriority) :
    AttentionPriorityInput where
  events := output.events.map (Json.reread floats.reread)
  frontJumpThreshold := some (floats.reread output.frontJumpThreshold)

/-! ## The pass is a ranking of the rows by the scores it gives them -/

/-- The score `importance_from_event` gives an event. -/
def eventScore (floats : Floats) (event : Json) : ℚ := scoreFromInput floats (importanceInput event)

section Pass

variable {τ : Type*} (floats : Floats)

/-- Being in front is a matter of the score, so the sort is by score alone. -/
theorem Decorated.cmp_ne_gt_iff {threshold : ℚ} {a b : Decorated τ} (hidx : a.idx < b.idx)
    (ha : a.frontJump = decide (threshold ≤ a.score))
    (hb : b.frontJump = decide (threshold ≤ b.score)) :
    a.cmp b ≠ .gt ↔ b.score ≤ a.score := by
  rw [Decorated.cmp, ha, hb]
  rcases lt_trichotomy a.score b.score with hlt | heq | hgt
  · have hcmp : compare b.score a.score = .gt := compare_gt_iff_gt.mpr hlt
    by_cases hfront : threshold ≤ a.score
    · simp [hcmp, hfront, hfront.trans hlt.le, hlt]
    · by_cases hfront' : threshold ≤ b.score
      · simp [hfront, hfront', hlt, show compare true false = Ordering.gt from rfl]
      · simp [hcmp, hfront, hfront', hlt]
  · simp [heq, compare_lt_iff_lt.mpr hidx]
  · have hcmp : compare b.score a.score = .lt := compare_lt_iff_lt.mpr hgt
    by_cases hfront : threshold ≤ b.score
    · simp [hcmp, hfront, hfront.trans hgt.le, hgt.le]
    · by_cases hfront' : threshold ≤ a.score
      · simp [hfront, hfront', hgt.le, show compare false true = Ordering.lt from rfl]
      · simp [hcmp, hfront, hfront', hgt.le]

theorem decorate_eq (threshold : ℚ) (idx : ℕ) : ∀ rows : List (Row τ),
    decorate floats threshold idx rows = (rows.zipIdx idx).map (decorated floats threshold)
  | [] => rfl
  | row :: rest => by
    rw [decorate, List.zipIdx_cons, List.map_cons, decorate_eq threshold (idx + 1) rest]

/-- Rows are numbered in the order they stand in. -/
theorem pairwise_zipIdx (rows : List (Row τ)) : rows.zipIdx.Pairwise fun a b => a.2 < b.2 := by
  have hplaces : (rows.zipIdx.map Prod.snd).Pairwise (· < ·) := by
    rw [List.zipIdx_map_snd]
    exact List.pairwise_lt_range'
  exact List.pairwise_map.mp hplaces

/-- **The pass.**  Rank the rows by their scores, and write the scores into them. -/
theorem prioritizeRows_eq (threshold : ℚ) (rows : List (Row τ)) : prioritizeRows floats threshold rows =
    (rank (fun row => eventScore floats row.event) rows).map (rescore floats threshold) := by
  have hsort : (rows.zipIdx.insertionSort fun a b =>
        (decorated floats threshold a).cmp (decorated floats threshold b) ≠ .gt).map Prod.fst =
      rank (fun row => eventScore floats row.event) rows := by
    rw [map_insertionSort_of_pairwise (s := fun a b : Row τ =>
      eventScore floats b.event ≤ eventScore floats a.event) Prod.fst, List.zipIdx_map_fst]
    · rfl
    · exact (pairwise_zipIdx rows).imp fun hplace => Decorated.cmp_ne_gt_iff hplace rfl rfl
  rw [prioritizeRows, decorate_eq, RustStd.sortBy, ← List.map_insertionSort
    (r := fun a b => (decorated floats threshold a).cmp (decorated floats threshold b) ≠ .gt),
    List.map_map, ← hsort, List.map_map]
  · rfl
  · exact fun _ _ _ _ => Iff.rfl

end Pass

/-! ## Scores lie between zero and one -/

theorem clamp01_nonneg (v : ℚ) : 0 ≤ clamp01 v := by
  unfold clamp01 RustStd.clamp
  split_ifs <;> linarith

theorem clamp01_le_one (v : ℚ) : clamp01 v ≤ 1 := by
  unfold clamp01 RustStd.clamp
  split_ifs <;> linarith

theorem clamp01_of_unit {v : ℚ} (h0 : 0 ≤ v) (h1 : v ≤ 1) : clamp01 v = v := by
  rw [clamp01, RustStd.clamp, if_neg (not_lt.mpr h0), if_neg (not_lt.mpr h1)]

@[simp] theorem clamp01_clamp01 (v : ℚ) : clamp01 (clamp01 v) = clamp01 v :=
  clamp01_of_unit (clamp01_nonneg v) (clamp01_le_one v)

@[simp] theorem clamp01_zero : clamp01 0 = 0 := clamp01_of_unit le_rfl zero_le_one

theorem clamp01_of_numericValue {j : Option Json} {v : ℚ} (h : numericValue j = some v) :
    clamp01 v = v := by
  obtain ⟨w, -, rfl⟩ : ∃ w, j.bind Json.asF64 = some w ∧ clamp01 w = v := by
    simpa only [numericValue, Option.map_eq_some_iff] using h
  exact clamp01_clamp01 w

/-- The floor a score is raised to; no floor is a floor of zero. -/
def floorValue (floor : Option ℚ) : ℚ := clamp01 (floor.getD 0)

/-- The score before the floor: the metrics, or four fifths of the inherited score
and one fifth of the metrics. -/
def mixedScore (inherited : Option ℚ) (weighted : ℚ) : ℚ :=
  match inherited with
  | some score => score * (8 / 10) + weighted * (2 / 10)
  | none => weighted

section Unit

variable (c u i r f : Option ℚ)

theorem weightedScore_nonneg : 0 ≤ weightedScore .exact c u i r f := clamp01_nonneg _

theorem weightedScore_le_one : weightedScore .exact c u i r f ≤ 1 := clamp01_le_one _

end Unit

theorem scoreFromInput_eq (input : ImportanceInput) :
    scoreFromInput .exact input = max (mixedScore (input.inheritedScore.map clamp01)
      (weightedScore .exact input.criticality input.urgency input.impact input.userRelevance
        input.confidence)) (floorValue input.coreFloor) := by
  obtain ⟨c, u, i, r, f, floor, inherited⟩ := input
  have hw0 := weightedScore_nonneg c u i r f
  have hw1 := weightedScore_le_one c u i r f
  have hscore : ∀ score : ℚ, 0 ≤ score → (match floor with
      | some floor => max score (clamp01 floor)
      | none => score) = max score (floorValue floor) := by
    intro score h0
    cases floor with
    | none => simp [floorValue, h0]
    | some floor => rfl
  cases inherited with
  | none => exact hscore _ hw0
  | some v =>
    have hv0 := clamp01_nonneg v
    have hv1 := clamp01_le_one v
    simp only [scoreFromInput, Option.map_some, mixedScore, Floats.exact_add, Floats.exact_mul,
      Floats.exact_round]
    rw [clamp01_of_unit (by linarith) (by linarith)]
    exact hscore _ (by linarith)

theorem scoreFromInput_nonneg (input : ImportanceInput) : 0 ≤ scoreFromInput .exact input := by
  rw [scoreFromInput_eq]
  exact le_max_of_le_right (clamp01_nonneg _)

theorem scoreFromInput_le_one (input : ImportanceInput) : scoreFromInput .exact input ≤ 1 := by
  rw [scoreFromInput_eq]
  have hw1 := weightedScore_le_one input.criticality input.urgency input.impact
    input.userRelevance input.confidence
  refine max_le ?_ (clamp01_le_one _)
  cases input.inheritedScore with
  | none => exact hw1
  | some v =>
    have hv1 := clamp01_le_one v
    simp only [mixedScore, Option.map_some]
    linarith

/-! ## What a pass leaves in an event -/

/-- The metrics an event is scored from. -/
def metricKeys : List String :=
  ["criticality", "urgency", "impact", "user_relevance", "confidence", "core_floor"]

/-- A metric read from the event alone, not from its `importance` object. -/
def topMetric (event : Json) (key : String) : Option ℚ := numericValue (event.get? key)

/-- The weighted sum of the metrics `read` finds. -/
def weightedBy (read : String → Option ℚ) : ℚ :=
  weightedScore .exact (read "criticality") (read "urgency") (read "impact") (read "user_relevance")
    (read "confidence")

/-- The score at which an event comes to rest under repeated passes: the weighted
sum of its own top-level metrics, raised to its own top-level floor. -/
def restingScore (event : Json) : ℚ :=
  max (weightedBy (topMetric event)) (floorValue (topMetric event "core_floor"))

/-- An event a pass wrote `score` into: the score stands at its top and its
`importance` object holds no metric. -/
structure Scored (event : Json) (score : ℚ) : Prop where
  isObject : event.isObject = true
  getScore : event.get? "score" = some (Json.ofRat score)
  noMetric : ∀ key ∈ metricKeys, importanceField event key = none
  nonneg : 0 ≤ score
  le_one : score ≤ 1

theorem decisionFields_keys (d : ImportanceDecision) : (decisionFields d).map Prod.fst =
    ["score", "priority", "band", "initiative_action", "queue_front", "importance"] := rfl

theorem decisionFields_nodup (d : ImportanceDecision) : ((decisionFields d).map Prod.fst).Nodup := by
  rw [decisionFields_keys]
  decide

theorem annotate_annotate (d d' : ImportanceDecision) (event : Json) :
    annotate d (annotate d' event) = annotate d event := by
  cases event with
  | obj map =>
    have hkeys : (decisionFields d).map Prod.fst = (decisionFields d').map Prod.fst := rfl
    simp only [annotate, Json.insertFields_insertFields hkeys (decisionFields_nodup d)]
  | _ => rfl

@[simp] theorem isObject_annotate (d : ImportanceDecision) (event : Json) :
    (annotate d event).isObject = event.isObject := by
  cases event <;> rfl

/-- A pass leaves the fields it does not write alone. -/
theorem get?_annotate {d : ImportanceDecision} {key : String}
    (h : key ∉ (decisionFields d).map Prod.fst) (event : Json) :
    (annotate d event).get? key = event.get? key := by
  cases event with
  | obj map => exact Json.lookup_insertFields_of_notMem h
  | _ => rfl

/-- A pass writes the decision into every object. -/
theorem get?_annotate_of_mem {d : ImportanceDecision} {event : Json} (hobj : event.isObject = true)
    {f : String × Json} (h : f ∈ decisionFields d) : (annotate d event).get? f.1 = some f.2 := by
  cases event with
  | obj map => exact Json.lookup_insertFields (decisionFields_nodup d) h
  | _ => cases hobj

theorem topMetric_annotate (d : ImportanceDecision) (event : Json) {key : String}
    (h : key ∈ metricKeys) : topMetric (annotate d event) key = topMetric event key := by
  have hnot : key ∉ (decisionFields d).map Prod.fst := by
    rw [decisionFields_keys]
    simp only [metricKeys, List.mem_cons, List.not_mem_nil, or_false] at h
    rcases h with rfl | rfl | rfl | rfl | rfl | rfl <;> decide
  rw [topMetric, get?_annotate hnot, topMetric]

theorem restingScore_annotate (d : ImportanceDecision) (event : Json) :
    restingScore (annotate d event) = restingScore event := by
  have h := fun key (hkey : key ∈ metricKeys) => topMetric_annotate d event hkey
  simp only [metricKeys, List.forall_mem_cons] at h
  obtain ⟨hc, hu, hi, hr, hf, hfloor, -⟩ := h
  simp only [restingScore, weightedBy, hc, hu, hi, hr, hf, hfloor]

theorem scored_annotate {d : ImportanceDecision} {event : Json} (hobj : event.isObject = true)
    (h0 : 0 ≤ d.score) (h1 : d.score ≤ 1) : Scored (annotate d event) d.score where
  isObject := by rw [isObject_annotate, hobj]
  getScore := get?_annotate_of_mem (f := ("score", Json.ofRat d.score)) hobj (by simp [decisionFields])
  noMetric := by
    intro key hkey
    have himp : (annotate d event).get? "importance" = some (importanceJson d) :=
      get?_annotate_of_mem (f := ("importance", importanceJson d)) hobj (by simp [decisionFields])
    have hnot : key ∉ [("score", Json.ofRat d.score), ("priority", Json.ofInt d.priority),
        ("band", Json.str d.band), ("initiative_action", Json.str d.initiativeAction),
        ("initiative_repeat_after_sec", Json.ofInt d.initiativeRepeatAfterSec),
        ("initiative_max_messages", Json.ofInt d.initiativeMaxMessages)].map Prod.fst := by
      simp only [metricKeys, List.mem_cons, List.not_mem_nil, or_false] at hkey
      rcases hkey with rfl | rfl | rfl | rfl | rfl | rfl <;> simp
    have hget := Json.get?_ofFields_of_notMem hnot
    rw [importanceField, himp]
    exact hget
  nonneg := h0
  le_one := h1

theorem metricFromEvent_of_none {event : Json} {key : String}
    (h : importanceField event key = none) : metricFromEvent event key = topMetric event key := by
  unfold metricFromEvent topMetric
  rw [h]
  cases numericValue (event.get? key) <;> rfl

/-- **One more pass.**  What a further pass makes of a score it wrote itself. -/
theorem Scored.eventScore_eq {event : Json} {score : ℚ} (h : Scored event score) :
    eventScore .exact event = max (score * (8 / 10) + weightedBy (topMetric event) * (2 / 10))
      (floorValue (topMetric event "core_floor")) := by
  have hm := fun key (hkey : key ∈ metricKeys) => metricFromEvent_of_none (h.noMetric key hkey)
  simp only [metricKeys, List.forall_mem_cons] at hm
  obtain ⟨hc, hu, hi, hr, hf, hfloor, -⟩ := hm
  have hscore : numericValue (event.get? "score") = some score := by
    rw [h.getScore]
    simp [numericValue, Json.ofRat, Json.asF64, clamp01_of_unit h.nonneg h.le_one]
  rw [eventScore, scoreFromInput_eq]
  simp only [importanceInput, inheritedScore, hc, hu, hi, hr, hf, hfloor, hscore, Option.some_or, Option.map_some,
    clamp01_of_unit h.nonneg h.le_one, mixedScore, weightedBy]

theorem eventScore_nonneg (event : Json) : 0 ≤ eventScore .exact event := scoreFromInput_nonneg _

theorem eventScore_le_one (event : Json) : eventScore .exact event ≤ 1 := scoreFromInput_le_one _

theorem get?_of_not_isObject {event : Json} (h : event.isObject = false) (key : String) :
    event.get? key = none := by
  cases event with
  | obj map => cases h
  | _ => rfl

theorem topMetric_of_not_isObject {event : Json} (h : event.isObject = false) (key : String) :
    topMetric event key = none := by
  rw [topMetric, get?_of_not_isObject h]
  rfl

theorem weightedScore_none : weightedScore .exact none none none none none = 0 := by
  simp [weightedScore]

theorem restingScore_of_not_isObject {event : Json} (h : event.isObject = false) :
    restingScore event = 0 := by
  simp [restingScore, weightedBy, topMetric_of_not_isObject h, weightedScore_none, floorValue]

theorem eventScore_of_not_isObject {event : Json} (h : event.isObject = false) :
    eventScore .exact event = 0 := by
  have hm : ∀ key, metricFromEvent event key = none := by
    intro key
    have hfield : importanceField event key = none := by
      rw [importanceField, get?_of_not_isObject h]
      rfl
    rw [metricFromEvent_of_none hfield, topMetric_of_not_isObject h]
  rw [eventScore, scoreFromInput_eq]
  simp [importanceInput, inheritedScore, hm, get?_of_not_isObject h, importanceField, numericValue, mixedScore,
    weightedScore_none, floorValue]

/-! ## The pass in exact arithmetic -/

/-- The score an event shows at its top; zero where it shows none. -/
def shownScore (event : Json) : ℚ := (topMetric event "score").getD 0

theorem Scored.shownScore_eq {event : Json} {score : ℚ} (h : Scored event score) :
    shownScore event = score := by
  simp [shownScore, topMetric, h.getScore, numericValue, Json.ofRat, Json.asF64,
    clamp01_of_unit h.nonneg h.le_one]

section Pass

variable {τ : Type*} {threshold : ℚ} {rows : List (Row τ)}

/-- A rescored object is one the pass wrote its score into. -/
theorem scored_rescore {row : Row τ} (h : row.event.isObject = true) :
    Scored (rescore .exact threshold row).event (eventScore .exact row.event) :=
  scored_annotate h (eventScore_nonneg _) (eventScore_le_one _)

theorem shownScore_rescore (row : Row τ) :
    shownScore (rescore .exact threshold row).event = eventScore .exact row.event := by
  cases h : row.event.isObject with
  | true => exact (scored_rescore h).shownScore_eq
  | false =>
    have hobj : (rescore .exact threshold row).event.isObject = false := by rw [rescore, isObject_annotate, h]
    rw [shownScore, topMetric_of_not_isObject hobj, eventScore_of_not_isObject h]
    rfl

/-- The pass ranks the rescored rows by the score they show. -/
theorem prioritizeRows_eq_rank (threshold : ℚ) (rows : List (Row τ)) :
    prioritizeRows .exact threshold rows =
      rank (fun row => shownScore row.event) (rows.map (rescore .exact threshold)) := by
  have hkey : (fun row : Row τ => shownScore row.event) ∘ rescore .exact threshold =
      fun row => eventScore .exact row.event := funext shownScore_rescore
  rw [prioritizeRows_eq, rank_map, hkey]

end Pass

/-! ## When a second pass changes nothing -/

/-- An event whose first score is the one it rests at. -/
def Settled (event : Json) : Prop :=
  event.isObject = true →
    max (mixedScore (inheritedScore event) (weightedBy (metricFromEvent event)))
      (floorValue (metricFromEvent event "core_floor")) = restingScore event

theorem inheritedScore_map_clamp01 (event : Json) :
    (inheritedScore event).map clamp01 = inheritedScore event := by
  have h : ∀ {o o' : Option ℚ}, (∀ v, o = some v → clamp01 v = v) →
      (∀ v, o' = some v → clamp01 v = v) → ∀ v, o.or o' = some v → clamp01 v = v := by
    intro o o' ho ho' v hv
    cases o with
    | none => exact ho' v (by simpa using hv)
    | some w => exact ho v (by simpa using hv)
  have hall : ∀ v, inheritedScore event = some v → clamp01 v = v :=
    h (fun _ => clamp01_of_numericValue)
      (h (fun _ => clamp01_of_numericValue) fun _ => clamp01_of_numericValue)
  cases heq : inheritedScore event with
  | none => rfl
  | some v => rw [Option.map_some, hall v heq]

theorem eventScore_eq (event : Json) : eventScore .exact event =
    max (mixedScore (inheritedScore event) (weightedBy (metricFromEvent event)))
      (floorValue (metricFromEvent event "core_floor")) := by
  have h := scoreFromInput_eq (importanceInput event)
  rwa [show (importanceInput event).inheritedScore = inheritedScore event from rfl,
    inheritedScore_map_clamp01] at h

theorem settled_iff (event : Json) : Settled event ↔ eventScore .exact event = restingScore event := by
  rw [Settled, ← eventScore_eq]
  cases h : event.isObject with
  | true => simp
  | false => simp [eventScore_of_not_isObject h, restingScore_of_not_isObject h]

/-- A pass moves a score it wrote by at least a fifth towards the resting score. -/
theorem Scored.sub_restingScore_le {event : Json} {score : ℚ} (h : Scored event score) :
    |eventScore .exact event - restingScore event| ≤ 8 / 10 * |score - restingScore event| := by
  rw [h.eventScore_eq]
  have hfix : restingScore event = max (restingScore event * (8 / 10) +
      weightedBy (topMetric event) * (2 / 10)) (floorValue (topMetric event "core_floor")) := by
    rw [restingScore]
    rcases le_total (weightedBy (topMetric event)) (floorValue (topMetric event "core_floor"))
      with hle | hle
    · rw [max_eq_right hle, max_eq_right (by linarith)]
    · rw [max_eq_left hle, max_eq_left (by linarith)]
      ring
  calc |max (score * (8 / 10) + weightedBy (topMetric event) * (2 / 10))
          (floorValue (topMetric event "core_floor")) - restingScore event|
      = |max (score * (8 / 10) + weightedBy (topMetric event) * (2 / 10))
          (floorValue (topMetric event "core_floor")) -
        max (restingScore event * (8 / 10) + weightedBy (topMetric event) * (2 / 10))
          (floorValue (topMetric event "core_floor"))| := by rw [← hfix]
    _ ≤ |score * (8 / 10) + weightedBy (topMetric event) * (2 / 10) -
        (restingScore event * (8 / 10) + weightedBy (topMetric event) * (2 / 10))| :=
      abs_max_sub_max_le_abs _ _ _
    _ = |8 / 10 * (score - restingScore event)| := by congr 1; ring
    _ = 8 / 10 * |score - restingScore event| := by rw [abs_mul, abs_of_pos (by norm_num)]

/-- A decision is a function of the score and the threshold. -/
theorem importanceFromEvent_congr {event event' : Json} (h : eventScore .exact event = eventScore .exact event')
    (threshold : ℚ) : importanceFromEvent .exact event threshold = importanceFromEvent .exact event' threshold := by
  unfold eventScore at h
  simp only [importanceFromEvent, evaluateImportance, h]

section Fixed

variable {τ : Type*} {threshold : ℚ}

theorem restingScore_rescore (row : Row τ) :
    restingScore (rescore .exact threshold row).event = restingScore row.event := restingScore_annotate _ _

/-- A rescored row comes no further from its resting score by another pass. -/
theorem sub_restingScore_rescore_le (threshold : ℚ) (row : Row τ) :
    |eventScore .exact (rescore .exact threshold row).event - restingScore row.event| ≤
      8 / 10 * |eventScore .exact row.event - restingScore row.event| := by
  cases hobj : row.event.isObject with
  | true =>
    have hscored : Scored (rescore .exact threshold row).event (eventScore .exact row.event) := scored_rescore hobj
    have h := hscored.sub_restingScore_le
    rwa [restingScore_rescore] at h
  | false =>
    have hobj' : (rescore .exact threshold row).event.isObject = false := by
      rw [rescore, isObject_annotate, hobj]
    simp [eventScore_of_not_isObject hobj, eventScore_of_not_isObject hobj',
      restingScore_of_not_isObject hobj]

/-- Rescoring a settled row twice is rescoring it once. -/
theorem rescore_rescore {row : Row τ} (h : eventScore .exact row.event = restingScore row.event) :
    rescore .exact threshold (rescore .exact threshold row) = rescore .exact threshold row := by
  have hstay : eventScore .exact (rescore .exact threshold row).event = eventScore .exact row.event := by
    have hle := sub_restingScore_rescore_le threshold row
    rw [h, sub_self, abs_zero, mul_zero, ← h] at hle
    exact sub_eq_zero.mp (abs_nonpos_iff.mp hle)
  rw [rescore, importanceFromEvent_congr hstay]
  simp only [rescore, annotate_annotate]

/-- **Fixed passes.**  A second pass over the rows returns what the first returned
exactly when every event was settled to begin with. -/
theorem prioritizeRows_fixed_iff (threshold : ℚ) (rows : List (Row τ)) :
    prioritizeRows .exact threshold (prioritizeRows .exact threshold rows) = prioritizeRows .exact threshold rows ↔
      ∀ row ∈ rows, Settled row.event := by
  simp only [settled_iff]
  have hmem : ∀ row, row ∈ prioritizeRows .exact threshold rows ↔
      ∃ row' ∈ rows, rescore .exact threshold row' = row := by
    intro row
    rw [prioritizeRows_eq_rank, mem_rank, List.mem_map]
  constructor
  · intro hfixed
    -- The second pass shuffles the rows of the first, so no distance to rest can shrink.
    have hperm : ((prioritizeRows .exact threshold rows).map (rescore .exact threshold)).Perm
        (prioritizeRows .exact threshold rows) := by
      have h : (prioritizeRows .exact threshold (prioritizeRows .exact threshold rows)).Perm
          ((prioritizeRows .exact threshold rows).map (rescore .exact threshold)) := by
        rw [prioritizeRows_eq_rank threshold (prioritizeRows .exact threshold rows)]
        exact rank_perm
      rw [hfixed] at h
      exact h.symm
    intro row hrow
    have hstay := potential_eq_of_perm_map
      (φ := fun row : Row τ => |shownScore row.event - restingScore row.event|) hperm
      (by
        intro row' hrow'
        obtain ⟨row, -, rfl⟩ := (hmem row').mp hrow'
        have hle := sub_restingScore_rescore_le threshold row
        simp only [shownScore_rescore, restingScore_rescore]
        linarith [abs_nonneg (eventScore .exact row.event - restingScore row.event)])
      (rescore .exact threshold row) ((hmem _).mpr ⟨row, hrow, rfl⟩)
    simp only [shownScore_rescore, restingScore_rescore] at hstay
    have hle := sub_restingScore_rescore_le threshold row
    have hzero : |eventScore .exact row.event - restingScore row.event| ≤ 0 := by linarith
    exact sub_eq_zero.mp (abs_nonpos_iff.mp hzero)
  · intro hsettled
    have hid : (prioritizeRows .exact threshold rows).map (rescore .exact threshold) =
        prioritizeRows .exact threshold rows := by
      calc (prioritizeRows .exact threshold rows).map (rescore .exact threshold)
          = (prioritizeRows .exact threshold rows).map id := by
            apply List.map_congr_left
            intro row hrow
            obtain ⟨row', hrow', rfl⟩ := (hmem row).mp hrow
            exact rescore_rescore (hsettled row' hrow')
        _ = prioritizeRows .exact threshold rows := List.map_id _
    rw [prioritizeRows_eq_rank threshold (prioritizeRows .exact threshold rows), hid]
    have hranked : Ranked (fun row : Row τ => shownScore row.event) (prioritizeRows .exact threshold rows) := by
      rw [prioritizeRows_eq_rank]
      exact ranked_rank
    exact hranked.rank_eq

end Fixed

/-- A second call on its own answer returns that answer exactly when every event
was settled to begin with. -/
theorem prioritizeAttentionJson_fixed_iff (input : AttentionPriorityInput) :
    prioritizeAttentionJson .exact ((prioritizeAttentionJson .exact input).asInput .exact) =
      prioritizeAttentionJson .exact input ↔
      ∀ event ∈ input.events, Settled event := by
  have hfixed := prioritizeRows_fixed_iff
    (clamp01 (input.frontJumpThreshold.getD (defaultFrontJumpThreshold .exact)))
    (input.events.map (Row.mk · ()))
  generalize hthreshold : clamp01 (input.frontJumpThreshold.getD (defaultFrontJumpThreshold .exact)) =
    threshold at hfixed
  have hclamp : clamp01 threshold = threshold := by rw [← hthreshold, clamp01_clamp01]
  have hrows : ∀ rows : List (Row Unit), (rows.map Row.event).map (Row.mk · ()) = rows := by
    intro rows
    rw [List.map_map]
    exact List.map_id rows
  have hinj : ∀ rows rows' : List (Row Unit),
      rows.map Row.event = rows'.map Row.event ↔ rows = rows' := by
    intro rows rows'
    exact ⟨fun h => by rw [← hrows rows, h, hrows], fun h => by rw [h]⟩
  have hsettled : (∀ row ∈ input.events.map (Row.mk · ()), Settled row.event) ↔
      ∀ event ∈ input.events, Settled event := by simp
  have hread : ∀ events : List Json, events.map (Json.reread Floats.exact.reread) = events := by
    intro events
    exact (List.map_congr_left fun j _ => Floats.reread_exact j).trans (List.map_id _)
  rw [← hsettled, ← hfixed, ← hinj]
  simp only [prioritizeAttentionJson, AttentionPriority.asInput, hthreshold, Option.getD_some,
    Floats.exact_reread, hread, hclamp, hrows, AttentionPriority.mk.injEq, true_and]
  exact ⟨fun h => h.2, fun h => ⟨by simpa using congrArg List.length h, h⟩⟩

end Protheus.Initiative
