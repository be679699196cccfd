import Protheus.Decompose.Text
import Protheus.Json

/-!
`apply_governance` of `decompose.rs`.

Every row comes to a task with a lane, a block flag and its reasons; then, when too few of
more than two tasks are in the human lane, one task is moved there.  Which lane a row comes
to is read off the row (`laneOf`), so what the move makes of the share is a count over the
rows: `keepsHumanShare_iff`.  Shares are exact rationals.
-/

namespace Protheus.Decompose

open RustStd

/-! ## Reading a row -/

/-- `value.get(key).and_then(Value::as_str)`. -/
def text? (value : Json) (key : String) : Option String := (value.get? key).bind Json.asStr

/-- A field of a row, an empty object if it has none. -/
def part (row : Json) (key : String) : Json := (row.get? key).getD (.obj [])

/-- A cleaned text, with a default for a text that is missing or blank. -/
def textOr (value : Option String) (maxLen : ℕ) (default : String) : String :=
  let cleaned := cleanText (value.getD default) maxLen
  if cleaned = "" then default else cleaned

/-- A token, with a default for a text that has none. -/
def tokenOr (raw : String) (default : String) : String :=
  let token := normalizeToken raw 80
  if token = "" then default else token

/-- `collect_strings`. -/
def collectStrings (value : Option Json) (maxItems maxLen : ℕ) : List String :=
  (((((value.bind Json.asArray).getD []).filterMap Json.asStr).map (cleanText · maxLen)).filter
    (· ≠ "")).take maxItems

/-- `numeric_or_zero`. -/
def numericOrZero (value : Option Json) : ℚ := (value.bind Json.asF64).getD 0

def defaultLane : String := "autonomous_micro_agent"

def defaultStormLane : String := "storm_human_lane"

/-- `GovernanceApplyPolicy`. -/
structure GovernanceApplyPolicy where
  defaultLane : String := Decompose.defaultLane
  stormLane : String := defaultStormLane
  minStormShare : ℚ := 15 / 100
  blockOnConstitutionDeny : Bool := true

/-- `storm_lane`. -/
def GovernanceApplyPolicy.storm (policy : GovernanceApplyPolicy) : String :=
  tokenOr policy.stormLane defaultStormLane

/-- `default_lane`. -/
def GovernanceApplyPolicy.lane (policy : GovernanceApplyPolicy) : String :=
  tokenOr policy.defaultLane Decompose.defaultLane

/-- `source_task`. -/
def sourceTask (row : Json) : Json := (row.get? "task").getD .null

/-- `task_text`. -/
def taskText (row : Json) : String := cleanText ((text? (sourceTask row) "task_text").getD "") 1000

/-- The rows that come to a task. -/
def keeps (row : Json) : Bool := (sourceTask row).isObject && taskText row ≠ ""

def heroicClassification (row : Json) : String :=
  textOr (text? (part row "heroic") "classification") 80 "unknown"

def heroicDecision (row : Json) : String := textOr (text? (part row "heroic") "decision") 80 "unknown"

def heroicBlocked (row : Json) : Bool :=
  (((part row "heroic").get? "blocked").bind Json.asBool).getD false

def heroicReasonCodes (row : Json) : List String :=
  collectStrings ((part row "heroic").get? "reason_codes") 8 120

def constitutionDecision (row : Json) : String :=
  textOr (text? (part row "constitution") "decision") 40 "ALLOW"

def constitutionRisk (row : Json) : String := textOr (text? (part row "constitution") "risk") 40 "low"

def constitutionReasons (row : Json) : List String :=
  collectStrings ((part row "constitution").get? "reasons") 8 120

/-- `suggested_lane`. -/
def suggestedLane (policy : GovernanceApplyPolicy) (row : Json) : String :=
  let rowLane := (text? row "suggested_lane").getD ""
  let taskLane := (((sourceTask row).get? "route").bind (text? · "lane")).getD ""
  tokenOr (if trim rowLane = "" then taskLane else rowLane) policy.lane

/-- `lane`. -/
def laneOf (policy : GovernanceApplyPolicy) (row : Json) : String :=
  if constitutionDecision row = "MANUAL" then policy.storm else suggestedLane policy row

def blockedByConstitution (policy : GovernanceApplyPolicy) (row : Json) : Bool :=
  policy.blockOnConstitutionDeny && constitutionDecision row = "DENY"

/-- `blocked`. -/
def blockedOf (policy : GovernanceApplyPolicy) (row : Json) : Bool :=
  heroicBlocked row || blockedByConstitution policy row

/-- `requires_manual_review`. -/
def manualOf (policy : GovernanceApplyPolicy) (row : Json) : Bool :=
  constitutionDecision row = "MANUAL" || laneOf policy row = policy.storm

/-- `block_reasons`. -/
def blockReasons (policy : GovernanceApplyPolicy) (row : Json) : List String :=
  (if heroicBlocked row then ["heroic_echo_blocked"] else []) ++
    if blockedByConstitution policy row then ["constitution_denied"] else []

/-- A list of texts as JSON. -/
def texts (values : List String) : Json := .arr (values.map .str)

/-- `duality_block`. -/
def dualityBlock (row : Json) : Json :=
  let duality := part row "duality"
  let adjustment := cleanText ((text? duality "recommended_adjustment").getD "") 120
  Json.ofFields [
    ("enabled", .bool (((duality.get? "enabled").bind Json.asBool).getD false)),
    ("score_trit", Json.ofRat (numericOrZero (duality.get? "score_trit"))),
    ("score_label", .str (textOr (text? duality "score_label") 40 "unknown")),
    ("zero_point_harmony_potential",
      Json.ofRat (numericOrZero (duality.get? "zero_point_harmony_potential"))),
    ("recommended_adjustment", if adjustment = "" then .null else .str adjustment),
    ("indicator", ((duality.get? "indicator").filter Json.isObject).getD
      (Json.ofFields [("subtle_hint", .str "duality_signal_absent")]))]

/-! ## Writing a task -/

/-- `ensure_object`, of an entry that may be missing. -/
def ensureObject : Option Json → Json
  | some (.obj fields) => .obj fields
  | _ => .obj []

/-- What is done to an entry of an object. -/
def within (value : Json) (key : String) (change : Json → Json) : Json :=
  value.setField key (change (ensureObject (value.get? key)))

/-- `governance.constitution`. -/
def constitutionBlock (row : Json) : Json :=
  Json.ofFields [
    ("decision", .str (constitutionDecision row)),
    ("risk", .str (constitutionRisk row)),
    ("reasons", texts (constitutionReasons row))]

/-- `governance`. -/
def governanceBlock (policy : GovernanceApplyPolicy) (row : Json) : Json :=
  Json.ofFields [
    ("blocked", .bool (blockedOf policy row)),
    ("block_reasons", texts (blockReasons policy row)),
    ("heroic_echo", Json.ofFields [
      ("classification", .str (heroicClassification row)),
      ("decision", .str (heroicDecision row)),
      ("blocked", .bool (heroicBlocked row)),
      ("reason_codes", texts (heroicReasonCodes row))]),
    ("constitution", constitutionBlock row)]

/-- `profile.governance`. -/
def profileGovernance (row : Json) : Json :=
  Json.ofFields [
    ("heroic_echo", Json.ofFields [
      ("classification", .str (heroicClassification row)),
      ("decision", .str (heroicDecision row)),
      ("reason_codes", texts (heroicReasonCodes row))]),
    ("constitution", constitutionBlock row)]

def setRoute (policy : GovernanceApplyPolicy) (row route : Json) : Json :=
  ((route.setField "lane" (.str (laneOf policy row))).setField "blocked"
    (.bool (blockedOf policy row))).setField "requires_manual_review" (.bool (manualOf policy row))

def setProfile (policy : GovernanceApplyPolicy) (row profile : Json) : Json :=
  let profile := within profile "routing" fun routing =>
    (routing.setField "preferred_lane" (.str (laneOf policy row))).setField "requires_manual_review"
      (.bool (manualOf policy row))
  let profile := within profile "provenance" fun provenance =>
    let provenance := provenance.setField "confidence"
      (Json.ofRat (if blockedOf policy row then 55 / 100 else 92 / 100))
    within provenance "evidence" fun evidence =>
      (evidence.setField "heroic_echo_decision" (.str (heroicDecision row))).setField
        "constitution_decision" (.str (constitutionDecision row))
  (profile.setField "governance" (profileGovernance row)).setField "duality" (dualityBlock row)

/-- The task of a row. -/
def governed (policy : GovernanceApplyPolicy) (row : Json) : Json :=
  let task := within (sourceTask row) "route" (setRoute policy row)
  let task := task.setField "governance" (governanceBlock policy row)
  let task := task.setField "duality" (dualityBlock row)
  within task "profile" (setProfile policy row)

/-- The tasks before the share is looked at. -/
def governedTasks (policy : GovernanceApplyPolicy) (rows : List Json) : List Json :=
  (rows.filter keeps).map (governed policy)

/-! ## The share -/

/-- `task.route.lane`, if it is a text. -/
def routeLane (task : Json) : Option String := (task.get? "route").bind (text? · "lane")

/-- `task.governance.constitution.decision`, if it is a text. -/
def taskDecision (task : Json) : Option String :=
  ((task.get? "governance").bind (·.get? "constitution")).bind (text? · "decision")

/-- A task that the constitution does not deny. -/
def notDenied (task : Json) : Bool := taskDecision task ≠ some "DENY"

/-- A task in the human lane. -/
def inStorm (storm : String) (task : Json) : Bool := routeLane task = some storm

/-- What is done to the task that is moved. -/
def moveToStorm (storm : String) (task : Json) : Json :=
  let task := within task "route" fun route =>
    (route.setField "lane" (.str storm)).setField "requires_manual_review" (.bool true)
  within task "profile" fun profile =>
    within profile "routing" fun routing =>
      (routing.setField "preferred_lane" (.str storm)).setField "requires_manual_review" (.bool true)

def changeFirst (kind : Json → Bool) (change : Json → Json) : List Json → List Json
  | [] => []
  | task :: rest => if kind task then change task :: rest else task :: changeFirst kind change rest

/-- `storm_share`. -/
def stormShare (storm : String) (tasks : List Json) : ℚ :=
  if tasks.isEmpty then 0 else (tasks.countP (inStorm storm) : ℚ) / tasks.length

/-- The end of `apply_governance`. -/
def rebalance (policy : GovernanceApplyPolicy) (tasks : List Json) : List Json :=
  if 2 < tasks.length ∧ stormShare policy.storm tasks < clamp policy.minStormShare 0 1 then
    changeFirst notDenied (moveToStorm policy.storm) tasks
  else tasks

/-- `apply_governance`. -/
def applyGovernance (policy : GovernanceApplyPolicy) (rows : List Json) : List Json :=
  rebalance policy (governedTasks policy rows)

/-! ## What a task says -/

/-- `task.route[key]`. -/
def routeField (task : Json) (key : String) : Option Json := (task.get? "route").bind (·.get? key)

/-- `task.governance[key]`. -/
def governanceField (task : Json) (key : String) : Option Json :=
  (task.get? "governance").bind (·.get? key)

/-- A task that is flagged for manual review. -/
def flagged (task : Json) : Bool := routeField task "requires_manual_review" = some (.bool true)

section Tasks

variable {policy : GovernanceApplyPolicy} {row task value : Json} {key other storm : String}
  {change : Json → Json}

@[simp] theorem isObject_ensureObject (value : Option Json) : (ensureObject value).isObject = true := by
  unfold ensureObject
  split <;> rfl

theorem ensureObject_of_isObject (h : value.isObject = true) : ensureObject (some value) = value := by
  cases value with
  | obj fields => rfl
  | _ => cases h

@[simp] theorem isObject_within : (within value key change).isObject = value.isObject :=
  Json.isObject_setField

theorem get?_within_ne (h : other ≠ key) : (within value key change).get? other = value.get? other :=
  Json.get?_setField_ne h

theorem get?_within_same (h : value.isObject = true) :
    (within value key change).get? key = some (change (ensureObject (value.get? key))) :=
  Json.get?_setField_same h

theorem setRoute_spec (policy : GovernanceApplyPolicy) (row : Json) {route : Json} (h : route.isObject = true) :
    (setRoute policy row route).isObject = true ∧
      (setRoute policy row route).get? "lane" = some (.str (laneOf policy row)) ∧
      (setRoute policy row route).get? "blocked" = some (.bool (blockedOf policy row)) ∧
      (setRoute policy row route).get? "requires_manual_review" = some (.bool (manualOf policy row)) := by
  unfold setRoute
  refine ⟨by simpa using h, ?_, ?_, ?_⟩
  · rw [Json.get?_setField_ne (by decide), Json.get?_setField_ne (by decide), Json.get?_setField_same h]
  · rw [Json.get?_setField_ne (by decide), Json.get?_setField_same (by simpa using h)]
  · rw [Json.get?_setField_same (by simpa using h)]

/-- What the task of a row says. -/
structure Says (task : Json) (lane : String) (blocked manual : Bool) (governance : Json) : Prop where
  isObject : task.isObject = true
  route : ∃ route, task.get? "route" = some route ∧ route.isObject = true
  lane : routeField task "lane" = some (.str lane)
  blocked : routeField task "blocked" = some (.bool blocked)
  manual : routeField task "requires_manual_review" = some (.bool manual)
  governance : task.get? "governance" = some governance

/-- **What the task of a row says.** -/
theorem says_governed (hrow : keeps row = true) : Says (governed policy row) (laneOf policy row)
    (blockedOf policy row) (manualOf policy row) (governanceBlock policy row) := by
  have hsource : (sourceTask row).isObject = true := by
    rw [keeps, Bool.and_eq_true] at hrow
    exact hrow.1
  have hroute : (governed policy row).get? "route" =
      some (setRoute policy row (ensureObject ((sourceTask row).get? "route"))) := by
    rw [governed, get?_within_ne (by decide), Json.get?_setField_ne (by decide),
      Json.get?_setField_ne (by decide), get?_within_same hsource]
  obtain ⟨hobject, hlane, hblocked, hmanual⟩ :=
    setRoute_spec policy row (isObject_ensureObject ((sourceTask row).get? "route"))
  have hfield (key : String) : routeField (governed policy row) key =
      (setRoute policy row (ensureObject ((sourceTask row).get? "route"))).get? key := by
    rw [routeField, hroute, Option.bind_some]
  refine ⟨?_, ⟨_, hroute, hobject⟩, (hfield _).trans hlane, (hfield _).trans hblocked,
    (hfield _).trans hmanual, ?_⟩
  · rw [governed]
    simpa using hsource
  · rw [governed, get?_within_ne (by decide), Json.get?_setField_ne (by decide),
      Json.get?_setField_same (by simpa using hsource)]

/-- **The task that is moved says the same but for its lane and its flag.** -/
theorem Says.moveToStorm {lane : String} {blocked manual : Bool} {governance : Json}
    (h : Says task lane blocked manual governance) (storm : String) :
    Says (moveToStorm storm task) storm blocked true governance := by
  obtain ⟨route, hroute, hobject⟩ := h.route
  have hmoved : (Decompose.moveToStorm storm task).get? "route" =
      some ((route.setField "lane" (.str storm)).setField "requires_manual_review" (.bool true)) := by
    rw [Decompose.moveToStorm, get?_within_ne (by decide), get?_within_same h.isObject, hroute,
      ensureObject_of_isObject hobject]
  have hfield (key : String) : routeField (Decompose.moveToStorm storm task) key =
      ((route.setField "lane" (.str storm)).setField "requires_manual_review" (.bool true)).get? key := by
    rw [routeField, hmoved, Option.bind_some]
  refine ⟨?_, ⟨_, hmoved, by simpa using hobject⟩, ?_, ?_, ?_, ?_⟩
  · rw [Decompose.moveToStorm]
    simpa using h.isObject
  · rw [hfield, Json.get?_setField_ne (by decide), Json.get?_setField_same hobject]
  · rw [hfield, Json.get?_setField_ne (by decide), Json.get?_setField_ne (by decide)]
    have hblocked := h.blocked
    rwa [routeField, hroute, Option.bind_some] at hblocked
  · rw [hfield, Json.get?_setField_same (by simpa using hobject)]
  · rw [Decompose.moveToStorm, get?_within_ne (by decide), get?_within_ne (by decide)]
    exact h.governance

variable {lane : String} {blocked manual : Bool} {governance : Json}

theorem Says.inStorm_iff (h : Says task lane blocked manual governance) :
    inStorm storm task = true ↔ lane = storm := by
  have hlane : routeLane task = some lane := by
    have hfield := h.lane
    obtain ⟨route, hroute, -⟩ := h.route
    rw [routeField, hroute, Option.bind_some] at hfield
    rw [routeLane, hroute, Option.bind_some, text?, hfield]
    rfl
  rw [inStorm, hlane, decide_eq_true_eq, Option.some.injEq]

theorem Says.flagged_eq (h : Says task lane blocked manual governance) : flagged task = manual := by
  rw [flagged, h.manual]
  simp

/-- The task of a row is not denied if the row is not. -/
theorem notDenied_governed (hrow : keeps row = true) :
    notDenied (governed policy row) = decide (constitutionDecision row ≠ "DENY") := by
  have hconstitution : (governanceBlock policy row).get? "constitution" = some (constitutionBlock row) :=
    Json.get?_ofFields_mem (by simp) (by simp)
  have hread : (constitutionBlock row).get? "decision" = some (.str (constitutionDecision row)) :=
    Json.get?_ofFields_mem (by simp) (by simp)
  have hdecision : taskDecision (governed policy row) = some (constitutionDecision row) := by
    rw [taskDecision, (says_governed hrow).governance, Option.bind_some, hconstitution, Option.bind_some,
      text?, hread]
    rfl
  rw [notDenied, hdecision]
  simp

end Tasks

/-! ## The move -/

section Move

variable {kind : Json → Bool} {change : Json → Json} {counted : Json → Bool}

/-- A change that makes a task count adds one, if it did not count before. -/
theorem countP_changeFirst : ∀ {tasks : List Json}, (∀ task ∈ tasks, counted (change task) = true) →
    (changeFirst kind change tasks).countP counted = tasks.countP counted +
      if (tasks.find? kind).any (!counted ·) then 1 else 0
  | [], _ => rfl
  | task :: rest, hcounted => by
    have hfirst := hcounted task List.mem_cons_self
    rw [changeFirst, List.find?_cons]
    cases hkind : kind task with
    | true =>
      rw [if_pos rfl, List.countP_cons_of_pos hfirst]
      cases hold : counted task with
      | true => simp [hold]
      | false => simp [hold]
    | false =>
      rw [if_neg Bool.false_ne_true, List.countP_cons, List.countP_cons,
        countP_changeFirst fun other hother => hcounted other (List.mem_cons_of_mem _ hother)]
      dsimp only
      omega

theorem forall₂_changeFirst {R : Json → Json → Prop} : ∀ {tasks : List Json},
    (∀ task ∈ tasks, R task task ∧ R task (change task)) →
      List.Forall₂ R tasks (changeFirst kind change tasks)
  | [], _ => .nil
  | task :: rest, hR => by
    have hrest : ∀ other ∈ rest, R other other ∧ R other (change other) :=
      fun other hother => hR other (List.mem_cons_of_mem _ hother)
    rw [changeFirst]
    split
    · refine .cons (hR task List.mem_cons_self).2 (List.forall₂_same.mpr fun other hother => ?_)
      exact (hrest other hother).1
    · exact .cons (hR task List.mem_cons_self).1 (forall₂_changeFirst hrest)

end Move

/-! ## The guarantee -/

section Guarantee

variable {policy : GovernanceApplyPolicy} {rows : List Json}

/-- A task that a person has to look at. -/
def forPeople (storm : String) (task : Json) : Bool := inStorm storm task && flagged task

/-- What the move leaves of a task: its place in the human lane, its block flag and its reasons. -/
structure Kept (storm : String) (before after : Json) : Prop where
  lane : inStorm storm before = true → inStorm storm after = true
  blocked : routeField after "blocked" = routeField before "blocked"
  governance : after.get? "governance" = before.get? "governance"

/-- The human share: where enough of more than two tasks are not denied, as large a share of
all as the policy asks for is in the human lane and flagged; and the move keeps what it should. -/
structure KeepsHumanShare (policy : GovernanceApplyPolicy) (rows : List Json) : Prop where
  share : 2 < (applyGovernance policy rows).length →
    ⌈policy.minStormShare * (applyGovernance policy rows).length⌉ ≤
      (applyGovernance policy rows).countP notDenied →
    policy.minStormShare * (applyGovernance policy rows).length ≤
      (applyGovernance policy rows).countP (forPeople policy.storm)
  kept : List.Forall₂ (Kept policy.storm) (governedTasks policy rows) (applyGovernance policy rows)

def rowNotDenied (row : Json) : Bool := constitutionDecision row ≠ "DENY"

/-- A row that comes to the human lane by itself. -/
def rowInStorm (policy : GovernanceApplyPolicy) (row : Json) : Bool := laneOf policy row = policy.storm

/-- When the rows come to the share: as many come to the human lane as it takes, or all but one and
the first row that is not denied is not among them. -/
def RowsGiveShare (policy : GovernanceApplyPolicy) (rows : List Json) : Prop :=
  2 < (rows.filter keeps).length →
  ⌈policy.minStormShare * (rows.filter keeps).length⌉ ≤ (rows.filter keeps).countP rowNotDenied →
  policy.minStormShare * (rows.filter keeps).length ≤ ((rows.filter keeps).countP (rowInStorm policy) +
    if ((rows.filter keeps).find? rowNotDenied).any (!rowInStorm policy ·) then 1 else 0 : ℕ)

theorem says_of_mem {task : Json} (h : task ∈ governedTasks policy rows) :
    ∃ row, keeps row = true ∧ task = governed policy row ∧ Says task (laneOf policy row)
      (blockedOf policy row) (manualOf policy row) (governanceBlock policy row) := by
  obtain ⟨row, hrow, rfl⟩ := List.mem_map.mp h
  exact ⟨row, (List.mem_filter.mp hrow).2, rfl, says_governed (List.mem_filter.mp hrow).2⟩

theorem kept_rebalance (policy : GovernanceApplyPolicy) (rows : List Json) :
    List.Forall₂ (Kept policy.storm) (governedTasks policy rows) (applyGovernance policy rows) := by
  have hself (task : Json) : Kept policy.storm task task := ⟨id, rfl, rfl⟩
  rw [applyGovernance, rebalance]
  split
  · refine forall₂_changeFirst fun task htask => ⟨hself task, ?_⟩
    obtain ⟨row, -, -, htold⟩ := says_of_mem htask
    have hmoved := htold.moveToStorm policy.storm
    refine ⟨fun _ => hmoved.inStorm_iff.mpr rfl, ?_, ?_⟩
    · rw [hmoved.blocked, htold.blocked]
    · rw [hmoved.governance, htold.governance]
  · exact List.forall₂_same.mpr fun task _ => hself task

/-- What holds of a task where something else holds of its row, counted. -/
theorem countP_governedTasks {counted : Json → Bool} {ofRow : Json → Bool}
    (h : ∀ row, keeps row = true → counted (governed policy row) = ofRow row) :
    (governedTasks policy rows).countP counted = (rows.filter keeps).countP ofRow := by
  rw [governedTasks, List.countP_map]
  exact List.countP_congr fun row hrow => by simp [h row (List.mem_filter.mp hrow).2]

theorem find?_governedTasks {kind counted ofRow rowCounted : Json → Bool}
    (hkind : ∀ row, keeps row = true → kind (governed policy row) = ofRow row)
    (hcounted : ∀ row, keeps row = true → counted (governed policy row) = rowCounted row) :
    ((governedTasks policy rows).find? kind).any (!counted ·) =
      ((rows.filter keeps).find? ofRow).any (!rowCounted ·) := by
  rw [governedTasks]
  have hrows : ∀ row ∈ rows.filter keeps, keeps row = true := fun row hrow => (List.mem_filter.mp hrow).2
  generalize rows.filter keeps = kept at hrows
  induction kept with
  | nil => rfl
  | cons row kept ih =>
    have hrow := hrows row List.mem_cons_self
    rw [List.map_cons, List.find?_cons, List.find?_cons, hkind row hrow]
    cases ofRow row with
    | true => simp [hcounted row hrow]
    | false => exact ih fun other hother => hrows other (List.mem_cons_of_mem _ hother)

theorem inStorm_governed {row : Json} (hrow : keeps row = true) :
    inStorm policy.storm (governed policy row) = rowInStorm policy row := by
  rw [Bool.eq_iff_iff, (says_governed hrow).inStorm_iff, rowInStorm, decide_eq_true_eq]

/-- What comes to the human lane by itself is flagged. -/
theorem forPeople_governed {row : Json} (hrow : keeps row = true) :
    forPeople policy.storm (governed policy row) = rowInStorm policy row := by
  rw [forPeople, inStorm_governed hrow, (says_governed hrow).flagged_eq, manualOf, rowInStorm]
  cases hlane : decide (laneOf policy row = policy.storm) with
  | true => simp
  | false => rfl

theorem length_applyGovernance (policy : GovernanceApplyPolicy) (rows : List Json) :
    (applyGovernance policy rows).length = (rows.filter keeps).length := by
  rw [← (kept_rebalance policy rows).length_eq, governedTasks, List.length_map]

/-- Governance denies what the rows deny. -/
theorem countP_notDenied (policy : GovernanceApplyPolicy) (rows : List Json) :
    (applyGovernance policy rows).countP notDenied = (rows.filter keeps).countP rowNotDenied := by
  have hsame : (applyGovernance policy rows).countP notDenied =
      (governedTasks policy rows).countP notDenied := by
    have hkept := kept_rebalance policy rows
    generalize governedTasks policy rows = before at hkept
    generalize applyGovernance policy rows = after at hkept
    induction hkept with
    | nil => rfl
    | cons hfirst _ ih =>
      have heq := hfirst.governance
      rw [List.countP_cons, List.countP_cons, ih, notDenied, notDenied, taskDecision, taskDecision, heq]
  rw [hsame]
  exact countP_governedTasks fun row hrow => notDenied_governed hrow

/-- How many tasks come to people. -/
theorem countP_forPeople (policy : GovernanceApplyPolicy) (rows : List Json) :
    (applyGovernance policy rows).countP (forPeople policy.storm) =
      (rows.filter keeps).countP (rowInStorm policy) +
        if 2 < (rows.filter keeps).length ∧
            stormShare policy.storm (governedTasks policy rows) < clamp policy.minStormShare 0 1 ∧
            ((rows.filter keeps).find? rowNotDenied).any (!rowInStorm policy ·) then 1 else 0 := by
  have hcount : (governedTasks policy rows).countP (forPeople policy.storm) =
      (rows.filter keeps).countP (rowInStorm policy) :=
    countP_governedTasks fun row hrow => forPeople_governed hrow
  have hlength : (governedTasks policy rows).length = (rows.filter keeps).length := List.length_map _
  rw [applyGovernance, rebalance, hlength]
  by_cases hmove : 2 < (rows.filter keeps).length ∧
      stormShare policy.storm (governedTasks policy rows) < clamp policy.minStormShare 0 1
  · have hmoved : ∀ task ∈ governedTasks policy rows,
        forPeople policy.storm (moveToStorm policy.storm task) = true := by
      intro task htask
      obtain ⟨row, -, -, htold⟩ := says_of_mem htask
      have htold := htold.moveToStorm policy.storm
      rw [forPeople, htold.inStorm_iff.mpr rfl, htold.flagged_eq]
      rfl
    rw [if_pos hmove, countP_changeFirst hmoved, hcount,
      find?_governedTasks (fun row hrow => notDenied_governed hrow) fun row hrow => forPeople_governed hrow]
    simp only [hmove.1, hmove.2, true_and]
    rfl
  · rw [if_neg hmove, hcount, if_neg fun h => hmove ⟨h.1, h.2.1⟩, add_zero]

theorem le_clamp {q : ℚ} (h : q ≤ 1) : q ≤ clamp q 0 1 := by
  unfold clamp
  split
  · rename_i hneg
    exact hneg.le
  · rw [if_neg (not_lt.mpr h)]

/-- **When governance guarantees the human share.** -/
theorem keepsHumanShare_iff (policy : GovernanceApplyPolicy) (rows : List Json) :
    KeepsHumanShare policy rows ↔ RowsGiveShare policy rows := by
  have hlength := length_applyGovernance policy rows
  have hcount := countP_forPeople policy rows
  have hshare (hmany : 2 < (rows.filter keeps).length) : stormShare policy.storm (governedTasks policy rows) =
      ((rows.filter keeps).countP (rowInStorm policy) : ℚ) / (rows.filter keeps).length := by
    have hbefore : (governedTasks policy rows).length = (rows.filter keeps).length := List.length_map _
    have hne : ¬(governedTasks policy rows).isEmpty = true := by
      intro hempty
      rw [List.isEmpty_iff.mp hempty] at hbefore
      rw [← hbefore] at hmany
      exact Nat.not_lt_zero _ hmany
    rw [stormShare, if_neg hne, hbefore, countP_governedTasks fun row hrow => inStorm_governed hrow]
  have hmost : (rows.filter keeps).countP rowNotDenied ≤ (rows.filter keeps).length := List.countP_le_length
  constructor
  · intro hkeeps hmany henough
    have hmet := hkeeps.share (hlength ▸ hmany) (by rw [hlength, countP_notDenied]; exact henough)
    rw [hlength, hcount] at hmet
    refine hmet.trans (Nat.cast_le.mpr (Nat.add_le_add_left ?_ _))
    split
    · rename_i hmove
      rw [if_pos hmove.2.2]
    · exact Nat.zero_le _
  · refine fun hgives => ⟨fun hmany henough => ?_, kept_rebalance policy rows⟩
    rw [hlength] at hmany henough
    rw [countP_notDenied] at henough
    have hmet := hgives hmany henough
    rw [hlength, hcount]
    have hpos : (0 : ℚ) < (rows.filter keeps).length := by exact_mod_cast Nat.zero_lt_of_lt hmany
    have hunit : policy.minStormShare ≤ 1 := by
      have hceil := Int.ceil_le.mp (henough.trans (Int.ofNat_le.mpr hmost))
      exact le_of_mul_le_mul_right (by simpa using hceil) hpos
    by_cases hfew : stormShare policy.storm (governedTasks policy rows) < clamp policy.minStormShare 0 1
    · refine hmet.trans_eq ?_
      simp only [hmany, hfew, true_and]
    · -- nothing moves, because the share is reached already
      have hreached := (le_clamp hunit).trans (not_lt.mp hfew)
      rw [hshare hmany, le_div_iff₀ hpos] at hreached
      refine hreached.trans ?_
      exact Nat.cast_le.mpr (Nat.le_add_right _ _)

/-- A row of a task for the autonomous lane. -/
def plainRow (text : String) : Json :=
  Json.ofFields [("suggested_lane", .str defaultLane), ("task", Json.ofFields [("task_text", .str text)])]

/-- Of three tasks one is moved where the share asks for two. -/
theorem one_of_three_moved :
    let policy : GovernanceApplyPolicy := { minStormShare := 34 / 100 }
    let rows := [plainRow "a", plainRow "b", plainRow "c"]
    (applyGovernance policy rows).map routeLane =
      [some defaultStormLane, some defaultLane, some defaultLane] ∧ ¬KeepsHumanShare policy rows := by
  intro policy rows
  refine ⟨by decide +kernel, fun hkeeps => ?_⟩
  have hlength : (applyGovernance policy rows).length = 3 := by decide +kernel
  have hdenied : (applyGovernance policy rows).countP notDenied = 3 := by decide +kernel
  have hstorm : (applyGovernance policy rows).countP (forPeople policy.storm) = 1 := by decide +kernel
  have hshare := hkeeps.share (by omega) (by rw [hlength, hdenied]; decide +kernel)
  rw [hlength, hstorm] at hshare
  norm_num [policy] at hshare

end Guarantee

end Protheus.Decompose
