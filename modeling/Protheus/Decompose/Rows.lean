import Protheus.Decompose.Governance

/-!
`build_queue_rows` and `build_dispatch_rows` of `decompose.rs`, on the tasks that
`apply_governance` returns.

The queue compares the lane of a task with the name of the human lane as it is given; the
dispatch compares two tokens.  A lane that governance gives is a token (`isToken_lane`),
so the two agree where no lane is cut and the name is a token itself, or where it does not
matter: `rowsAgree_iff`.
-/

namespace Protheus.Decompose

/-! ## The builders -/

/-- `QueueRowsRequest`. -/
structure QueueRowsRequest where
  runId : String := ""
  goalId : String := ""
  objectiveId : Option String := none
  shadowOnly : Bool := false
  passportId : Option String := none
  stormLane : String := defaultStormLane
  tasks : List Json := []

def defaultAutonomousExecutor : String := "universal_execution_primitive"

def defaultStormExecutor : String := "storm_human_lane"

/-- `DispatchRowsRequest`. -/
structure DispatchRowsRequest where
  runId : String := ""
  goalId : String := ""
  objectiveId : Option String := none
  shadowOnly : Bool := false
  applyExecuted : Bool := false
  passportId : Option String := none
  stormLane : String := defaultStormLane
  autonomousExecutor : String := defaultAutonomousExecutor
  stormExecutor : String := defaultStormExecutor
  tasks : List Json := []

/-- An optional text as JSON. -/
def optional (value : Option String) : Json := (value.map Json.str).getD .null

/-- A field as it stands, `null` if it is missing. -/
def orNull (task : Json) (key : String) : Json := (task.get? key).getD .null

/-- `duality_indicator_for_task`. -/
def dualityIndicatorForTask (task : Json) : Json :=
  ((task.get? "duality").bind (·.get? "indicator")).getD
    (Json.ofFields [("subtle_hint", .str "duality_signal_absent")])

/-- `attribution_for_task`. -/
def attributionForTask (task : Json) : Json :=
  ((task.get? "profile").bind (·.get? "attribution")).getD (.obj [])

/-- `lane` of a queue row. -/
def queueLane (task : Json) : String := (routeLane task).getD "unknown"

def routeFlag (task : Json) (key : String) : Bool := ((routeField task key).bind Json.asBool).getD false

/-- `weaver_row`. -/
def weaverRow (req : QueueRowsRequest) (task : Json) : Json :=
  Json.ofFields [
    ("type", .str "task_micro_route_candidate"),
    ("run_id", .str req.runId),
    ("goal_id", .str req.goalId),
    ("objective_id", optional req.objectiveId),
    ("micro_task_id", orNull task "micro_task_id"),
    ("profile_id", orNull task "profile_id"),
    ("lane", .str (queueLane task)),
    ("parallel_group", Json.ofInt (((routeField task "parallel_group").bind Json.asI64).getD 0)),
    ("parallel_priority", Json.ofRat (((routeField task "parallel_priority").bind Json.asF64).getD 0)),
    ("blocked", .bool (routeFlag task "blocked")),
    ("requires_manual_review", .bool (routeFlag task "requires_manual_review")),
    ("shadow_only", .bool req.shadowOnly),
    ("passport_id", optional req.passportId),
    ("duality_indicator", dualityIndicatorForTask task),
    ("attribution", attributionForTask task)]

/-- `storm_row`. -/
def stormRow (req : QueueRowsRequest) (task : Json) : Json :=
  Json.ofFields [
    ("type", .str "storm_micro_task_offer"),
    ("run_id", .str req.runId),
    ("goal_id", .str req.goalId),
    ("objective_id", optional req.objectiveId),
    ("micro_task_id", orNull task "micro_task_id"),
    ("title", orNull task "title"),
    ("task_text", orNull task "task_text"),
    ("estimated_minutes", orNull task "estimated_minutes"),
    ("success_criteria", (task.get? "success_criteria").getD (.arr [])),
    ("profile_id", orNull task "profile_id"),
    ("shadow_only", .bool req.shadowOnly),
    ("passport_id", optional req.passportId),
    ("duality_indicator", dualityIndicatorForTask task)]

/-- What makes a storm row. -/
def offered (req : QueueRowsRequest) (task : Json) : Bool :=
  queueLane task = req.stormLane && !routeFlag task "blocked"

/-- `build_queue_rows`: the weaver rows and the storm rows. -/
def buildQueueRows (req : QueueRowsRequest) : List Json × List Json :=
  (req.tasks.map (weaverRow req), (req.tasks.filter (offered req)).map (stormRow req))

/-- `lane` of a dispatch row. -/
def dispatchLane (task : Json) : String := tokenOr ((routeLane task).getD "unknown") "unknown"

/-- `blocked` of a dispatch row. -/
def dispatchBlocked (task : Json) : Bool :=
  ((governanceField task "blocked").bind Json.asBool).getD false

/-- `storm_executor`. -/
def DispatchRowsRequest.storm (req : DispatchRowsRequest) : String :=
  tokenOr req.stormExecutor defaultStormExecutor

/-- `autonomous_executor`. -/
def DispatchRowsRequest.autonomous (req : DispatchRowsRequest) : String :=
  tokenOr req.autonomousExecutor defaultAutonomousExecutor

/-- `executor`. -/
def DispatchRowsRequest.executor (req : DispatchRowsRequest) (task : Json) : String :=
  if dispatchLane task = tokenOr req.stormLane defaultStormLane then req.storm else req.autonomous

/-- A row of `build_dispatch_rows`. -/
def dispatchRow (req : DispatchRowsRequest) (task : Json) : Json :=
  Json.ofFields [
    ("type", .str "task_micro_execution_dispatch"),
    ("run_id", .str req.runId),
    ("goal_id", .str req.goalId),
    ("objective_id", optional req.objectiveId),
    ("micro_task_id", orNull task "micro_task_id"),
    ("profile_id", orNull task "profile_id"),
    ("lane", .str (dispatchLane task)),
    ("executor", .str (req.executor task)),
    ("blocked", .bool (dispatchBlocked task)),
    ("shadow_only", .bool req.shadowOnly),
    ("apply_executed", .bool req.applyExecuted),
    ("status", .str (if dispatchBlocked task then "blocked" else "queued")),
    ("passport_id", optional req.passportId)]

/-- `build_dispatch_rows`. -/
def buildDispatchRows (req : DispatchRowsRequest) : List Json := req.tasks.map (dispatchRow req)

/-! ## Agreement -/

/-- A dispatch row that hands its task to people. -/
def queuedForPeople (req : DispatchRowsRequest) (row : Json) : Bool :=
  text? row "executor" = some req.storm && text? row "status" = some "queued"

/-- A weaver row and a dispatch row of one task that say the same. -/
structure SameTask (task weaver dispatch : Json) : Prop where
  weaverId : weaver.get? "micro_task_id" = some (orNull task "micro_task_id")
  dispatchId : dispatch.get? "micro_task_id" = some (orNull task "micro_task_id")
  lane : weaver.get? "lane" = dispatch.get? "lane"
  blocked : weaver.get? "blocked" = dispatch.get? "blocked"

/-- The two builders agree: one weaver row and one dispatch row for each task, in order, that say the
same, and offers for exactly the tasks whose dispatch row hands them to people. -/
structure RowsAgree (queue : QueueRowsRequest) (dispatch : DispatchRowsRequest) : Prop where
  weavers : (buildQueueRows queue).1.length = queue.tasks.length
  dispatches : (buildDispatchRows dispatch).length = queue.tasks.length
  same : ∀ (i : ℕ) task weaver row, queue.tasks[i]? = some task →
    (buildQueueRows queue).1[i]? = some weaver → (buildDispatchRows dispatch)[i]? = some row →
      SameTask task weaver row
  offers : (buildQueueRows queue).2 = ((queue.tasks.zip (buildDispatchRows dispatch)).filter
    fun pair => queuedForPeople dispatch pair.2).map fun pair => stormRow queue pair.1

/-- When they do: no lane is longer than a token, and the name of the human lane is its own token or
no task that is not blocked is in the human lane. -/
def LanesAgree (storm : String) (tasks : List Json) : Prop :=
  (∀ task ∈ tasks, (queueLane task).toList.length ≤ 80) ∧
    (storm = tokenOr storm defaultStormLane ∨ ∀ task ∈ tasks,
      queueLane task = tokenOr storm defaultStormLane → routeFlag task "blocked" = true)

section Agreement

variable {policy : GovernanceApplyPolicy} {rows : List Json} {task : Json}

theorem isToken_tokenOr {raw default : String} (h : IsToken default ∧ default ≠ "") :
    IsToken (tokenOr raw default) ∧ tokenOr raw default ≠ "" := by
  unfold tokenOr
  dsimp only
  split
  · exact h
  · rename_i hne
    exact ⟨isToken_normalizeToken raw 80, hne⟩

/-- The names that stand in the source are tokens. -/
theorem isToken_defaults : (IsToken defaultLane ∧ defaultLane ≠ "") ∧
    (IsToken defaultStormLane ∧ defaultStormLane ≠ "") := by
  have hlane : normalizeToken defaultLane 80 = defaultLane := by decide +kernel
  have hstorm : normalizeToken defaultStormLane 80 = defaultStormLane := by decide +kernel
  have htoken := isToken_normalizeToken defaultLane 80
  have htoken' := isToken_normalizeToken defaultStormLane 80
  rw [hlane] at htoken
  rw [hstorm] at htoken'
  refine ⟨⟨?_, by decide +kernel⟩, ⟨?_, by decide +kernel⟩⟩
  · exact htoken
  · exact htoken'

theorem isToken_storm (policy : GovernanceApplyPolicy) : IsToken policy.storm ∧ policy.storm ≠ "" :=
  isToken_tokenOr isToken_defaults.2

/-- **Governance gives a lane that is a token.** -/
theorem isToken_lane (policy : GovernanceApplyPolicy) (row : Json) :
    IsToken (laneOf policy row) ∧ laneOf policy row ≠ "" := by
  have hlane : IsToken policy.lane ∧ policy.lane ≠ "" := by
    rw [GovernanceApplyPolicy.lane]
    exact isToken_tokenOr isToken_defaults.1
  unfold laneOf
  split
  · exact isToken_storm policy
  · rw [suggestedLane]
    exact isToken_tokenOr hlane

/-- What a task of governance says to the builders. -/
structure Governed (task : Json) : Prop where
  token : IsToken (queueLane task)
  nonempty : queueLane task ≠ ""
  lane : routeLane task = some (queueLane task)
  blocked : dispatchBlocked task = routeFlag task "blocked"

theorem Says.governed {lane : String} {blocked manual : Bool} {row : Json}
    (h : Says task lane blocked manual (governanceBlock policy row)) (hblocked : blocked = blockedOf policy row)
    (hlane : IsToken lane ∧ lane ≠ "") : Governed task := by
  have hroute : routeLane task = some lane := by
    have hfield := h.lane
    obtain ⟨route, hroute, -⟩ := h.route
    rw [routeField, hroute, Option.bind_some] at hfield
    rw [routeLane, hroute, Option.bind_some, text?, hfield]
    rfl
  have hqueue : queueLane task = lane := by rw [queueLane, hroute, Option.getD_some]
  have hget : (governanceBlock policy row).get? "blocked" = some (.bool (blockedOf policy row)) :=
    Json.get?_ofFields_mem (by simp) (by simp)
  refine ⟨hqueue ▸ hlane.1, hqueue ▸ hlane.2, hqueue ▸ hroute, ?_⟩
  rw [dispatchBlocked, governanceField, h.governance, Option.bind_some, hget, routeFlag, h.blocked, hblocked]

/-- Whatever a list has after the first of a kind was changed was there before or is a change. -/
theorem mem_changeFirst {kind : Json → Bool} {change : Json → Json} : ∀ {tasks : List Json} {task : Json},
    task ∈ changeFirst kind change tasks → task ∈ tasks ∨ ∃ old ∈ tasks, task = change old
  | [], _, h => absurd h List.not_mem_nil
  | first :: rest, task, h => by
    rw [changeFirst] at h
    split at h
    · rcases List.mem_cons.mp h with rfl | h
      · exact .inr ⟨first, List.mem_cons_self, rfl⟩
      · exact .inl (List.mem_cons_of_mem _ h)
    · rcases List.mem_cons.mp h with rfl | h
      · exact .inl List.mem_cons_self
      · rcases mem_changeFirst h with h | ⟨old, hold, rfl⟩
        · exact .inl (List.mem_cons_of_mem _ h)
        · exact .inr ⟨old, List.mem_cons_of_mem _ hold, rfl⟩

/-- **Every task that governance returns.** -/
theorem governed_of_mem (h : task ∈ applyGovernance policy rows) : Governed task := by
  have hbefore {task : Json} (htask : task ∈ governedTasks policy rows) : Governed task := by
    obtain ⟨row, -, -, htold⟩ := says_of_mem htask
    exact htold.governed rfl (isToken_lane policy row)
  rw [applyGovernance, rebalance] at h
  split at h
  · rcases mem_changeFirst h with h | ⟨old, hold, rfl⟩
    · exact hbefore h
    · obtain ⟨row, -, -, htold⟩ := says_of_mem hold
      exact (htold.moveToStorm policy.storm).governed rfl (isToken_storm policy)
  · exact hbefore h

theorem Governed.dispatchLane_eq (h : Governed task) : dispatchLane task =
    if normalizeToken (queueLane task) 80 = "" then "unknown" else normalizeToken (queueLane task) 80 := by
  rw [dispatchLane, h.lane]
  rfl

/-- **The builders give a task one lane if and only if the lane is not cut.** -/
theorem Governed.dispatchLane_eq_iff (h : Governed task) :
    dispatchLane task = queueLane task ↔ (queueLane task).toList.length ≤ 80 := by
  rw [h.dispatchLane_eq, ← h.token.normalizeToken_eq_self_iff]
  split
  · rename_i hempty
    rw [hempty]
    constructor
    · intro hunknown
      have hname : normalizeToken "unknown" 80 ≠ "" := by decide +kernel
      rw [hunknown] at hname
      exact absurd hempty hname
    · exact fun heq => absurd heq.symm h.nonempty
  · exact Iff.rfl

theorem get?_weaverRow (req : QueueRowsRequest) (task : Json) :
    (weaverRow req task).get? "micro_task_id" = some (orNull task "micro_task_id") ∧
      (weaverRow req task).get? "lane" = some (.str (queueLane task)) ∧
      (weaverRow req task).get? "blocked" = some (.bool (routeFlag task "blocked")) :=
  ⟨Json.get?_ofFields_mem (by simp) (by simp), Json.get?_ofFields_mem (by simp) (by simp),
    Json.get?_ofFields_mem (by simp) (by simp)⟩

theorem get?_dispatchRow (req : DispatchRowsRequest) (task : Json) :
    (dispatchRow req task).get? "micro_task_id" = some (orNull task "micro_task_id") ∧
      (dispatchRow req task).get? "lane" = some (.str (dispatchLane task)) ∧
      (dispatchRow req task).get? "blocked" = some (.bool (dispatchBlocked task)) ∧
      (dispatchRow req task).get? "executor" = some (.str (req.executor task)) ∧
      (dispatchRow req task).get? "status" =
        some (.str (if dispatchBlocked task then "blocked" else "queued")) :=
  ⟨Json.get?_ofFields_mem (by simp) (by simp), Json.get?_ofFields_mem (by simp) (by simp),
    Json.get?_ofFields_mem (by simp) (by simp), Json.get?_ofFields_mem (by simp) (by simp),
    Json.get?_ofFields_mem (by simp) (by simp)⟩

/-- **The rows of a task say the same if and only if its lane is not cut.** -/
theorem Governed.sameTask_iff (h : Governed task) (queue : QueueRowsRequest) (dispatch : DispatchRowsRequest) :
    SameTask task (weaverRow queue task) (dispatchRow dispatch task) ↔
      (queueLane task).toList.length ≤ 80 := by
  obtain ⟨hid, hlane, hblocked⟩ := get?_weaverRow queue task
  obtain ⟨hid', hlane', hblocked', -, -⟩ := get?_dispatchRow dispatch task
  rw [← h.dispatchLane_eq_iff]
  constructor
  · intro hsame
    have heq := hsame.lane
    rw [hlane, hlane'] at heq
    exact (Json.str.inj (Option.some.inj heq)).symm
  · intro heq
    exact ⟨hid, hid', by rw [hlane, hlane', heq], by rw [hblocked, hblocked', h.blocked]⟩

theorem queuedForPeople_dispatchRow (dispatch : DispatchRowsRequest) (task : Json)
    (hexecutors : dispatch.storm ≠ dispatch.autonomous) :
    queuedForPeople dispatch (dispatchRow dispatch task) = true ↔
      dispatchLane task = tokenOr dispatch.stormLane defaultStormLane ∧ dispatchBlocked task = false := by
  obtain ⟨-, -, -, hexecutor, hstatus⟩ := get?_dispatchRow dispatch task
  rw [queuedForPeople, text?, text?, hexecutor, hstatus, Bool.and_eq_true, decide_eq_true_eq,
    decide_eq_true_eq]
  refine and_congr ?_ ?_
  · change some (dispatch.executor task) = some dispatch.storm ↔ _
    rw [Option.some.injEq, DispatchRowsRequest.executor]
    split
    · rename_i heq
      simp [heq]
    · rename_i hne
      exact ⟨fun heq => absurd heq.symm hexecutors, fun heq => absurd heq hne⟩
  · change some (if dispatchBlocked task then "blocked" else "queued") = some "queued" ↔ _
    cases dispatchBlocked task with
    | true => simp
    | false => simp

theorem filter_zip_dispatchRows (queue : QueueRowsRequest) (dispatch : DispatchRowsRequest) :
    ((dispatch.tasks.zip (buildDispatchRows dispatch)).filter fun pair =>
        queuedForPeople dispatch pair.2).map (fun pair => stormRow queue pair.1) =
      (dispatch.tasks.filter fun task => queuedForPeople dispatch (dispatchRow dispatch task)).map
        (stormRow queue) := by
  rw [buildDispatchRows]
  induction dispatch.tasks with
  | nil => rfl
  | cons task tasks ih =>
    rw [List.map_cons, List.zip_cons_cons, List.filter_cons, List.filter_cons]
    split
    · rw [List.map_cons, List.map_cons, ih]
    · exact ih

section Requests

variable {queue : QueueRowsRequest} {dispatch : DispatchRowsRequest}
  (htasks : dispatch.tasks = queue.tasks) (hstorm : dispatch.stormLane = queue.stormLane)
  (hexecutors : dispatch.storm ≠ dispatch.autonomous) (hgoverned : ∀ task ∈ queue.tasks, Governed task)

include htasks hstorm hexecutors hgoverned

/-- Where no lane is cut, the offers are right if and only if the name of the human lane is. -/
theorem offers_iff (hcut : ∀ task ∈ queue.tasks, (queueLane task).toList.length ≤ 80) :
    (buildQueueRows queue).2 = ((queue.tasks.zip (buildDispatchRows dispatch)).filter
        fun pair => queuedForPeople dispatch pair.2).map (fun pair => stormRow queue pair.1) ↔
      (queue.stormLane = tokenOr queue.stormLane defaultStormLane ∨ ∀ task ∈ queue.tasks,
        queueLane task = tokenOr queue.stormLane defaultStormLane → routeFlag task "blocked" = true) := by
  have hpeople : ∀ task ∈ queue.tasks, queuedForPeople dispatch (dispatchRow dispatch task) = true ↔
      queueLane task = tokenOr queue.stormLane defaultStormLane ∧ routeFlag task "blocked" = false := by
    intro task htask
    have hlane := (hgoverned task htask).dispatchLane_eq_iff.mpr (hcut task htask)
    rw [queuedForPeople_dispatchRow dispatch task hexecutors, hlane, hstorm, (hgoverned task htask).blocked]
  have hoffered (task : Json) : offered queue task = true ↔
      queueLane task = queue.stormLane ∧ routeFlag task "blocked" = false := by
    simp [offered]
  have hresolved : normalizeToken queue.stormLane 80 = queue.stormLane → queue.stormLane ≠ "" →
      tokenOr queue.stormLane defaultStormLane = queue.stormLane := by
    intro htoken hnonempty
    rw [tokenOr, htoken, if_neg hnonempty]
  have hoffers : (buildQueueRows queue).2 = (queue.tasks.filter (offered queue)).map (stormRow queue) := rfl
  rw [hoffers, ← htasks, filter_zip_dispatchRows, htasks]
  generalize tokenOr queue.stormLane defaultStormLane = name at hpeople hresolved ⊢
  by_cases hname : queue.stormLane = name
  · refine iff_of_true ?_ (.inl hname)
    have hfilter : queue.tasks.filter (offered queue) =
        queue.tasks.filter fun task => queuedForPeople dispatch (dispatchRow dispatch task) := by
      refine List.filter_congr fun task htask => ?_
      rw [Bool.eq_iff_iff, hoffered, hpeople task htask, hname]
    rw [hfilter]
  · have hnone : queue.tasks.filter (offered queue) = [] := by
      refine List.filter_eq_nil_iff.mpr fun task htask hoffer => hname ?_
      obtain ⟨hlane, -⟩ := (hoffered task).mp hoffer
      have htoken := (hgoverned task htask).token.normalizeToken_eq_self (hcut task htask)
      have hnonempty := (hgoverned task htask).nonempty
      rw [hlane] at htoken hnonempty
      exact (hresolved htoken hnonempty).symm
    rw [hnone, List.map_nil, eq_comm, List.map_eq_nil_iff, List.filter_eq_nil_iff]
    simp only [hname, false_or]
    constructor
    · intro hnot task htask hlane
      by_contra hblocked
      exact hnot task htask ((hpeople task htask).mpr ⟨hlane, Bool.eq_false_iff.mpr hblocked⟩)
    · intro hblocked task htask hqueued
      obtain ⟨hlane, hfree⟩ := (hpeople task htask).mp hqueued
      rw [hblocked task htask hlane] at hfree
      cases hfree

theorem rowsAgree_requests : RowsAgree queue dispatch ↔ LanesAgree queue.stormLane queue.tasks := by
  have hrows {i : ℕ} {task : Json} (hi : queue.tasks[i]? = some task) :
      (buildQueueRows queue).1[i]? = some (weaverRow queue task) ∧
        (buildDispatchRows dispatch)[i]? = some (dispatchRow dispatch task) := by
    rw [buildQueueRows, buildDispatchRows, htasks]
    dsimp only
    rw [List.getElem?_map, List.getElem?_map, hi]
    exact ⟨rfl, rfl⟩
  constructor
  · intro h
    have hcut : ∀ task ∈ queue.tasks, (queueLane task).toList.length ≤ 80 := by
      intro task htask
      obtain ⟨i, hi⟩ := List.getElem?_of_mem htask
      obtain ⟨hweaver, hdispatch⟩ := hrows hi
      exact ((hgoverned task htask).sameTask_iff queue dispatch).mp
        (h.same i task _ _ hi hweaver hdispatch)
    exact ⟨hcut, (offers_iff htasks hstorm hexecutors hgoverned hcut).mp h.offers⟩
  · rintro ⟨hcut, hname⟩
    refine ⟨?_, ?_, fun i task weaver row hi hweaver hdispatch => ?_, ?_⟩
    · rw [buildQueueRows, List.length_map]
    · rw [buildDispatchRows, List.length_map, htasks]
    · obtain ⟨hweaver', hdispatch'⟩ := hrows hi
      rw [hweaver'] at hweaver
      rw [hdispatch'] at hdispatch
      rw [← Option.some.inj hweaver, ← Option.some.inj hdispatch]
      have htask := List.mem_of_getElem? hi
      exact ((hgoverned task htask).sameTask_iff queue dispatch).mpr (hcut task htask)
    · exact (offers_iff htasks hstorm hexecutors hgoverned hcut).mpr hname

end Requests

/-- A row that the constitution leaves to people. -/
def manualRow (text : String) : Json :=
  Json.ofFields [("constitution", Json.ofFields [("decision", .str "MANUAL")]),
    ("task", Json.ofFields [("task_text", .str text)])]

/-- **When queue rows and dispatch rows agree.** -/
theorem rowsAgree_iff (policy : GovernanceApplyPolicy) (rows : List Json) (queue : QueueRowsRequest)
    (dispatch : DispatchRowsRequest) (hexecutors : dispatch.storm ≠ dispatch.autonomous) :
    RowsAgree { queue with stormLane := policy.stormLane, tasks := applyGovernance policy rows }
        { dispatch with stormLane := policy.stormLane, tasks := applyGovernance policy rows } ↔
      LanesAgree policy.stormLane (applyGovernance policy rows) :=
  rowsAgree_requests rfl rfl hexecutors fun _ htask => governed_of_mem htask

/-- A task for people under the names that stand in the source. -/
theorem manual_rows_agree :
    let policy : GovernanceApplyPolicy := {}
    let rows := [manualRow "a"]
    let queue : QueueRowsRequest := {}
    let dispatch : DispatchRowsRequest := {}
    dispatch.storm ≠ dispatch.autonomous ∧
      RowsAgree { queue with stormLane := policy.stormLane, tasks := applyGovernance policy rows }
        { dispatch with stormLane := policy.stormLane, tasks := applyGovernance policy rows } := by
  intro policy rows queue dispatch
  have hexecutors : dispatch.storm ≠ dispatch.autonomous := by decide +kernel
  have hlanes : (applyGovernance policy rows).map queueLane = [defaultStormLane] := by decide +kernel
  refine ⟨hexecutors, (rowsAgree_iff policy rows queue dispatch hexecutors).mpr ⟨?_, .inl ?_⟩⟩
  · intro task htask
    have hlane := List.mem_map_of_mem (f := queueLane) htask
    rw [hlanes, List.mem_singleton] at hlane
    rw [hlane]
    decide +kernel
  · decide +kernel

/-- A human lane whose name is not a token: the dispatch row hands the task to people, and the queue
does not offer it. -/
theorem storm_lane_not_offered :
    let policy : GovernanceApplyPolicy := { stormLane := "Storm Lane" }
    let tasks := applyGovernance policy [manualRow "a"]
    let queue : QueueRowsRequest := { stormLane := policy.stormLane, tasks := tasks }
    let dispatch : DispatchRowsRequest := { stormLane := policy.stormLane, tasks := tasks }
    tasks.map queueLane = ["storm_lane"] ∧ (buildQueueRows queue).2 = [] ∧
      (buildDispatchRows dispatch).map (queuedForPeople dispatch) = [true] ∧
      ¬RowsAgree queue dispatch := by
  intro policy tasks queue dispatch
  have hoffers : (buildQueueRows queue).2 = [] := by decide +kernel
  have hqueued : ((queue.tasks.zip (buildDispatchRows dispatch)).filter
      fun pair => queuedForPeople dispatch pair.2).length = 1 := by decide +kernel
  refine ⟨by decide +kernel, hoffers, by decide +kernel, fun hagree => ?_⟩
  have hlength := congrArg List.length hagree.offers
  rw [hoffers, List.length_map, hqueued] at hlength
  cases hlength

end Agreement

end Protheus.Decompose
