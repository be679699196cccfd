import Protheus.Json
import Protheus.RustStd

/-!
The deterministic workflow runner of `execution/src/lib.rs`.

A run starts at the cursor of the state it resumes, executes steps until one
asks for a pause or none is left, and returns the state to resume from.  Every
step it executes leaves one `exec:` event, whose fingerprint is a hash over the
workflow's id and seed and the step's own fields, never over the pause settings.

`segments_eq_single_run`: resuming from every returned state until the run is
completed takes finitely many runs, ends where one run without pauses ends, and
executes the same steps in the same order: each one that is left.
-/

namespace Protheus.Workflow

open Std (ExtTreeMap)

/-- `WorkflowStep`. -/
structure WorkflowStep where
  /-- The name of the step; blank for a positional one. -/
  id : String := ""
  kind : String := ""
  action : String := ""
  command : String := ""
  pauseAfter : Bool := false
  params : ExtTreeMap String String := ∅

/-- `ExecutionState`. -/
structure ExecutionState where
  /-- How many steps are behind. -/
  cursor : UInt32 := 0
  /-- Stopped at a pause. -/
  paused : Bool := false
  /-- No step is left. -/
  completed : Bool := false
  lastStepId : Option String := none
  processedStepIds : List String := []
  /-- How many events the last run left. -/
  processedEvents : UInt32 := 0
  digest : String := ""
  deriving DecidableEq

/-- `WorkflowDefinition`. -/
structure WorkflowDefinition where
  /-- The workflow's name; blank for a derived one. -/
  workflowId : String := ""
  deterministicSeed : String := ""
  pauseAfterStep : Option String := none
  resume : Option ExecutionState := none
  steps : List WorkflowStep := []
  metadata : ExtTreeMap String String := ∅

/-- `ExecutionReceipt`. -/
structure ExecutionReceipt where
  /-- The resolved name of the workflow. -/
  workflowId : String
  /-- `paused`, `completed` or `running`. -/
  status : String
  deterministic : Bool
  replayable : Bool
  processedSteps : UInt32
  pauseReason : Option String
  eventDigest : String
  events : List String
  state : ExecutionState
  metadata : ExtTreeMap String String
  warnings : List String

/-! ## The run -/

/-- The decimal digits of a number, at least three of them. -/
def pad3 (n : ℕ) : String :=
  let digits := (toString n).toList
  String.ofList (List.replicate (3 - digits.length) '0' ++ digits)

/-- `normalize_step_id`. -/
def normalizeStepId (step : WorkflowStep) (idx : ℕ) : String :=
  let candidate := RustStd.trim step.id
  if candidate.isEmpty then "step_" ++ pad3 (idx + 1) else candidate

section Run

variable (sha256Hex : String → String) (printFloat : ℚ → String) (profileMaxSteps : Option ℕ)

/-- `stable_hash`. -/
def stableHash (lines : List String) : String :=
  sha256Hex (String.join (lines.mapIdx fun idx line => toString idx ++ ":" ++ line ++ "|"))

/-- `step_fingerprint`. -/
def stepFingerprint (workflowId seed : String) (idx : ℕ) (stepId : String) (step : WorkflowStep) :
    String :=
  stableHash sha256Hex
    ([workflowId, seed, toString idx, stepId, step.kind, step.action, step.command] ++
      step.params.toList.map fun (k, v) => k ++ "=" ++ v)

/-- The name a run goes by: the trimmed id, or twelve digits of a hash over the
number of steps, the seed and the metadata. -/
def resolveWorkflowId (d : WorkflowDefinition) : String :=
  if (RustStd.trim d.workflowId).isEmpty then
    "wf_" ++ String.ofList ((stableHash sha256Hex
      [toString d.steps.length, d.deterministicSeed,
        (Json.obj (d.metadata.toList.map fun (k, v) => (k, .str v))).render printFloat]).toList.take 12)
  else RustStd.trim d.workflowId

/-- The `exec:` event of a step. -/
def execEvent (d : WorkflowDefinition) (workflowId : String) (idx : ℕ) (step : WorkflowStep) :
    String :=
  let stepId := normalizeStepId step idx
  "exec:" ++ stepId ++ ":" ++ stepFingerprint sha256Hex workflowId d.deterministicSeed idx stepId step

/-- Whether the run stops after a step. -/
def shouldPause (d : WorkflowDefinition) (step : WorkflowStep) (stepId : String) : Bool :=
  step.pauseAfter || (d.pauseAfterStep.map (· == stepId)).getD false

/-- What the loop carries from step to step. -/
structure Loop where
  state : ExecutionState
  events : List String
  /-- Set where the loop breaks. -/
  pauseReason : Option String := none

/-- The loop over the steps from `idx` on. -/
def execLoop (d : WorkflowDefinition) (workflowId : String) : ℕ → List WorkflowStep → Loop → Loop
  | _, [], s => s
  | idx, step :: rest, s =>
    let stepId := normalizeStepId step idx
    let next : Loop :=
      { s with
        state := { s.state with
          cursor := UInt32.ofNat (idx + 1)
          lastStepId := some stepId
          processedStepIds := s.state.processedStepIds ++ [stepId] }
        events := s.events ++ [execEvent sha256Hex d workflowId idx step] }
    if shouldPause d step stepId then
      { next with
        state := { next.state with paused := true, completed := false }
        pauseReason := some ("paused_after:" ++ stepId) }
    else execLoop d workflowId (idx + 1) rest next

/-- The state a run starts from, its cursor clamped to the number of steps. -/
def startState (d : WorkflowDefinition) : ExecutionState :=
  let state := d.resume.getD {}
  let stepCount := UInt32.ofNat d.steps.length
  if state.cursor > stepCount then { state with cursor := stepCount } else state

def startWarnings (d : WorkflowDefinition) : List String :=
  (match profileMaxSteps with
    | some maxSteps =>
      if d.steps.length > maxSteps then ["execution_profile_max_steps_exceeded"] else []
    | none => ["execution_profile_unavailable"]) ++
  if (d.resume.getD {}).cursor > UInt32.ofNat d.steps.length then ["resume_cursor_clamped"] else []

/-- What stands in the event list before the first step. -/
def startEvents (cursor : UInt32) : List String :=
  if cursor > 0 then ["resume:" ++ toString cursor.toNat] else []

/-- A run that has no step left is completed and not paused. -/
def finish (stepCount : UInt32) (s : Loop) : Loop :=
  if s.state.cursor ≥ stepCount then
    { s with state := { s.state with completed := true, paused := false }, pauseReason := none }
  else s

/-- The steps of a run and its closing flags. -/
def execute (d : WorkflowDefinition) : Loop :=
  let state := startState d
  finish (UInt32.ofNat d.steps.length)
    (execLoop sha256Hex d (resolveWorkflowId sha256Hex printFloat d) state.cursor.toNat
      (d.steps.drop state.cursor.toNat) { state, events := startEvents state.cursor })

/-- `run_workflow_definition`. -/
def runWorkflowDefinition (d : WorkflowDefinition) : ExecutionReceipt :=
  let workflowId := resolveWorkflowId sha256Hex printFloat d
  let out := execute sha256Hex printFloat d
  let digest := stableHash sha256Hex
    ([workflowId, d.deterministicSeed, toString out.state.cursor.toNat, toString out.state.paused,
      toString out.state.completed] ++ out.events ++
      d.metadata.toList.map fun (k, v) => k ++ "=" ++ v)
  { workflowId
    status := if out.state.paused then "paused" else if out.state.completed then "completed"
      else "running"
    deterministic := true
    replayable := true
    processedSteps := out.state.cursor
    pauseReason := out.pauseReason
    eventDigest := digest
    events := out.events
    state := { out.state with processedEvents := UInt32.ofNat out.events.length, digest }
    metadata := d.metadata
    warnings := startWarnings profileMaxSteps d }

/-! ## Runs and resumes -/

/-- The definition with every pause removed. -/
def withoutPauses (d : WorkflowDefinition) : WorkflowDefinition :=
  { d with
    pauseAfterStep := none
    steps := d.steps.map fun step => { step with pauseAfter := false } }

/-- The `n`-th run: the first one of the definition as it is, every later one
resumed from the state the run before it returned. -/
def segment (d : WorkflowDefinition) : ℕ → ExecutionReceipt
  | 0 => runWorkflowDefinition sha256Hex printFloat profileMaxSteps d
  | n + 1 => runWorkflowDefinition sha256Hex printFloat profileMaxSteps
      { d with resume := some (segment d n).state }

/-- Whether an event records an executed step. -/
def isExec (event : String) : Bool := "exec:".toList.isPrefixOf event.toList

/-- The executed steps of a run, in order. -/
def execEvents (receipt : ExecutionReceipt) : List String := receipt.events.filter isExec

/-- Two states stand at the same point of the workflow. -/
structure SameProgress (a b : ExecutionState) : Prop where
  cursor : a.cursor = b.cursor
  paused : a.paused = b.paused
  completed : a.completed = b.completed
  lastStepId : a.lastStepId = b.lastStepId
  processedStepIds : a.processedStepIds = b.processedStepIds

/-! ### What executing steps adds -/

/-- What executing a step leaves behind, apart from cursor and flags. -/
structure Trail where
  lastStepId : Option String
  processedStepIds : List String
  execs : List String

def Loop.trail (s : Loop) : Trail :=
  { lastStepId := s.state.lastStepId
    processedStepIds := s.state.processedStepIds
    execs := s.events.filter isExec }

/-- The trail after executing steps from `idx` on, whatever the pauses. -/
def advance (d : WorkflowDefinition) (workflowId : String) : ℕ → List WorkflowStep → Trail → Trail
  | _, [], t => t
  | idx, step :: rest, t =>
    advance d workflowId (idx + 1) rest
      { lastStepId := some (normalizeStepId step idx)
        processedStepIds := t.processedStepIds ++ [normalizeStepId step idx]
        execs := t.execs ++ [execEvent sha256Hex d workflowId idx step] }

variable {sha256Hex printFloat profileMaxSteps} {d : WorkflowDefinition} {workflowId : String}

theorem isExec_execEvent (idx : ℕ) (step : WorkflowStep) :
    isExec (execEvent sha256Hex d workflowId idx step) = true := by
  simp [isExec, execEvent, String.toList_append]

theorem filter_startEvents (cursor : UInt32) : (startEvents cursor).filter isExec = [] := by
  unfold startEvents
  split
  · simp [isExec, String.toList_append]
  · rfl

theorem advance_append (idx : ℕ) (steps steps' : List WorkflowStep) (t : Trail) :
    advance sha256Hex d workflowId idx (steps ++ steps') t =
      advance sha256Hex d workflowId (idx + steps.length) steps'
        (advance sha256Hex d workflowId idx steps t) := by
  induction steps generalizing idx t with
  | nil => simp [advance]
  | cons step steps ih =>
    simp only [List.cons_append, advance, List.length_cons, ih]
    congr 1
    omega

/-- The `exec:` events already there stay in front of the new ones. -/
theorem advance_execs (idx : ℕ) (steps : List WorkflowStep) (t : Trail) (before : List String) :
    advance sha256Hex d workflowId idx steps { t with execs := before ++ t.execs } =
      { advance sha256Hex d workflowId idx steps t with
        execs := before ++ (advance sha256Hex d workflowId idx steps t).execs } := by
  induction steps generalizing idx t with
  | nil => rfl
  | cons step steps ih =>
    simp only [advance, List.append_assoc]
    exact ih (idx + 1)
      { lastStepId := some (normalizeStepId step idx)
        processedStepIds := t.processedStepIds ++ [normalizeStepId step idx]
        execs := t.execs ++ [execEvent sha256Hex d workflowId idx step] }

/-- One `exec:` event for each step. -/
theorem execs_advance (idx : ℕ) (steps : List WorkflowStep) (t : Trail) :
    (advance sha256Hex d workflowId idx steps t).execs =
      t.execs ++ steps.mapIdx fun i step => execEvent sha256Hex d workflowId (idx + i) step := by
  induction steps generalizing idx t with
  | nil => exact (List.append_nil _).symm
  | cons step steps ih =>
    rw [advance, ih, List.mapIdx_cons, List.append_assoc, List.singleton_append]
    simp only [Nat.add_assoc, Nat.add_comm 1, Nat.add_zero]

/-- Neither the trail nor the fingerprints read the pause settings. -/
theorem advance_withoutPauses (idx : ℕ) (steps : List WorkflowStep) (t : Trail) :
    advance sha256Hex (withoutPauses d) workflowId idx
        (steps.map fun step => { step with pauseAfter := false }) t =
      advance sha256Hex d workflowId idx steps t := by
  induction steps generalizing idx t with
  | nil => rfl
  | cons step steps ih => exact ih _ _

/-- **The loop.**  It executes a prefix of the steps it is given and leaves their
trail; it stops short of the end only at a step that asks for a pause. -/
theorem execLoop_spec (idx : ℕ) (steps : List WorkflowStep) (s : Loop)
    (hcur : s.state.cursor = UInt32.ofNat idx) :
    ∃ ran rest, steps = ran ++ rest ∧
      (execLoop sha256Hex d workflowId idx steps s).trail =
        advance sha256Hex d workflowId idx ran s.trail ∧
      (execLoop sha256Hex d workflowId idx steps s).state.cursor =
        UInt32.ofNat (idx + ran.length) ∧
      (rest = [] ∨ ran ≠ [] ∧ (execLoop sha256Hex d workflowId idx steps s).state.completed = false ∧
        ∃ step ∈ steps, ∃ id, shouldPause d step id = true) := by
  induction steps generalizing idx s with
  | nil => exact ⟨[], [], rfl, rfl, hcur, .inl rfl⟩
  | cons step steps ih =>
    have htrail : ∀ (st : ExecutionState) (reason : Option String),
        st.lastStepId = some (normalizeStepId step idx) →
        st.processedStepIds = s.state.processedStepIds ++ [normalizeStepId step idx] →
        Loop.trail { state := st, events := s.events ++ [execEvent sha256Hex d workflowId idx step],
                     pauseReason := reason } =
          advance sha256Hex d workflowId idx [step] s.trail := by
      intro st reason h1 h2
      simp [Loop.trail, advance, h1, h2, isExec_execEvent]
    by_cases hp : shouldPause d step (normalizeStepId step idx) = true
    · refine ⟨[step], steps, rfl, ?_, ?_, .inr ⟨by simp, ?_, step, by simp, _, hp⟩⟩ <;>
        simp only [execLoop, hp, if_true]
      · exact htrail _ _ rfl rfl
      · rfl
    · rw [execLoop]
      simp only [hp, Bool.false_eq_true, if_false]
      obtain ⟨ran, rest, rfl, ht, hc, hstop⟩ := ih (idx + 1)
        { s with
          state := { s.state with
            cursor := UInt32.ofNat (idx + 1)
            lastStepId := some (normalizeStepId step idx)
            processedStepIds := s.state.processedStepIds ++ [normalizeStepId step idx] }
          events := s.events ++ [execEvent sha256Hex d workflowId idx step] } rfl
      refine ⟨step :: ran, rest, rfl, ?_, ?_, ?_⟩
      · rw [ht, htrail _ _ rfl rfl]
        rfl
      · rw [hc, List.length_cons]
        congr 1
        omega
      · rcases hstop with h | ⟨hne, hcomp, step', hmem, id, hpause⟩
        · exact .inl h
        · exact .inr ⟨by simp, hcomp, step', .tail _ hmem, id, hpause⟩

/-! ### What one run does -/

def startTrail (d : WorkflowDefinition) : Trail :=
  { lastStepId := (startState d).lastStepId
    processedStepIds := (startState d).processedStepIds
    execs := [] }

def start (d : WorkflowDefinition) : ℕ := (startState d).cursor.toNat

theorem start_le (hlen : d.steps.length < 2 ^ 32) : start d ≤ d.steps.length := by
  have hcount : (UInt32.ofNat d.steps.length).toNat = d.steps.length :=
    UInt32.toNat_ofNat_of_lt' hlen
  unfold start startState
  simp only
  split
  · exact hcount.le
  · rename_i hle
    rwa [gt_iff_lt, UInt32.lt_iff_toNat_lt, hcount, not_lt] at hle

/-- **One run.**  It executes the steps from its start up to a pause or the end;
it is completed exactly when none is left, and then it is not paused. -/
theorem execute_spec (hlen : d.steps.length < 2 ^ 32) :
    ∃ ran rest, d.steps.drop (start d) = ran ++ rest ∧
      (execute sha256Hex printFloat d).trail =
        advance sha256Hex d (resolveWorkflowId sha256Hex printFloat d) (start d) ran (startTrail d) ∧
      (execute sha256Hex printFloat d).state.cursor = UInt32.ofNat (start d + ran.length) ∧
      (rest = [] ∧ (execute sha256Hex printFloat d).state.completed = true ∧
          (execute sha256Hex printFloat d).state.paused = false ∨
        rest ≠ [] ∧ ran ≠ [] ∧ (execute sha256Hex printFloat d).state.completed = false ∧
          ∃ step ∈ d.steps, ∃ id, shouldPause d step id = true) := by
  have hstart := start_le hlen
  obtain ⟨ran, rest, hsteps, htrail, hcur, hstop⟩ :=
    @execLoop_spec sha256Hex d (resolveWorkflowId sha256Hex printFloat d) (start d)
      (d.steps.drop (start d))
      { state := startState d, events := startEvents (startState d).cursor } (by simp [start])
  have htrail0 : Loop.trail { state := startState d, events := startEvents (startState d).cursor } =
      startTrail d := by
    simp [Loop.trail, startTrail, filter_startEvents]
  rw [htrail0] at htrail
  have hsum : ran.length + rest.length = d.steps.length - start d := by
    have := congrArg List.length hsteps
    simpa using this.symm
  -- The closing flags are set exactly when the loop reached the end.
  have hfinish : UInt32.ofNat (start d + ran.length) ≥ UInt32.ofNat d.steps.length ↔ rest = [] := by
    rw [ge_iff_le, UInt32.le_iff_toNat_le, UInt32.toNat_ofNat_of_lt' hlen,
      UInt32.toNat_ofNat_of_lt' (show start d + ran.length < UInt32.size by
        change _ < 2 ^ 32
        omega), ← List.length_eq_zero_iff]
    omega
  refine ⟨ran, rest, hsteps, ?_⟩
  have hexec : execute sha256Hex printFloat d = finish (UInt32.ofNat d.steps.length)
      (execLoop sha256Hex d (resolveWorkflowId sha256Hex printFloat d) (start d)
        (d.steps.drop (start d))
        { state := startState d, events := startEvents (startState d).cursor }) := rfl
  rw [hexec]
  generalize execLoop sha256Hex d (resolveWorkflowId sha256Hex printFloat d) (start d)
    (d.steps.drop (start d))
    { state := startState d, events := startEvents (startState d).cursor } = out at htrail hcur hstop
  by_cases hrest : rest = []
  · have hge := hfinish.mpr hrest
    rw [← hcur] at hge
    rw [finish, if_pos hge]
    exact ⟨htrail, hcur, .inl ⟨hrest, rfl, rfl⟩⟩
  · have hlt := mt hfinish.mp hrest
    rw [← hcur] at hlt
    rw [finish, if_neg hlt]
    obtain ⟨hne, hcomp, step, hmem, id, hpause⟩ := hstop.resolve_left hrest
    exact ⟨htrail, hcur, .inr ⟨hrest, hne, hcomp, step, List.mem_of_mem_drop hmem, id, hpause⟩⟩

/-- **The run without pauses.**  It executes every step from its start on and is
completed. -/
theorem execute_withoutPauses (hlen : d.steps.length < 2 ^ 32) :
    (execute sha256Hex printFloat (withoutPauses d)).trail =
        advance sha256Hex d (resolveWorkflowId sha256Hex printFloat d) (start d)
          (d.steps.drop (start d)) (startTrail d) ∧
      (execute sha256Hex printFloat (withoutPauses d)).state.cursor = UInt32.ofNat d.steps.length ∧
      (execute sha256Hex printFloat (withoutPauses d)).state.completed = true ∧
      (execute sha256Hex printFloat (withoutPauses d)).state.paused = false := by
  have hlen' : (withoutPauses d).steps.length = d.steps.length := by simp [withoutPauses]
  have hstate : startState (withoutPauses d) = startState d := by simp [startState, withoutPauses]
  have hstart : start (withoutPauses d) = start d := by rw [start, hstate, start]
  have hid : resolveWorkflowId sha256Hex printFloat (withoutPauses d) =
      resolveWorkflowId sha256Hex printFloat d := by
    simp [resolveWorkflowId, withoutPauses]
  have hle := start_le hlen
  obtain ⟨ran, rest, hsteps, htrail, hcur, hflags⟩ :=
    @execute_spec sha256Hex printFloat (withoutPauses d) (hlen'.trans_lt hlen)
  rcases hflags with ⟨hrest, hcomp, hpaused⟩ | ⟨-, -, -, step, hmem, id, hpause⟩
  · subst hrest
    rw [List.append_nil, hstart] at hsteps
    have hsum : start d + ran.length = d.steps.length := by
      have := congrArg List.length hsteps
      simp only [List.length_drop, hlen'] at this
      omega
    refine ⟨?_, by rw [hcur, hstart, hsum], hcomp, hpaused⟩
    have hdrop : (withoutPauses d).steps.drop (start d) =
        (d.steps.drop (start d)).map fun step => { step with pauseAfter := false } :=
      List.map_drop.symm
    have htrail0 : startTrail (withoutPauses d) = startTrail d := by simp [startTrail, hstate]
    rw [htrail, ← hsteps, hid, hstart, hdrop, htrail0, advance_withoutPauses]
  · -- A definition without pauses asks for none.
    obtain ⟨step', -, rfl⟩ := List.mem_map.mp hmem
    simp [shouldPause, withoutPauses] at hpause

/-! ### Resuming -/

/-- The definition resumed from a state. -/
def resumeFrom (d : WorkflowDefinition) (state : ExecutionState) : WorkflowDefinition :=
  { d with resume := some state }

/-- The state a run of the definition returns. -/
def returned (sha256Hex : String → String) (printFloat : ℚ → String) (profileMaxSteps : Option ℕ)
    (d : WorkflowDefinition) : ExecutionState :=
  (runWorkflowDefinition sha256Hex printFloat profileMaxSteps d).state

variable {state : ExecutionState} {n : ℕ}

theorem segment_succ :
    segment sha256Hex printFloat profileMaxSteps d (n + 1) =
      segment sha256Hex printFloat profileMaxSteps
        (resumeFrom d (returned sha256Hex printFloat profileMaxSteps d)) n := by
  induction n with
  | zero => rfl
  | succ n ih =>
    rw [segment, ih]
    rfl

/-- A cursor within the steps is not clamped. -/
theorem startState_resumeFrom (hlen : d.steps.length < 2 ^ 32)
    (hle : state.cursor.toNat ≤ d.steps.length) : startState (resumeFrom d state) = state := by
  have hcount : (UInt32.ofNat d.steps.length).toNat = d.steps.length :=
    UInt32.toNat_ofNat_of_lt' hlen
  have hno : ¬ state.cursor > UInt32.ofNat d.steps.length := by
    rw [gt_iff_lt, UInt32.lt_iff_toNat_lt, hcount]
    omega
  simp [startState, resumeFrom, hno]

/-- A resumed run takes up the trail where the run before it left off. -/
theorem startTrail_resumeFrom (hlen : d.steps.length < 2 ^ 32)
    (hle : (execute sha256Hex printFloat d).state.cursor.toNat ≤ d.steps.length) :
    startTrail (resumeFrom d (returned sha256Hex printFloat profileMaxSteps d)) =
      { (execute sha256Hex printFloat d).trail with execs := [] } := by
  have hstate : startState (resumeFrom d (returned sha256Hex printFloat profileMaxSteps d)) =
      returned sha256Hex printFloat profileMaxSteps d := startState_resumeFrom hlen hle
  rw [startTrail, hstate]
  rfl

/-- The trail does not read the state resumed from. -/
theorem advance_resumeFrom (idx : ℕ) (steps : List WorkflowStep) (t : Trail) :
    advance sha256Hex (resumeFrom d state) workflowId idx steps t =
      advance sha256Hex d workflowId idx steps t := by
  induction steps generalizing idx t with
  | nil => rfl
  | cons step steps ih => exact ih _ _

/-- **Resuming a completed state** executes no step and stays where it is. -/
theorem resume_completed (hlen : d.steps.length < 2 ^ 32)
    (hcur : state.cursor.toNat = d.steps.length) (hcomp : state.completed = true)
    (hpaused : state.paused = false) :
    execEvents (runWorkflowDefinition sha256Hex printFloat profileMaxSteps (resumeFrom d state)) = [] ∧
      SameProgress (returned sha256Hex printFloat profileMaxSteps (resumeFrom d state)) state := by
  have hstate := startState_resumeFrom hlen hcur.le
  have hstart : start (resumeFrom d state) = d.steps.length := by rw [start, hstate, hcur]
  obtain ⟨ran, rest, hsteps, htrail, hcursor, hflags⟩ :=
    @execute_spec sha256Hex printFloat (resumeFrom d state) hlen
  obtain ⟨rfl, rfl⟩ : ran = [] ∧ rest = [] := by
    rw [hstart, show (resumeFrom d state).steps = d.steps from rfl, List.drop_length] at hsteps
    exact List.append_eq_nil_iff.mp hsteps.symm
  obtain ⟨-, hc, hp⟩ | ⟨h, -⟩ := hflags
  · refine ⟨congrArg Trail.execs htrail, ?_, hp.trans hpaused.symm, hc.trans hcomp.symm, ?_, ?_⟩
    · refine hcursor.trans ?_
      rw [hstart, List.length_nil, Nat.add_zero, ← hcur, UInt32.ofNat_toNat]
    · have := congrArg Trail.lastStepId htrail
      rwa [advance, startTrail, hstate] at this
    · have := congrArg Trail.processedStepIds htrail
      rwa [advance, startTrail, hstate] at this
  · exact absurd rfl h

/-- Where `n` resumes lead: not completed before, then where one run without
pauses stands, with the same steps executed in the same order. -/
structure ReachesEnd (sha256Hex : String → String) (printFloat : ℚ → String)
    (profileMaxSteps : Option ℕ) (d : WorkflowDefinition) (n : ℕ) : Prop where
  before : ∀ m < n, (segment sha256Hex printFloat profileMaxSteps d m).state.completed = false
  completed : (segment sha256Hex printFloat profileMaxSteps d n).state.completed = true
  /-- It stands where one run without pauses ends. -/
  progress : SameProgress (segment sha256Hex printFloat profileMaxSteps d n).state
    (runWorkflowDefinition sha256Hex printFloat profileMaxSteps (withoutPauses d)).state
  /-- The runs together executed what that run executes. -/
  execs : ((List.range (n + 1)).flatMap fun m =>
      execEvents (segment sha256Hex printFloat profileMaxSteps d m)) =
    execEvents (runWorkflowDefinition sha256Hex printFloat profileMaxSteps (withoutPauses d))
  /-- Every later resume executes no step and stays there. -/
  after : ∀ m > n, execEvents (segment sha256Hex printFloat profileMaxSteps d m) = [] ∧
    SameProgress (segment sha256Hex printFloat profileMaxSteps d m).state
      (segment sha256Hex printFloat profileMaxSteps d n).state

theorem SameProgress.trans {a b c : ExecutionState} (hab : SameProgress a b)
    (hbc : SameProgress b c) : SameProgress a c where
  cursor := hab.cursor.trans hbc.cursor
  paused := hab.paused.trans hbc.paused
  completed := hab.completed.trans hbc.completed
  lastStepId := hab.lastStepId.trans hbc.lastStepId
  processedStepIds := hab.processedStepIds.trans hbc.processedStepIds

theorem SameProgress.refl (a : ExecutionState) : SameProgress a a := ⟨rfl, rfl, rfl, rfl, rfl⟩

/-- Once completed, every later resume executes nothing. -/
theorem segments_after_completed (hlen : d.steps.length < 2 ^ 32)
    (hcur : (segment sha256Hex printFloat profileMaxSteps d n).state.cursor.toNat = d.steps.length)
    (hcomp : (segment sha256Hex printFloat profileMaxSteps d n).state.completed = true)
    (hpaused : (segment sha256Hex printFloat profileMaxSteps d n).state.paused = false) :
    ∀ t, (t ≠ 0 → execEvents (segment sha256Hex printFloat profileMaxSteps d (n + t)) = []) ∧
      SameProgress (segment sha256Hex printFloat profileMaxSteps d (n + t)).state
        (segment sha256Hex printFloat profileMaxSteps d n).state
  | 0 => ⟨fun h => absurd rfl h, .refl _⟩
  | t + 1 => by
    obtain ⟨-, ih⟩ := segments_after_completed hlen hcur hcomp hpaused t
    have := @resume_completed sha256Hex printFloat profileMaxSteps d
      (segment sha256Hex printFloat profileMaxSteps d (n + t)).state hlen
      (by rw [ih.cursor, hcur]) (ih.completed.trans hcomp) (ih.paused.trans hpaused)
    exact ⟨fun _ => this.1, this.2.trans ih⟩

/-- Where a run stopped after `ran` with `rest` ahead, the resumed definition
starts at `rest`. -/
theorem start_resumeFrom (hlen : d.steps.length < 2 ^ 32)
    (hle : (returned sha256Hex printFloat profileMaxSteps d).cursor.toNat ≤ d.steps.length) :
    start (resumeFrom d (returned sha256Hex printFloat profileMaxSteps d)) =
      (returned sha256Hex printFloat profileMaxSteps d).cursor.toNat := by
  rw [start, startState_resumeFrom hlen hle]

theorem withoutPauses_split (hlen : d.steps.length < 2 ^ 32) {ran rest : List WorkflowStep}
    (hsteps : d.steps.drop (start d) = ran ++ rest)
    (htrail : (execute sha256Hex printFloat d).trail =
      advance sha256Hex d (resolveWorkflowId sha256Hex printFloat d) (start d) ran (startTrail d))
    (hcur : (returned sha256Hex printFloat profileMaxSteps d).cursor.toNat = start d + ran.length)
    (hle : start d + ran.length ≤ d.steps.length) :
    (execute sha256Hex printFloat (withoutPauses d)).trail =
      { (execute sha256Hex printFloat (withoutPauses
          (resumeFrom d (returned sha256Hex printFloat profileMaxSteps d)))).trail with
        execs := (execute sha256Hex printFloat d).trail.execs ++
          (execute sha256Hex printFloat (withoutPauses
            (resumeFrom d (returned sha256Hex printFloat profileMaxSteps d)))).trail.execs } := by
  have hle' := hcur.trans_le hle
  have hstart' := start_resumeFrom hlen hle'
  rw [hcur] at hstart'
  have hdrop : (resumeFrom d (returned sha256Hex printFloat profileMaxSteps d)).steps.drop
      (start d + ran.length) = rest := by
    change d.steps.drop (start d + ran.length) = rest
    rw [← List.drop_drop, hsteps, List.drop_left]
  have hid : resolveWorkflowId sha256Hex printFloat
      (resumeFrom d (returned sha256Hex printFloat profileMaxSteps d)) =
        resolveWorkflowId sha256Hex printFloat d := rfl
  rw [(execute_withoutPauses hlen).1, (execute_withoutPauses (d := resumeFrom d _) hlen).1, hstart',
    hdrop, hid, startTrail_resumeFrom hlen hle', advance_resumeFrom, hsteps, advance_append, ← htrail]
  have := @advance_execs sha256Hex d (resolveWorkflowId sha256Hex printFloat d)
    (start d + ran.length) rest { (execute sha256Hex printFloat d).trail with execs := [] }
    (execute sha256Hex printFloat d).trail.execs
  rw [List.append_nil] at this
  exact this

/-- A definition whose first run is completed needs no resume. -/
theorem reachesEnd_zero (hlen : d.steps.length < 2 ^ 32)
    (htrail : (execute sha256Hex printFloat (withoutPauses d)).trail =
      (execute sha256Hex printFloat d).trail)
    (hcur : (execute sha256Hex printFloat d).state.cursor = UInt32.ofNat d.steps.length)
    (hcomp : (execute sha256Hex printFloat d).state.completed = true)
    (hpaused : (execute sha256Hex printFloat d).state.paused = false) :
    ReachesEnd sha256Hex printFloat profileMaxSteps d 0 := by
  obtain ⟨-, hscur, hscomp, hspaused⟩ := @execute_withoutPauses sha256Hex printFloat d hlen
  refine ⟨fun m hm => absurd hm (Nat.not_lt_zero m), hcomp, ⟨hcur.trans hscur.symm,
    hpaused.trans hspaused.symm, hcomp.trans hscomp.symm, (congrArg Trail.lastStepId htrail).symm,
    (congrArg Trail.processedStepIds htrail).symm⟩, ?_, fun m hm => ?_⟩
  · rw [List.range_one, List.flatMap_singleton]
    exact (congrArg Trail.execs htrail).symm
  · have hnat : (execute sha256Hex printFloat d).state.cursor.toNat = d.steps.length := by
      rw [hcur]
      exact UInt32.toNat_ofNat_of_lt' hlen
    obtain ⟨h1, h2⟩ := @segments_after_completed sha256Hex printFloat profileMaxSteps d 0 hlen
      hnat hcomp hpaused m
    rw [Nat.zero_add] at h1 h2
    exact ⟨h1 (by omega), h2⟩

/-- A definition whose first run paused ends one resume after the resumed one. -/
theorem reachesEnd_succ (hlen : d.steps.length < 2 ^ 32)
    (htrail : (execute sha256Hex printFloat (withoutPauses d)).trail =
      { (execute sha256Hex printFloat (withoutPauses
          (resumeFrom d (returned sha256Hex printFloat profileMaxSteps d)))).trail with
        execs := (execute sha256Hex printFloat d).trail.execs ++
          (execute sha256Hex printFloat (withoutPauses
            (resumeFrom d (returned sha256Hex printFloat profileMaxSteps d)))).trail.execs })
    (hcomp : (execute sha256Hex printFloat d).state.completed = false)
    (hn : ReachesEnd sha256Hex printFloat profileMaxSteps
      (resumeFrom d (returned sha256Hex printFloat profileMaxSteps d)) n) :
    ReachesEnd sha256Hex printFloat profileMaxSteps d (n + 1) := by
  obtain ⟨-, hscur, hscomp, hspaused⟩ := @execute_withoutPauses sha256Hex printFloat d hlen
  obtain ⟨-, hscur', hscomp', hspaused'⟩ := @execute_withoutPauses sha256Hex printFloat
    (resumeFrom d (returned sha256Hex printFloat profileMaxSteps d)) hlen
  refine ⟨fun m hm => ?_, ?_, ?_, ?_, fun m hm => ?_⟩
  · cases m with
    | zero => exact hcomp
    | succ m => rw [segment_succ]; exact hn.before m (by omega)
  · rw [segment_succ]
    exact hn.completed
  · rw [segment_succ]
    exact hn.progress.trans ⟨hscur'.trans hscur.symm, hspaused'.trans hspaused.symm,
      hscomp'.trans hscomp.symm, (congrArg Trail.lastStepId htrail).symm,
      (congrArg Trail.processedStepIds htrail).symm⟩
  · rw [List.range_succ_eq_map, List.flatMap_cons, List.flatMap_map]
    simp only [segment_succ]
    rw [hn.execs]
    exact (congrArg Trail.execs htrail).symm
  · cases m with
    | zero => omega
    | succ m => rw [segment_succ, segment_succ]; exact hn.after m (by omega)

/-- Finitely many resumes complete a definition. -/
theorem exists_reachesEnd (hlen : d.steps.length < 2 ^ 32) :
    ∃ n, ReachesEnd sha256Hex printFloat profileMaxSteps d n := by
  -- Induction on the steps still ahead; a run that is not completed executes at least one.
  induction hk : d.steps.length - start d using Nat.strong_induction_on generalizing d with
  | _ k ih =>
    obtain ⟨ran, rest, hsteps, htrail, hcur, hflags⟩ := @execute_spec sha256Hex printFloat d hlen
    have hstart := start_le hlen
    have hsum : ran.length + rest.length = d.steps.length - start d := by
      simpa using (congrArg List.length hsteps).symm
    have hle : start d + ran.length ≤ d.steps.length := by omega
    have hnat : (returned sha256Hex printFloat profileMaxSteps d).cursor.toNat =
        start d + ran.length := by
      change (execute sha256Hex printFloat d).state.cursor.toNat = _
      rw [hcur]
      exact UInt32.toNat_ofNat_of_lt' (lt_of_le_of_lt hle hlen)
    rcases hflags with ⟨rfl, hcomp, hpaused⟩ | ⟨hrest, hne, hcomp, -⟩
    · rw [List.append_nil] at hsteps
      rw [List.length_nil, Nat.add_zero] at hsum
      refine ⟨0, reachesEnd_zero hlen ?_ ?_ hcomp hpaused⟩
      · rw [(execute_withoutPauses hlen).1, hsteps, htrail]
      · rw [hcur, show start d + ran.length = d.steps.length by omega]
    · have hpos : 0 < ran.length := List.length_pos_iff.mpr hne
      have hstart' := start_resumeFrom hlen (hnat.trans_le hle)
      obtain ⟨n, hn⟩ := ih (d.steps.length - (start d + ran.length)) (by omega)
        (d := resumeFrom d (returned sha256Hex printFloat profileMaxSteps d)) hlen
        (by rw [hstart', hnat]; rfl)
      exact ⟨n + 1, reachesEnd_succ hlen (withoutPauses_split hlen hsteps htrail hnat hle) hcomp hn⟩

/-- **Pausing and resuming changes nothing.**  For every definition whose number
of steps fits the cursor, whatever its pauses and the state it first resumes
from, finitely many resumes complete it, and they end and execute what one run
without pauses does; and that run executes each step that is left, and ends behind
the last one. -/
theorem segments_eq_single_run (hlen : d.steps.length < 2 ^ 32) :
    (∃ n, ReachesEnd sha256Hex printFloat profileMaxSteps d n) ∧
      (runWorkflowDefinition sha256Hex printFloat profileMaxSteps (withoutPauses d)).state.cursor =
        UInt32.ofNat d.steps.length ∧
      execEvents (runWorkflowDefinition sha256Hex printFloat profileMaxSteps (withoutPauses d)) =
        (d.steps.drop (start d)).mapIdx fun i step =>
          execEvent sha256Hex d (resolveWorkflowId sha256Hex printFloat d) (start d + i) step := by
  obtain ⟨htrail, hcur, -⟩ := @execute_withoutPauses sha256Hex printFloat d hlen
  refine ⟨exists_reachesEnd hlen, hcur, ?_⟩
  have hexecs := congrArg Trail.execs htrail
  rw [execs_advance] at hexecs
  exact hexecs

end Run

/-- Three steps: a pause by flag after the first and by id after the last. -/
def demo : WorkflowDefinition :=
  { workflowId := "demo", deterministicSeed := "seed", pauseAfterStep := some "ship",
    steps := [{ id := "collect", pauseAfter := true }, {}, { id := "ship" }] }

/-- With the identity for the hash and no floats to print. -/
theorem demo_eq_single_run : (∃ n, ReachesEnd id (fun _ => "") (some 512) demo n) ∧
    (execEvents (runWorkflowDefinition id (fun _ => "") (some 512) (withoutPauses demo))).length = 3 := by
  obtain ⟨hends, -, hexecs⟩ := @segments_eq_single_run id (fun _ => "") (some 512) demo (by decide)
  exact ⟨hends, by rw [hexecs]; rfl⟩

end Protheus.Workflow
