import Protheus.LaneUtils
import Protheus.Decompose.Segments

/-!
`decompose_goal` of `decompose.rs`.

The segments of a goal become its tasks, one for each key.  A key is what `normalize_token`
leaves of a segment, so a segment without ASCII letters and digits has none, and segments that
differ in other letters only have the same; what no task is made of is lost.
`losesNothing_iff` says when nothing is.
-/

namespace Protheus.Decompose

open RustStd
open MemoryIndex (lowerChar)

/-! ## Tasks -/

/-- What the crate gets from outside, with the rounding of float arithmetic. -/
structure Host extends Unicode where
  sha256Hex : String → String
  round : ℚ → ℚ

structure DecomposeRequest where
  runId : String
  goalId : String
  goalText : String
  objectiveId : Option String
  policy : DecomposePolicy

structure Capability where
  capabilityId : String
  adapterKind : String
  sourceType : String

structure BaseTask where
  microTaskId : String
  goalId : String
  objectiveId : Option String
  parentId : Option String
  depth : ℕ
  index : ℕ
  title : String
  taskText : String
  estimatedMinutes : ℕ
  successCriteria : List String
  requiredCapability : String
  profileId : String
  capability : Capability
  suggestedLane : String
  parallelGroup : ℕ
  parallelPriority : ℚ

def segmentKey (segment : Segment) : String := normalizeToken segment.text 220

/-- The loop of `dedupe_segments`, with the keys it has seen: as many as there are rows in `out`. -/
def dedupeFrom (maxItems : ℕ) : List String → List Segment → List Segment
  | _, [] => []
  | seen, row :: rest =>
    if segmentKey row = "" ∨ segmentKey row ∈ seen then dedupeFrom maxItems seen rest
    else if maxItems ≤ seen.length + 1 then [row]
    else row :: dedupeFrom maxItems (segmentKey row :: seen) rest

/-- `dedupe_segments`. -/
def dedupeSegments (rows : List Segment) (maxItems : ℕ) : List Segment := dedupeFrom maxItems [] rows

/-- `usize::clamp`, which panics where the bounds stand the wrong way around. -/
def clampUsize (n lo hi : ℕ) : Option ℕ :=
  if hi < lo then none
  else some (if n < lo then lo else if hi < n then hi else n)

/-- `estimate_minutes`. -/
def estimateMinutes (policy : DecomposePolicy) (text : String) : Option ℕ :=
  let words := wordCount text
  let minutes :=
    if 34 < words then 5
    else if 24 < words then 4
    else if 14 < words then 3
    else if 8 < words then 2
    else 1
  clampUsize minutes policy.minMinutes policy.maxMinutes

/-- The words `infer_capability` looks for, in its order. -/
def capabilityWords : List (List String × Capability) := [
  (["email", "slack", "discord", "message", "notify", "outreach"], ⟨"comms_message", "email_message", "comms"⟩),
  (["browser", "web", "site", "ui", "form", "click", "navigate"], ⟨"browser_task", "browser_task", "web_ui"⟩),
  (["api", "http", "endpoint", "request", "json", "graphql", "webhook"], ⟨"api_request", "http_request", "api"⟩),
  (["file", "document", "write", "save", "edit", "patch", "code"],
    ⟨"filesystem_task", "filesystem_task", "filesystem"⟩),
  (["test", "verify", "assert", "validate", "check"], ⟨"quality_check", "shell_task", "analysis"⟩),
  (["research", "analyze", "summarize", "read", "investigate"], ⟨"analysis_task", "shell_task", "analysis"⟩)]

/-- `infer_capability`. -/
def inferCapability (unicode : Unicode) (text : String) : Capability :=
  let lower := text.toList.flatMap lowerChar
  let hit := capabilityWords.find? fun (words, _) =>
    Keywords.isMatch unicode.isWord (· == ·) (words.map String.toList) none lower
  (hit.map (·.2)).getD ⟨"general_task", "shell_task", "analysis"⟩

/-- `title_for_task`. -/
def titleForTask (unicode : Unicode) (text : String) : String :=
  match [' '].intercalate ((Words.words isWhitespace text.toList).take 9) with
  | [] => "Micro Task"
  | first :: rest => String.ofList (unicode.toUppercase first ++ rest)

/-- `success_criteria`. -/
def successCriteria (text : String) : List String :=
  ["Execute: " ++ cleanText text 180, "Capture a receipt and link outcome to objective context."]

/-- `normalize_keyword_rows`. -/
def normalizeKeywordRows (rows : List String) : List String :=
  (rows.map (normalizeToken · 80)).filter (· ≠ "")

/-- `lane_for_task`. -/
def laneForTask (policy : DecomposePolicy) (taskText : String) : String :=
  let lower := normalizeToken taskText 500
  let humanHits := (normalizeKeywordRows policy.humanLaneKeywords).countP (strContains lower ·)
  let autoHits := (normalizeKeywordRows policy.autonomousLaneKeywords).countP (strContains lower ·)
  if autoHits < humanHits then policy.stormLane else policy.defaultLane

section Goal

variable (host : Host) (req : DecomposeRequest)

/-- The id of a run: its own, or one made of the goal. -/
def runIdOf : String :=
  if trim req.runId = "" then "tdp_" ++ sha16 host.sha256Hex (req.goalId ++ "|" ++ req.goalText)
  else trim req.runId

def taskOf (i : ℕ) (segment : Segment) (taskText : String) (minutes : ℕ) : BaseTask :=
  let microTaskId := "mt_" ++ sha16 host.sha256Hex (runIdOf host req ++ "|" ++ toString i ++ "|" ++ taskText)
  { microTaskId
    goalId := req.goalId
    objectiveId := req.objectiveId
    parentId := segment.parentId
    depth := segment.depth
    index := i
    title := titleForTask host.toUnicode taskText
    taskText
    estimatedMinutes := minutes
    successCriteria := successCriteria taskText
    requiredCapability := (inferCapability host.toUnicode taskText).capabilityId
    profileId := "task_micro_" ++ sha16 host.sha256Hex (req.goalId ++ "|" ++ microTaskId)
    capability := inferCapability host.toUnicode taskText
    suggestedLane := laneForTask req.policy taskText
    parallelGroup := i % max req.policy.maxGroups 1
    parallelPriority := host.round (1 / max minutes 1) }

/-- The loop over the segments. -/
def tasksFrom : ℕ → List Segment → Option (List BaseTask)
  | _, [] => some []
  | i, segment :: rest =>
    let taskText := cleanText segment.text 1000
    if taskText = "" then tasksFrom (i + 1) rest
    else
      match estimateMinutes req.policy taskText with
      | none => none
      | some minutes => (tasksFrom (i + 1) rest).map (taskOf host req i segment taskText minutes :: ·)

/-- `human_share`. -/
def humanShare (tasks : List BaseTask) : ℚ :=
  if tasks.isEmpty then 0
  else host.round (tasks.countP (·.suggestedLane = req.policy.stormLane) / tasks.length)

/-- The first task goes to people where they have too few. -/
def shareWithPeople (tasks : List BaseTask) : List BaseTask :=
  if 2 < tasks.length ∧ humanShare host req tasks < req.policy.minStormShare then
    match tasks with
    | [] => []
    | first :: rest => { first with suggestedLane := req.policy.stormLane } :: rest
  else tasks

/-- The segments of the goal of a request. -/
def segmentsOf : List Segment :=
  recursiveDecompose host.toUnicode host.sha256Hex req.policy req.goalText 0 none

/-- `decompose_goal`; `none` is a panic. -/
def decomposeGoal : Option (List BaseTask) :=
  let segments := dedupeSegments (segmentsOf host req) (max req.policy.maxMicroTasks 1)
  (tasksFrom host req 0 segments).map (shareWithPeople host req)

end Goal

/-! ## The segments that are kept -/

section Dedupe

/-- A segment is kept, given the keys that were seen before: it has a key, no segment before it has
the same, and there are fewer keys up to it than items are wanted. -/
def KeptFrom (maxItems : ℕ) (seen : List String) (segments : List Segment) (i : ℕ) (segment : Segment) : Prop :=
  segments[i]? = some segment ∧ segmentKey segment ≠ "" ∧ segmentKey segment ∉ seen ∧
    segmentKey segment ∉ (segments.take i).map segmentKey ∧
    seen.length + ((((segments.take i).map segmentKey).toFinset.erase "") \ seen.toFinset).card < maxItems

def KeptAt (maxItems : ℕ) (segments : List Segment) (i : ℕ) (segment : Segment) : Prop :=
  segments[i]? = some segment ∧ segmentKey segment ≠ "" ∧
    segmentKey segment ∉ (segments.take i).map segmentKey ∧
    (((segments.take i).map segmentKey).toFinset.erase "").card < maxItems

theorem keptFrom_nil {maxItems i : ℕ} {segments : List Segment} {segment : Segment} :
    KeptFrom maxItems [] segments i segment ↔ KeptAt maxItems segments i segment := by
  simp [KeptFrom, KeptAt]

variable {maxItems : ℕ} {seen : List String} {row : Segment} {rest : List Segment} {segment : Segment}

theorem keptFrom_zero (hseen : seen.length < maxItems) : KeptFrom maxItems seen (row :: rest) 0 segment ↔
    row = segment ∧ segmentKey row ≠ "" ∧ segmentKey row ∉ seen := by
  constructor
  · rintro ⟨hrow, hne, hnew, -⟩
    obtain rfl := Option.some.inj hrow
    exact ⟨rfl, hne, hnew⟩
  · rintro ⟨rfl, hne, hnew⟩
    exact ⟨rfl, hne, hnew, by simp, by simpa using hseen⟩

/-- Behind a segment without a new key. -/
theorem keptFrom_succ_of_old (hold : segmentKey row = "" ∨ segmentKey row ∈ seen) (i : ℕ) :
    KeptFrom maxItems seen (row :: rest) (i + 1) segment ↔ KeptFrom maxItems seen rest i segment := by
  have hset (A : Finset String) : ((insert (segmentKey row) A).erase "") \ seen.toFinset =
      A.erase "" \ seen.toFinset := by
    ext key
    simp only [Finset.mem_sdiff, Finset.mem_erase, Finset.mem_insert, List.mem_toFinset]
    constructor
    · rintro ⟨⟨hne, rfl | hkey⟩, hnew⟩
      · exact absurd hold (not_or.mpr ⟨hne, hnew⟩)
      · exact ⟨⟨hne, hkey⟩, hnew⟩
    · rintro ⟨⟨hne, hkey⟩, hnew⟩
      exact ⟨⟨hne, .inr hkey⟩, hnew⟩
  rw [KeptFrom, KeptFrom, List.getElem?_cons_succ, List.take_succ_cons, List.map_cons, List.toFinset_cons, hset,
    List.mem_cons, not_or]
  constructor
  · rintro ⟨hget, hne, hnew, ⟨-, hfirst⟩, hcard⟩
    exact ⟨hget, hne, hnew, hfirst, hcard⟩
  · rintro ⟨hget, hne, hnew, hfirst, hcard⟩
    refine ⟨hget, hne, hnew, ⟨fun hkey => ?_, hfirst⟩, hcard⟩
    rw [← hkey] at hold
    exact hold.elim hne hnew

/-- Behind a segment with a new key. -/
theorem keptFrom_succ_of_new (hne : segmentKey row ≠ "") (hnew : segmentKey row ∉ seen) (i : ℕ) :
    KeptFrom maxItems seen (row :: rest) (i + 1) segment ↔
      KeptFrom maxItems (segmentKey row :: seen) rest i segment := by
  have hcard (A : Finset String) : (((insert (segmentKey row) A).erase "") \ seen.toFinset).card =
      (A.erase "" \ (segmentKey row :: seen).toFinset).card + 1 := by
    have hinsert : ((insert (segmentKey row) A).erase "") \ seen.toFinset =
        insert (segmentKey row) (A.erase "" \ (segmentKey row :: seen).toFinset) := by
      ext key
      simp only [Finset.mem_sdiff, Finset.mem_erase, Finset.mem_insert, List.mem_toFinset, List.mem_cons]
      by_cases hkey : key = segmentKey row
      · simp [hkey, hne, hnew]
      · simp [hkey]
    rw [hinsert, Finset.card_insert_of_notMem]
    simp
  rw [KeptFrom, KeptFrom, List.getElem?_cons_succ, List.take_succ_cons, List.map_cons, List.toFinset_cons, hcard,
    List.mem_cons, List.mem_cons, List.length_cons, not_or, not_or]
  constructor
  · rintro ⟨hget, hkey, hold, ⟨hdiffers, hfirst⟩, hcount⟩
    exact ⟨hget, hkey, ⟨hdiffers, hold⟩, hfirst, by omega⟩
  · rintro ⟨hget, hkey, ⟨hdiffers, hold⟩, hfirst, hcount⟩
    exact ⟨hget, hkey, hold, ⟨hdiffers, hfirst⟩, by omega⟩

/-- What the loop keeps. -/
theorem mem_dedupeFrom (hseen : seen.length < maxItems) {segments : List Segment} :
    segment ∈ dedupeFrom maxItems seen segments ↔ ∃ i, KeptFrom maxItems seen segments i segment := by
  have hsplit (P : ℕ → Prop) : (∃ i, P i) ↔ P 0 ∨ ∃ i, P (i + 1) := by
    constructor
    · rintro ⟨i, hi⟩
      cases i with
      | zero => exact .inl hi
      | succ i => exact .inr ⟨i, hi⟩
    · rintro (hzero | ⟨i, hi⟩)
      · exact ⟨0, hzero⟩
      · exact ⟨i + 1, hi⟩
  fun_induction dedupeFrom maxItems seen segments with
  | case1 seen => simp [KeptFrom]
  | case2 seen row rest hold ih =>
    have hih : segment ∈ dedupeFrom maxItems seen rest ↔ ∃ i, KeptFrom maxItems seen rest i segment := ih hseen
    rw [hsplit, keptFrom_zero hseen, hih]
    simp only [keptFrom_succ_of_old hold]
    have hfirst : ¬(row = segment ∧ segmentKey row ≠ "" ∧ segmentKey row ∉ seen) :=
      fun h => hold.elim h.2.1 h.2.2
    rw [or_iff_right hfirst]
  | case3 seen row rest hnew hfull =>
    rw [not_or] at hnew
    rw [hsplit, keptFrom_zero hseen, List.mem_singleton]
    simp only [keptFrom_succ_of_new hnew.1 hnew.2]
    have hnone : ¬∃ i, KeptFrom maxItems (segmentKey row :: seen) rest i segment := by
      rintro ⟨i, -, -, -, -, hcount⟩
      rw [List.length_cons] at hcount
      omega
    rw [or_iff_left hnone, and_iff_left ⟨hnew.1, hnew.2⟩, eq_comm]
  | case4 seen row rest hnew hroom ih =>
    rw [not_or] at hnew
    have hroom' : (segmentKey row :: seen).length < maxItems := by
      rw [List.length_cons]
      omega
    have hih : segment ∈ dedupeFrom maxItems (segmentKey row :: seen) rest ↔
      ∃ i, KeptFrom maxItems (segmentKey row :: seen) rest i segment := ih hroom'
    rw [hsplit, keptFrom_zero hseen, List.mem_cons, hih]
    simp only [keptFrom_succ_of_new hnew.1 hnew.2]
    rw [and_iff_left ⟨hnew.1, hnew.2⟩, eq_comm]

/-- **What `dedupe_segments` keeps.** -/
theorem mem_dedupeSegments {segments : List Segment} (h : 0 < maxItems) :
    segment ∈ dedupeSegments segments maxItems ↔ ∃ i, KeptAt maxItems segments i segment := by
  rw [dedupeSegments, mem_dedupeFrom h]
  simp only [keptFrom_nil]

theorem exists_kept_iff {segments : List Segment} (h : 0 < maxItems) :
    (∃ i segment, KeptAt maxItems segments i segment) ↔ ∃ segment ∈ segments, segmentKey segment ≠ "" := by
  constructor
  · rintro ⟨i, segment, hget, hne, -⟩
    exact ⟨segment, List.mem_of_getElem? hget, hne⟩
  · intro hkeyed
    -- the first segment with a key is kept
    obtain ⟨before, segment, after, hbefore, hsegments, hne⟩ :
        ∃ before segment after, (∀ row ∈ before, segmentKey row = "") ∧
          segments = before ++ segment :: after ∧ segmentKey segment ≠ "" := by
      have hsome : (segments.find? fun row => segmentKey row ≠ "").isSome := by
        obtain ⟨segment, hsegment, hne⟩ := hkeyed
        exact List.find?_isSome.mpr ⟨segment, hsegment, decide_eq_true hne⟩
      obtain ⟨segment, hfound⟩ := Option.isSome_iff_exists.mp hsome
      obtain ⟨hne, before, after, hsegments, hbefore⟩ := List.find?_eq_some_iff_append.mp hfound
      exact ⟨before, segment, after, fun row hrow => by simpa using hbefore row hrow, hsegments,
        of_decide_eq_true hne⟩
    refine ⟨before.length, segment, ?_, hne, ?_, ?_⟩
    · rw [hsegments, List.getElem?_append_right (Nat.le_refl _), Nat.sub_self]
      rfl
    · rw [hsegments, List.take_left, List.mem_map]
      rintro ⟨row, hrow, hkey⟩
      exact hne (hkey ▸ hbefore row hrow)
    · have hempty : ((before.map segmentKey).toFinset.erase "") = ∅ := by
        ext key
        simp only [Finset.mem_erase, List.mem_toFinset, List.mem_map, Finset.notMem_empty, iff_false, not_and]
        rintro hkey ⟨row, hrow, rfl⟩
        exact hkey (hbefore row hrow)
      rw [hsegments, List.take_left, hempty, Finset.card_empty]
      exact h

end Dedupe

/-! ## The tasks of a goal -/

section Tasks

variable {host : Host} {req : DecomposeRequest}

/-- An estimate panics exactly where the policy's bounds stand the wrong way around. -/
theorem estimateMinutes_eq_none_iff {policy : DecomposePolicy} (text : String) :
    estimateMinutes policy text = none ↔ policy.maxMinutes < policy.minMinutes := by
  unfold estimateMinutes clampUsize
  dsimp only
  split
  · simp [*]
  · simp [*]

/-- What a task tells of its segment. -/
def told (task : BaseTask) : String × ℕ := (task.taskText, task.depth)

/-- The loop makes a task of every segment, or panics at the first. -/
theorem tasksFrom_spec (i : ℕ) {segments : List Segment} (h : ∀ segment ∈ segments, IsSegment req.policy segment) :
    (req.policy.minMinutes ≤ req.policy.maxMinutes ∨ segments = [] →
      ∃ tasks, tasksFrom host req i segments = some tasks ∧
        tasks.map told = segments.map fun segment => (segment.text, segment.depth)) ∧
    (req.policy.maxMinutes < req.policy.minMinutes → segments ≠ [] → tasksFrom host req i segments = none) := by
  induction segments generalizing i with
  | nil => exact ⟨fun _ => ⟨[], rfl, rfl⟩, fun _ hne => absurd rfl hne⟩
  | cons segment rest ih =>
    have hsegment := h segment List.mem_cons_self
    have htext : ¬cleanText segment.text 1000 = "" := by
      rw [hsegment.cleaned]
      exact hsegment.nonempty
    constructor
    · intro hbounds
      have hle : req.policy.minMinutes ≤ req.policy.maxMinutes := hbounds.resolve_right (List.cons_ne_nil _ _)
      obtain ⟨tasks, htasks, htold⟩ :=
        (ih (i + 1) fun segment hmem => h segment (List.mem_cons_of_mem _ hmem)).1 (.inl hle)
      cases hminutes : estimateMinutes req.policy (cleanText segment.text 1000) with
      | none => exact absurd ((estimateMinutes_eq_none_iff _).mp hminutes) (Nat.not_lt.mpr hle)
      | some minutes =>
        refine ⟨taskOf host req i segment (cleanText segment.text 1000) minutes :: tasks, ?_, ?_⟩
        · rw [tasksFrom, if_neg htext, hminutes, htasks]
          rfl
        · rw [List.map_cons, List.map_cons, htold, hsegment.cleaned]
          rfl
    · intro hwrong _
      rw [tasksFrom, if_neg htext, (estimateMinutes_eq_none_iff _).mpr hwrong]

/-- Only a lane changes in the end. -/
theorem map_told_shareWithPeople (tasks : List BaseTask) :
    (shareWithPeople host req tasks).map told = tasks.map told := by
  unfold shareWithPeople
  split
  · cases tasks with
    | nil => rfl
    | cons first rest => rfl
  · rfl

/-! ## What is lost of a goal -/

/-- `decompose_goal` does not panic, its tasks are not too deep, and every run of letters and digits
of the goal that is no connector word stands in one of them. -/
def LosesNothing (host : Host) (req : DecomposeRequest) : Prop :=
  ∃ tasks, decomposeGoal host req = some tasks ∧ (∀ task ∈ tasks, task.depth ≤ req.policy.maxDepth) ∧
    ∀ run ∈ runs host.toUnicode req.goalText, ∃ task ∈ tasks, run <:+: task.taskText.toList

/-- The segment is kept when the goal of a request is decomposed. -/
def KeptOf (host : Host) (req : DecomposeRequest) (i : ℕ) (segment : Segment) : Prop :=
  KeptAt (max req.policy.maxMicroTasks 1) (segmentsOf host req) i segment

/-- The runs of a segment that is left out stand in segments that are kept. -/
def RunsStay (host : Host) (req : DecomposeRequest) : Prop :=
  ∀ i segment, (segmentsOf host req)[i]? = some segment → ¬KeptOf host req i segment →
    ∀ run ∈ runs host.toUnicode segment.text, ∃ j kept, KeptOf host req j kept ∧ run <:+: kept.text.toList

/-- The tasks are those of the segments that are kept. -/
theorem decomposeGoal_spec (h : req.goalText.toList.length ≤ 600) :
    (req.policy.minMinutes ≤ req.policy.maxMinutes ∨ (∀ segment ∈ segmentsOf host req, segmentKey segment = "") →
      ∃ tasks, decomposeGoal host req = some tasks ∧ ∀ text depth,
        (text, depth) ∈ tasks.map told ↔
          ∃ i segment, KeptOf host req i segment ∧ segment.text = text ∧ segment.depth = depth) ∧
    (¬(req.policy.minMinutes ≤ req.policy.maxMinutes ∨ ∀ segment ∈ segmentsOf host req, segmentKey segment = "") →
      decomposeGoal host req = none) := by
  have hpos : 0 < max req.policy.maxMicroTasks 1 := lt_max_of_lt_right Nat.one_pos
  obtain ⟨kept, hkept⟩ : ∃ kept, kept = dedupeSegments (segmentsOf host req) (max req.policy.maxMicroTasks 1) :=
    ⟨_, rfl⟩
  have hmem (segment : Segment) : segment ∈ kept ↔ ∃ i, KeptOf host req i segment := by
    rw [hkept]
    exact mem_dedupeSegments hpos
  have hsegments : ∀ segment ∈ kept, IsSegment req.policy segment := by
    intro segment hsegment
    obtain ⟨i, hget, -⟩ := (hmem segment).mp hsegment
    exact isSegment_recursiveDecompose h (Nat.zero_le _) segment (List.mem_of_getElem? hget)
  have hnil : kept = [] ↔ ∀ segment ∈ segmentsOf host req, segmentKey segment = "" := by
    have hexists := @exists_kept_iff _ (segmentsOf host req) hpos
    rw [List.eq_nil_iff_forall_not_mem]
    constructor
    · intro hnone segment hsegment
      by_contra hne
      obtain ⟨i, first, hfirst⟩ := hexists.mpr ⟨segment, hsegment, hne⟩
      exact hnone first ((hmem first).mpr ⟨i, hfirst⟩)
    · intro hall segment hsegment
      obtain ⟨i, hi⟩ := (hmem segment).mp hsegment
      obtain ⟨other, hother, hne⟩ := hexists.mp ⟨i, segment, hi⟩
      exact hne (hall other hother)
  obtain ⟨hsome, hnone⟩ := @tasksFrom_spec host req 0 kept hsegments
  constructor
  · intro hbounds
    obtain ⟨tasks, htasks, htold⟩ := hsome (hbounds.imp_right hnil.mpr)
    refine ⟨shareWithPeople host req tasks, ?_, fun text depth => ?_⟩
    · rw [decomposeGoal, ← hkept, htasks]
      rfl
    · rw [map_told_shareWithPeople, htold, List.mem_map]
      constructor
      · rintro ⟨segment, hsegment, heq⟩
        obtain ⟨i, hi⟩ := (hmem segment).mp hsegment
        exact ⟨i, segment, hi, congrArg Prod.fst heq, congrArg Prod.snd heq⟩
      · rintro ⟨i, segment, hi, rfl, rfl⟩
        exact ⟨segment, (hmem segment).mpr ⟨i, hi⟩, rfl⟩
  · intro hwrong
    rw [not_or, Nat.not_le, ← hnil] at hwrong
    rw [decomposeGoal, ← hkept, hnone hwrong.1 hwrong.2]
    rfl

/-- **A goal loses nothing if and only if** no estimate panics, because the bounds on the minutes stand
the right way around or no segment has a key, and every segment that is left out, for want of a key,
for the key of an earlier segment or for the limit on tasks, has its runs in segments that are kept. -/
theorem losesNothing_iff (host : Host) (req : DecomposeRequest) (h : req.goalText.toList.length ≤ 600) :
    LosesNothing host req ↔
      (req.policy.minMinutes ≤ req.policy.maxMinutes ∨
        ∀ segment ∈ segmentsOf host req, segmentKey segment = "") ∧ RunsStay host req := by
  obtain ⟨hsome, hnone⟩ := @decomposeGoal_spec host req h
  have hruns : (segmentsOf host req).flatMap (runs host.toUnicode ·.text) = runs host.toUnicode req.goalText :=
    runs_recursiveDecompose 0 none h
  constructor
  · rintro ⟨tasks, htasks, -, hall⟩
    have hbounds : req.policy.minMinutes ≤ req.policy.maxMinutes ∨
        ∀ segment ∈ segmentsOf host req, segmentKey segment = "" := by
      by_contra hwrong
      rw [hnone hwrong] at htasks
      cases htasks
    refine ⟨hbounds, fun i segment hget _ run hrun => ?_⟩
    obtain ⟨tasks', htasks', htold⟩ := hsome hbounds
    obtain rfl : tasks = tasks' := Option.some.inj (htasks.symm.trans htasks')
    have hgoal : run ∈ runs host.toUnicode req.goalText := by
      rw [← hruns]
      exact List.mem_flatMap.mpr ⟨segment, List.mem_of_getElem? hget, hrun⟩
    obtain ⟨task, htask, hin⟩ := hall run hgoal
    obtain ⟨j, kept, hkept, htext, -⟩ := (htold task.taskText task.depth).mp (List.mem_map_of_mem htask)
    exact ⟨j, kept, hkept, htext ▸ hin⟩
  · rintro ⟨hbounds, hstay⟩
    obtain ⟨tasks, htasks, htold⟩ := hsome hbounds
    refine ⟨tasks, htasks, fun task htask => ?_, fun run hrun => ?_⟩
    · obtain ⟨i, segment, hkept, -, hdepth⟩ := (htold task.taskText task.depth).mp (List.mem_map_of_mem htask)
      have hsegment := isSegment_recursiveDecompose h (Nat.zero_le _) segment (List.mem_of_getElem? hkept.1)
      exact hdepth ▸ hsegment.depth
    · rw [← hruns] at hrun
      obtain ⟨segment, hsegment, hin⟩ := List.mem_flatMap.mp hrun
      obtain ⟨i, hget⟩ := List.mem_iff_getElem?.mp hsegment
      -- the run stands in its own segment, or in one that is kept for it
      obtain ⟨j, kept, hkept, hinfix⟩ : ∃ j kept, KeptOf host req j kept ∧ run <:+: kept.text.toList := by
        by_cases hkept : KeptOf host req i segment
        · exact ⟨i, segment, hkept, Words.isInfix_of_mem_words (List.mem_filter.mp hin).1⟩
        · exact hstay i segment hget hkept run hin
      obtain ⟨task, htask, htold'⟩ := List.mem_map.mp ((htold kept.text kept.depth).mpr ⟨j, kept, hkept, rfl, rfl⟩)
      have htext : task.taskText = kept.text := congrArg Prod.fst htold'
      exact ⟨task, htask, htext ▸ hinfix⟩

end Tasks

/-! ## A goal that is kept, and one that is lost -/

/-- A blank is no letter of ASCII, no long s and no ideograph. -/
theorem blank_unlettered (c : Char) (h : isWhitespace c = true) :
    (c.isAlphanum || c == '\u017F' || (0x4E00 ≤ c.toNat && c.toNat ≤ 0x9FFF)) = false := by
  have hnot := LaneUtils.isAlphanum_of_isWhitespace h
  have hlong : c ≠ '\u017F' := by
    rintro rfl
    revert h
    decide
  simp only [isWhitespace, Bool.or_eq_true, Bool.and_eq_true, decide_eq_true_eq, beq_iff_eq] at h
  simp only [hnot, beq_false_of_ne hlong, Bool.false_or, Bool.and_eq_false_iff, decide_eq_false_iff_not]
  omega

/-- Letters are those of ASCII, the long s and the ideographs. -/
def plainUnicode : Unicode where
  isWord c := c.isAlphanum || c == '\u017F' || (0x4E00 ≤ c.toNat && c.toNat ≤ 0x9FFF) || c == '_'
  isLetterOrDigit c := c.isAlphanum || c == '\u017F' || (0x4E00 ≤ c.toNat && c.toNat ≤ 0x9FFF)
  toUppercase c := [c.toUpper]
  word c h := by rw [h, Bool.true_or]
  ascii c h := by rw [h, Bool.true_or, Bool.true_or]
  longS := by decide
  blank := blank_unlettered
  semicolon := by decide

def plainHost : Host where
  toUnicode := plainUnicode
  sha256Hex _ := String.ofList (List.replicate 64 '0')
  round q := q

/-- A request with the policy's defaults. -/
def plainRequest (goalText : String) : DecomposeRequest where
  runId := ""
  goalId := "goal"
  goalText
  objectiveId := none
  policy :=
    { maxDepth := 4
      maxMicroTasks := 96
      maxWordsPerLeaf := 18
      minMinutes := 1
      maxMinutes := 5
      maxGroups := 8
      defaultLane := "autonomous_micro_agent"
      stormLane := "storm_human_lane"
      humanLaneKeywords := []
      autonomousLaneKeywords := []
      minStormShare := 3 / 20 }

/-- A short goal is one segment. -/
theorem segmentsOf_plainRequest {goalText : String} (hclean : cleanText goalText 1200 = goalText)
    (hne : goalText ≠ "") (hwords : wordCount goalText ≤ 18) :
    segmentsOf plainHost (plainRequest goalText) = [⟨goalText, 0, none⟩] := by
  have hleaf : (plainRequest goalText).policy.maxDepth ≤ 0 ∨
      wordCount goalText ≤ (plainRequest goalText).policy.maxWordsPerLeaf := .inr hwords
  have htext : (plainRequest goalText).goalText = goalText := rfl
  rw [segmentsOf, htext, recursiveDecompose, hclean]
  simp only [hne, hleaf, if_true, if_false]

theorem short_goal_kept : LosesNothing plainHost (plainRequest "write docs") := by
  have hsegments := @segmentsOf_plainRequest "write docs" (by decide) (by decide) (by decide)
  have hkey : segmentKey ⟨"write docs", 0, none⟩ ≠ "" := by decide
  refine (losesNothing_iff plainHost (plainRequest "write docs") (by decide)).mpr ⟨.inl (by decide), ?_⟩
  intro i segment hget hleft
  rw [hsegments] at hget
  cases i with
  | zero =>
    obtain rfl := Option.some.inj hget
    refine absurd ⟨?_, hkey, by simp, by simp⟩ hleft
    rw [hsegments]
    rfl
  | succ i => cases hget

/-- A goal in ideographs has no key. -/
theorem ideographs_lost : ¬LosesNothing plainHost (plainRequest "日本語") := by
  have hsegments := @segmentsOf_plainRequest "日本語" (by decide) (by decide) (by decide)
  have hkey : segmentKey ⟨"日本語", 0, none⟩ = "" := by decide
  have hnone : decomposeGoal plainHost (plainRequest "日本語") = some [] := by
    rw [decomposeGoal, hsegments, dedupeSegments, dedupeFrom, if_pos (.inl hkey)]
    rfl
  rintro ⟨tasks, htasks, -, hall⟩
  obtain rfl := Option.some.inj (hnone.symm.trans htasks)
  have hrun : ['日', '本', '語'] ∈ runs plainHost.toUnicode "日本語" := by decide
  obtain ⟨task, htask, -⟩ := hall _ hrun
  cases htask

end Protheus.Decompose
