import Protheus.Lib.LockFile
import Protheus.V8Kernel

/-!
`set-json` of `adaptive_layer_store_kernel.rs` as a compare-and-set: commands of any
number of processes on one file, step by step.

A command takes the write lock of the file, reads the file, compares the hash of what
it read with the one it expects, renames its own value into place and gives the lock
up.  The lock is a `LockFile`, so a command that judged a lock file too old may remove
the one another command has made since.  `applied_exact` says that this is the only
way in which a command can replace something else than what it expected, but for a
file that does not hold JSON, which the missing sentinel takes for a missing one.
-/

namespace Protheus.AdaptiveStore

open LockFile V8Kernel

/-- `WRITE_LOCK_TIMEOUT_MS`. -/
def writeLockTimeoutMs : ℕ := 8000

/-- `WRITE_LOCK_STALE_MS`. -/
def writeLockStaleMs : ℕ := 30000

/-- `MISSING_HASH_SENTINEL`. -/
def missingHashSentinel : String := "__missing__"

/-- What a path holds. -/
inductive Content where
  | missing
  /-- A file whose text is no JSON. -/
  | unreadable
  | json (value : Json)
  deriving DecidableEq

/-- A `set-json` command: `expected_hash` as `clean_text` leaves it, and `value`. -/
structure SetJson where
  expectedHash : String
  value : Json

/-- Where a command is while it holds the lock: `WRITE_LOCK_RETRY_MS` and the messages
aside, it reads and then renames. -/
inductive Place where
  | read
  | rename
  deriving DecidableEq

/-- The answer of a command; with `applied = true` comes what its rename replaced. -/
inductive Answer where
  | conflict
  | applied (replaced : Content)
  deriving DecidableEq

/-- `read_json_with_hash`: whether there is a value, and its hash. -/
def readJsonWithHash (host : Host) : Content → Bool × Option String
  | .missing => (false, none)
  | .unreadable => (false, none)
  | .json value => (true, some (host.digest value))

/-- The conflict test of `set_json_command`. -/
def conflicts (host : Host) (command : SetJson) (content : Content) : Bool :=
  let (exists_, currentHash) := readJsonWithHash host content
  if command.expectedHash ≠ "" then
    if command.expectedHash = missingHashSentinel then exists_
    else currentHash != some command.expectedHash
  else false

/-- What `set_json_command` does while it holds the lock. -/
def work (host : Host) (command : SetJson) (content : Content) :
    Place → Content × (Place ⊕ Answer)
  | .read => (content, if conflicts host command content then .inr .conflict else .inl .rename)
  | .rename => (.json command.value, .inr (.applied content))

/-- The commands of the processes on one path. -/
def setJson {ι : Type*} (host : Host) (commands : ι → SetJson) :
    Protocol ι Content Place Answer where
  staleMs := writeLockStaleMs
  timeoutMs := writeLockTimeoutMs
  first := .read
  work p := work host (commands p)

/-- The content is the one a command expects to replace. -/
def Expected (host : Host) (command : SetJson) (content : Content) : Prop :=
  if command.expectedHash = missingHashSentinel then content = .missing
  else ∃ value, content = .json value ∧ host.digest value = command.expectedHash

/-- `Expected`, content by content. -/
theorem expected_iff {host : Host} {command : SetJson} {content : Content} :
    Expected host command content ↔
      match content with
      | .missing => command.expectedHash = missingHashSentinel
      | .unreadable => False
      | .json value => command.expectedHash ≠ missingHashSentinel ∧
          host.digest value = command.expectedHash := by
  unfold Expected
  cases content with
  | missing => simp
  | unreadable => simp
  | json value => simp

instance (host : Host) (command : SetJson) :
    ∀ content, Decidable (Expected host command content)
  | .missing => decidable_of_iff (command.expectedHash = missingHashSentinel)
      (@expected_iff host command .missing).symm
  | .unreadable => isFalse fun h => (@expected_iff host command .unreadable).mp h
  | .json value => decidable_of_iff (command.expectedHash ≠ missingHashSentinel ∧
      host.digest value = command.expectedHash) (@expected_iff host command (.json value)).symm

/-- A command that expects no file does not meet one without JSON. -/
def Readable (command : SetJson) (content : Content) : Place → Prop
  | .read => command.expectedHash = missingHashSentinel → content ≠ .unreadable
  | .rename => True

instance (command : SetJson) (content : Content) :
    ∀ place, Decidable (Readable command content place)
  | .read => inferInstanceAs (Decidable (_ → _))
  | .rename => isTrue trivial

/-- What a command knows of the file while it holds the lock. -/
def Knows (host : Host) (command : SetJson) (content : Content) : Place → Prop
  | .read => True
  | .rename => command.expectedHash ≠ "" → Expected host command content

/-- A command that finds no conflict has read what it expects. -/
theorem expected_of_not_conflicts {host : Host} {command : SetJson} {content : Content}
    (hconflict : conflicts host command content = false)
    (hreadable : Readable command content .read) (hexpects : command.expectedHash ≠ "") :
    Expected host command content := by
  unfold conflicts at hconflict
  unfold Expected
  dsimp only at hconflict
  rw [if_pos hexpects] at hconflict
  split
  · rename_i hmissing
    rw [if_pos hmissing] at hconflict
    cases content with
    | missing => rfl
    | unreadable => exact absurd rfl (hreadable hmissing)
    | json value => cases hconflict
  · rename_i hmissing
    rw [if_neg hmissing] at hconflict
    have hhash : (readJsonWithHash host content).2 = some command.expectedHash := by
      simpa using hconflict
    cases content with
    | missing => cases hhash
    | unreadable => cases hhash
    | json value => exact ⟨value, rfl, Option.some.inj hhash⟩

/-- **No update is lost.**  In a run of commands on one path in which no running process
holds the lock longer than the stale limit, no command removes another lock file than
the one it judged stale, and none that expects no file meets one without JSON: what an
applied command replaced is what it expected. -/
theorem applied_exact {ι : Type*} [DecidableEq ι] (host : Host) (commands : ι → SetJson)
    (s : State ι Content Place Answer) (hs : Starts s) (events : List (Event ι))
    (hprompt : Runs.Meets (step (setJson host commands))
      (fun s _ => Prompt (setJson host commands) s) s events)
    (hmeets : Runs.Meets (step (setJson host commands))
      (Orderly fun p content place => Readable (commands p) content place) s events)
    {p : ι} (hexpects : (commands p).expectedHash ≠ "") {replaced : Content}
    (hdone : (Runs.run (step (setJson host commands)) s events).phase p =
      .done (.applied replaced)) : Expected host (commands p) replaced := by
  let know (p : ι) (content : Content) (place : Place) : Prop :=
    Knows host (commands p) content place
  let post (p : ι) (answer : Answer) : Prop :=
    ∀ replaced, answer = .applied replaced → (commands p).expectedHash ≠ "" →
      Expected host (commands p) replaced
  have hfirst (p : ι) (content : Content) : know p content (setJson host commands).first := trivial
  have hwork (p : ι) (content : Content) (place : Place) (hknow : know p content place)
      (hmay : Readable (commands p) content place) :
      Works (setJson host commands) know post p content place := by
    cases place with
    | read =>
      by_cases hconflict : conflicts host (commands p) content = true
      · have hwork : (setJson host commands).work p content .read = (content, .inr .conflict) := by
          simp [setJson, work, hconflict]
        rw [Works, hwork]
        exact nofun
      · have hwork : (setJson host commands).work p content .read = (content, .inl .rename) := by
          simp [setJson, work, hconflict]
        rw [Works, hwork]
        exact expected_of_not_conflicts (by simpa using hconflict) hmay
    | rename =>
      change post p (.applied content)
      intro replaced hreplaced
      rw [← Answer.applied.inj hreplaced]
      exact hknow
  exact result_of_meets hs hfirst hwork hprompt hmeets hdone replaced rfl hexpects

/-! ### After a crash -/

/-- Two commands that expect the file as it stands. -/
def rivals (p : Fin 2) : SetJson :=
  { expectedHash := plainHost.digest .null, value := .str (if p = 0 then "first" else "second") }

/-- A crashed command left its lock file behind thirty seconds ago. -/
def leftBehind : State (Fin 2) Content Place Answer where
  shared := .json .null
  lock := some ⟨0, 0⟩
  now := 30001
  made := 1
  phase _ := .idle

/-- Steps of one command, one after another. -/
def acts (n : ℕ) (p : Fin 2) : List (Event (Fin 2)) := List.replicate n (.act p)

/-- One command takes the stale lock over and is done before the other one starts. -/
def inTurn : List (Event (Fin 2)) := acts 9 0

theorem inTurn_exact : Expected plainHost (rivals 0) (.json .null) := by
  have hdone : (Runs.run (step (setJson plainHost rivals)) leftBehind inTurn).phase 0 =
      .done (.applied (.json .null)) := by
    decide
  exact applied_exact plainHost rivals leftBehind ⟨by decide, by decide⟩ inTurn
    (by decide) (by decide) (by decide) hdone

/-- Both commands judge the lock stale before one of them takes it over. -/
def bothJudge : List (Event (Fin 2)) :=
  [acts 3 0, acts 3 1, acts 4 0, acts 4 1, acts 2 0, acts 2 1].flatten

/-- The second command then removes the lock of the first, which is at work, and its
rename replaces what the first one has just written. -/
theorem bothJudge_loses_update :
    Starts leftBehind ∧
      Runs.Meets (step (setJson plainHost rivals))
        (fun s _ => Prompt (setJson plainHost rivals) s) leftBehind bothJudge ∧
      (rivals 1).expectedHash ≠ "" ∧
      (Runs.run (step (setJson plainHost rivals)) leftBehind bothJudge).phase 0 =
        .done (.applied (.json .null)) ∧
      (Runs.run (step (setJson plainHost rivals)) leftBehind bothJudge).phase 1 =
        .done (.applied (.json (.str "first"))) ∧
      ¬Expected plainHost (rivals 1) (.json (.str "first")) := by
  refine ⟨⟨by decide, by decide⟩, ?_⟩
  decide

end Protheus.AdaptiveStore
