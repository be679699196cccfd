import Protheus.AdaptiveStore.Paths

/-!
The constitution guardian of `security_planes.rs`: a change is proposed with a candidate
file, approved, vetoed and put through the gauntlet, and activated over the constitution;
an emergency rollback copies the newest backup back.

Proposals and their candidates are kept by their identifier, which is a single component of
a path and names their directory; the constitution lies outside the guardian's own directory.
-/

namespace Protheus.ConstitutionGuardian

open AdaptiveStore (normalizePathString trimStartMatches)
open Std (ExtTreeMap)
open UnixPath (Path)
open V8Kernel (clean)

abbrev Content := List UInt8

/-- `sha256_hex_bytes`. -/
structure Host where
  sha256HexBytes : Content → String

/-! ## Paths -/

/-- The root of the repository, and `PROTHEUS_SECURITY_STATE_ROOT`. -/
structure Setting where
  repoRoot : Path
  securityStateRoot : String := ""

/-- `normalize_rel`. -/
def normalizeRel (raw : Path) : Path :=
  (trimStartMatches "./".toList (normalizePathString raw)).dropWhile (· == '/')

namespace Setting

/-- `runtime_root`. -/
def runtimeRoot (setting : Setting) : Path :=
  UnixPath.join (UnixPath.join setting.repoRoot "client".toList) "runtime".toList

/-- `local_state_root`. -/
def localStateRoot (setting : Setting) : Path :=
  let t := RustStd.trim setting.securityStateRoot
  if t = "" then
    UnixPath.join (UnixPath.join (UnixPath.join setting.repoRoot "client".toList) "local".toList)
      "state".toList
  else t.toList

/-- `resolve_runtime_or_state`. -/
def resolveRuntimeOrState (setting : Setting) (raw : Path) : Path :=
  let trimmed := (clean (String.ofList raw) 600).toList
  if trimmed = [] then setting.runtimeRoot
  else if UnixPath.isAbsolute trimmed then trimmed
  else
    let rel := normalizeRel trimmed
    if "local/state/".toList <+: rel then
      UnixPath.join setting.localStateRoot (trimStartMatches "local/state/".toList rel)
    else UnixPath.join setting.runtimeRoot rel

end Setting

structure Policy where
  stateDir : String
  minApprovalNoteChars : ℕ
  requireDualApproval : Bool
  emergencyRollbackRequiresApproval : Bool

def candidateCopy (setting : Setting) (policy : Policy) (proposalId : String) : Path :=
  let stateDir := setting.resolveRuntimeOrState policy.stateDir.toList
  let proposalDir := UnixPath.join (UnixPath.join stateDir "proposals".toList) proposalId.toList
  UnixPath.join proposalDir "candidate_constitution.md".toList

/-- The path that is recorded for a candidate leads back to its copy. -/
def LeadsBack (setting : Setting) (policy : Policy) (proposalId : String) : Prop :=
  let copy := candidateCopy setting policy proposalId
  UnixPath.resolve (setting.resolveRuntimeOrState (normalizeRel copy)) = UnixPath.resolve copy

instance (setting : Setting) (policy : Policy) (proposalId : String) :
    Decidable (LeadsBack setting policy proposalId) :=
  inferInstanceAs (Decidable (_ = _))

/-! ## Proposals -/

inductive Status where
  | pendingApproval
  | pendingSecondaryApproval
  | approved
  | vetoed
  | gauntletPassed
  | gauntletFailed
  | active
  deriving DecidableEq, Repr

structure Approval where
  approverId : String
  approvalNote : String
  ts : String
  deriving DecidableEq, Repr

structure Veto where
  vetoBy : String
  note : String
  ts : String
  deriving DecidableEq, Repr

structure Gauntlet where
  ts : String
  criticalFailures : ℤ
  evidence : String
  passed : Bool
  deriving DecidableEq, Repr

structure Activation where
  approverId : String
  approvalNote : String
  deriving DecidableEq, Repr

structure Proposal where
  proposalId : String
  status : Status
  createdAt : String
  proposerId : String
  reason : String
  candidateFile : Path
  candidateSha256 : String
  approvals : List Approval := []
  veto : Option Veto := none
  gauntlet : Option Gauntlet := none
  activatedAt : Option String := none
  updatedAt : Option String := none
  activation : Option Activation := none
  deriving DecidableEq, Repr

/-- The files of the guardian, and the constitution; backups go by their file name. -/
structure Guardian where
  constitution : Option Content
  proposals : ExtTreeMap String Proposal := ∅
  candidates : ExtTreeMap String Content := ∅
  history : ExtTreeMap String Content := ∅

/-- The writes a command may fail in. -/
inductive Write where
  | candidate
  | proposal
  | backup
  | constitution
  | activeState
  deriving DecidableEq, Repr

/-- A command with its flags, the time stamps it takes, the other files it may read and the
errors of its writes. -/
structure Command where
  name : String
  flags : List (String × String)
  ts : String
  backupStamp : String := ""
  disk : Path → Option Content := fun _ => none
  fault : Write → Option String := fun _ => none

namespace Command

def flag (cmd : Command) (key : String) : Option String := cmd.flags.lookup key

/-- The flag under one of two spellings, cleaned. -/
def text (cmd : Command) (key key' : String) (maxLen : ℕ) : String :=
  clean (((cmd.flag key).or (cmd.flag key')).getD "") maxLen

def proposalId (cmd : Command) : String := cmd.text "proposal-id" "proposal_id" 120

def approverId (cmd : Command) : String := cmd.text "approver-id" "approver_id" 120

def approvalNote (cmd : Command) : String := cmd.text "approval-note" "approval_note" 500

def note (cmd : Command) : String := cmd.text "note" "note" 400

/-- The identifier of a new proposal: the flag, or one made up of the time. -/
def newProposalId (host : Host) (cmd : Command) : String :=
  clean (((cmd.flag "proposal-id").or (cmd.flag "proposal_id")).getD
    ("ccp_" ++ String.ofList ((host.sha256HexBytes cmd.ts.toUTF8.toList).toList.take 10))) 120

def criticalFailures (cmd : Command) : ℤ :=
  max ((((cmd.flag "critical-failures").or (cmd.flag "critical_failures")).bind
    RustStd.parseI64).elim 0 Int64.toInt) 0

end Command

inductive Answer where
  | error (type error : String)
  | proposal (ok : Bool) (type : String) (proposal : Proposal)
  | rolledBack (rollbackFrom : String)

/-- The proposal a command has saved. -/
def Answer.saved : Answer → Option Proposal
  | .proposal _ _ saved => some saved
  | _ => none

/-- `save_proposal`. -/
def saveProposal (cmd : Command) (proposalId : String) (proposal : Proposal) (state : Guardian) :
    Except String Unit × Guardian :=
  match cmd.fault .proposal with
  | some err => (.error (clean err 220), state)
  | none => (.ok (), { state with proposals := state.proposals.insert proposalId proposal })

/-- `save_proposal`, and what the command answers then. -/
def saveAndAnswer (cmd : Command) (type : String) (ok : Bool) (proposalId : String)
    (proposal : Proposal) (state : Guardian) : Answer × Guardian :=
  match saveProposal cmd proposalId proposal state with
  | (.error text, state) => (.error type text, state)
  | (.ok (), state) => (.proposal ok type proposal, state)

/-! ## Commands -/

section Commands

variable (host : Host) (setting : Setting) (policy : Policy)

/-- `propose-change`. -/
def proposeChange (cmd : Command) (state : Guardian) : Answer × Guardian :=
  let type := "constitution_propose_change"
  let candidateFile := cmd.text "candidate-file" "candidate_file" 420
  let proposer := cmd.text "proposer-id" "proposer_id" 120
  let reason := cmd.text "reason" "reason" 400
  if candidateFile = "" ∨ proposer = "" ∨ reason = "" then
    (.error type "candidate_file_proposer_id_reason_required", state)
  else
    match cmd.disk (setting.resolveRuntimeOrState candidateFile.toList) with
    | none => (.error type "candidate_file_missing", state)
    | some candidate =>
      let proposalId := cmd.newProposalId host
      match cmd.fault .candidate with
      | some err => (.error type (clean ("copy_candidate_failed:" ++ err) 220), state)
      | none =>
        saveAndAnswer cmd type true proposalId
          { proposalId
            status := .pendingApproval
            createdAt := cmd.ts
            proposerId := proposer
            reason
            candidateFile := normalizeRel (candidateCopy setting policy proposalId)
            candidateSha256 := host.sha256HexBytes candidate }
          { state with candidates := state.candidates.insert proposalId candidate }

/-- The notes and identifiers that an approval and an activation need. -/
def Command.signed (cmd : Command) : Bool :=
  cmd.proposalId ≠ "" && cmd.approverId ≠ "" &&
    decide (policy.minApprovalNoteChars ≤ cmd.approvalNote.utf8ByteSize)

/-- `approve-change`. -/
def approveChange (cmd : Command) (state : Guardian) : Answer × Guardian :=
  let type := "constitution_approve_change"
  if !cmd.signed policy then
    (.error type "proposal_id_approver_id_and_approval_note_required", state)
  else
    match state.proposals[cmd.proposalId]? with
    | none => (.error type "proposal_missing", state)
    | some proposal =>
      let approvals := proposal.approvals ++ [⟨cmd.approverId, cmd.approvalNote, cmd.ts⟩]
      saveAndAnswer cmd type true cmd.proposalId
        { proposal with
          approvals
          status :=
            if policy.requireDualApproval && decide (approvals.length < 2) then
              .pendingSecondaryApproval
            else .approved
          updatedAt := some cmd.ts }
        state

/-- `veto-change`. -/
def vetoChange (cmd : Command) (state : Guardian) : Answer × Guardian :=
  let type := "constitution_veto_change"
  let vetoBy := cmd.text "veto-by" "veto_by" 120
  if cmd.proposalId = "" ∨ vetoBy = "" ∨ cmd.note = "" then
    (.error type "proposal_id_veto_by_note_required", state)
  else
    match state.proposals[cmd.proposalId]? with
    | none => (.error type "proposal_missing", state)
    | some proposal =>
      saveAndAnswer cmd type true cmd.proposalId
        { proposal with status := .vetoed, veto := some ⟨vetoBy, cmd.note, cmd.ts⟩ } state

/-- `run-gauntlet`. -/
def runGauntlet (cmd : Command) (state : Guardian) : Answer × Guardian :=
  let type := "constitution_run_gauntlet"
  if cmd.proposalId = "" then (.error type "proposal_id_required", state)
  else
    match state.proposals[cmd.proposalId]? with
    | none => (.error type "proposal_missing", state)
    | some proposal =>
      let passed := decide (cmd.criticalFailures = 0)
      saveAndAnswer cmd type passed cmd.proposalId
        { proposal with
          gauntlet := some
            ⟨cmd.ts, cmd.criticalFailures, cmd.text "evidence" "evidence" 400, passed⟩
          status := if passed then .gauntletPassed else .gauntletFailed }
        state

/-- The file at the path recorded for the candidate of a proposal. -/
def candidateAt (cmd : Command) (state : Guardian) (proposal : Proposal) : Option Content :=
  let path := setting.resolveRuntimeOrState proposal.candidateFile
  if UnixPath.resolve path = UnixPath.resolve (candidateCopy setting policy cmd.proposalId) then
    state.candidates[cmd.proposalId]?
  else cmd.disk path

/-- What `activate-change` looks at before it writes: the proposal and its candidate. -/
def checkActivation (cmd : Command) (state : Guardian) : Except String (Proposal × Content) :=
  if !cmd.signed policy then .error "proposal_id_approver_id_and_approval_note_required"
  else
    match state.proposals[cmd.proposalId]? with
    | none => .error "proposal_missing"
    | some proposal =>
      if proposal.status ≠ .approved ∧ proposal.status ≠ .gauntletPassed then
        .error "proposal_not_approved"
      else if !((proposal.gauntlet.map (·.passed)).getD false) then .error "gauntlet_not_passed"
      else
        match candidateAt setting policy cmd state proposal with
        | none => .error "candidate_copy_missing"
        | some candidate => .ok (proposal, candidate)

/-- The backup of the constitution, if there is one to back up. -/
def backUp (cmd : Command) (state : Guardian) : Guardian :=
  match state.constitution with
  | none => state
  | some content =>
    if (cmd.fault .backup).isSome then state
    else { state with history := state.history.insert (cmd.backupStamp ++ "_constitution.md") content }

/-- `activate-change`. -/
def activateChange (cmd : Command) (state : Guardian) : Answer × Guardian :=
  let type := "constitution_activate_change"
  match checkActivation setting policy cmd state with
  | .error text => (.error type text, state)
  | .ok (proposal, candidate) =>
    let state := backUp cmd state
    match cmd.fault .constitution with
    | some err => (.error type (clean ("activate_copy_failed:" ++ err) 220), state)
    | none =>
      let state := { state with constitution := some candidate }
      let proposal := { proposal with
        status := .active
        activatedAt := some cmd.ts
        activation := some ⟨cmd.approverId, cmd.approvalNote⟩ }
      match saveProposal cmd cmd.proposalId proposal state with
      | (.error text, state) => (.error type text, state)
      | (.ok (), state) =>
        match cmd.fault .activeState with
        | some err => (.error type (clean err 220), state)
        | none => (.proposal true type proposal, state)

/-- `emergency-rollback`. -/
def emergencyRollback (cmd : Command) (state : Guardian) : Answer × Guardian :=
  let type := "constitution_emergency_rollback"
  if policy.emergencyRollbackRequiresApproval &&
      decide (cmd.note.utf8ByteSize < policy.minApprovalNoteChars) then
    (.error type "approval_note_too_short", state)
  else
    match state.history.toList.getLast? with
    | none => (.error type "no_backup_available", state)
    | some (file, content) =>
      match cmd.fault .constitution with
      | some err => (.error type (clean ("rollback_copy_failed:" ++ err) 220), state)
      | none => (.rolledBack file, { state with constitution := some content })

/-- `run_constitution_guardian`, on a command that may write a proposal or the constitution. -/
def exec (state : Guardian) (cmd : Command) : Answer × Guardian :=
  if cmd.name = "propose-change" then proposeChange host setting policy cmd state
  else if cmd.name = "approve-change" then approveChange policy cmd state
  else if cmd.name = "veto-change" then vetoChange cmd state
  else if cmd.name = "run-gauntlet" then runGauntlet cmd state
  else if cmd.name = "activate-change" then activateChange setting policy cmd state
  else if cmd.name = "emergency-rollback" then emergencyRollback policy cmd state
  else (.error "constitution_guardian" "unknown_command", state)

/-- The files a command leaves. -/
def step (state : Guardian) (cmd : Command) : Guardian := (exec host setting policy state cmd).2

end Commands

end Protheus.ConstitutionGuardian
