import Protheus.ConstitutionGuardian.Commands
import Protheus.Lib.Runs

/-!
Which constitution is activated.

Approvals are counted by entry and not by approver, a gauntlet that is passed sets the
status whatever it was, a veto is looked at by nobody, and the candidate is copied before
its record is saved.  `activations_due` says what holds of a run in which no activation
profits from this: every activation is due, and the constitution is the one there was at
the start or one that was activated.
-/

namespace Protheus.ConstitutionGuardian

open Runs
open Std (ExtTreeMap)

/-! ## What happened -/

/-- What may happen to a proposal. -/
inductive Deed where
  | proposed (candidateSha256 : String)
  | approved (approverId : String)
  | vetoed
  | gauntlet (passed : Bool)
  | activated (content : Content)
  deriving DecidableEq, Repr

structure Event where
  proposalId : String
  deed : Deed
  deriving DecidableEq, Repr

namespace Deed

/-- The digest of the candidate, where the deed is a new proposal. -/
def digest : Deed → Option String
  | .proposed candidateSha256 => some candidateSha256
  | _ => none

def approver : Deed → Option String
  | .approved approverId => some approverId
  | _ => none

def gauntletResult : Deed → Option Bool
  | .gauntlet passed => some passed
  | _ => none

end Deed

/-- What happened to a proposal, in order. -/
def deedsOf (proposalId : String) (log : List Event) : List Deed :=
  (log.filter (·.proposalId == proposalId)).map (·.deed)

/-- The digest of the last proposal, and what happened since it was made. -/
def sinceProposal : List Deed → Option (String × List Deed)
  | [] => none
  | deed :: rest => (sinceProposal rest).or (deed.digest.map fun sha => (sha, rest))

section Events

variable (host : Host) (setting : Setting) (policy : Policy)

/-- What it is that a command other than an activation has done, once it has saved the
proposal. -/
def savedEvent (cmd : Command) (saved : Proposal) : List Event :=
  if cmd.name = "propose-change" then [⟨cmd.newProposalId host, .proposed saved.candidateSha256⟩]
  else if cmd.name = "approve-change" then [⟨cmd.proposalId, .approved cmd.approverId⟩]
  else if cmd.name = "veto-change" then [⟨cmd.proposalId, .vetoed⟩]
  else if cmd.name = "run-gauntlet" then
    [⟨cmd.proposalId, .gauntlet (decide (cmd.criticalFailures = 0))⟩]
  else []

/-- What happens in a command: a proposal is saved, or a candidate is copied over the
constitution. -/
def events (state : Guardian) (cmd : Command) : List Event :=
  if cmd.name = "activate-change" then
    match checkActivation setting policy cmd state with
    | .error _ => []
    | .ok (_, candidate) =>
      if (cmd.fault .constitution).isSome then []
      else [⟨cmd.proposalId, .activated candidate⟩]
  else ((exec host setting policy state cmd).1.saved.map (savedEvent host cmd)).getD []

/-- An activation is due: the candidate is the one last proposed, and since then two
different approvers approved it, it passed its last gauntlet and nobody vetoed it. -/
def Due (log : List Event) (proposalId : String) (content : Content) : Prop :=
  ∃ candidateSha256 since,
    sinceProposal (deedsOf proposalId log) = some (candidateSha256, since) ∧
      host.sha256HexBytes content = candidateSha256 ∧
      (∃ a b, a ≠ b ∧ .approved a ∈ since ∧ .approved b ∈ since) ∧
      (since.filterMap Deed.gauntletResult).getLast? = some true ∧ .vetoed ∉ since

/-- Every activation of a run is due, and the constitution is always the one there was or
one that was activated. -/
structure Lawful (initial : Option Content) (cmds : List Command) : Prop where
  activations : ∀ n cmd proposalId content, cmds[n]? = some cmd →
    ⟨proposalId, .activated content⟩ ∈ events host setting policy
      (before (step host setting policy) ⟨initial, ∅, ∅, ∅⟩ cmds n) cmd →
    Due host (logs (step host setting policy) (events host setting policy) ⟨initial, ∅, ∅, ∅⟩
      (cmds.take n)) proposalId content
  constitution : ∀ n content,
    (before (step host setting policy) ⟨initial, ∅, ∅, ∅⟩ cmds n).constitution = some content →
    initial = some content ∨ ∃ proposalId, ⟨proposalId, .activated content⟩ ∈
      logs (step host setting policy) (events host setting policy) ⟨initial, ∅, ∅, ∅⟩ (cmds.take n)

/-- Two different approvers are on record. -/
def Proposal.DoublyApproved (proposal : Proposal) : Prop :=
  ∃ a ∈ proposal.approvals, ∃ b ∈ proposal.approvals, a.approverId ≠ b.approverId

instance (proposal : Proposal) : Decidable proposal.DoublyApproved :=
  inferInstanceAs (Decidable (∃ _ ∈ _, _))

/-- A candidate is not copied over that of a proposal on record without the record being
saved; and a proposal that gets through to activation has two different approvers and no veto
on record, and its recorded path leads back to its candidate. -/
structure Sound (state : Guardian) (cmd : Command) : Prop where
  proposes : cmd.name = "propose-change" → cmd.newProposalId host ∈ state.proposals →
    (cmd.fault .candidate).isNone → (cmd.fault .proposal).isNone
  activates : cmd.name = "activate-change" → ∀ proposal candidate,
    checkActivation setting policy cmd state = .ok (proposal, candidate) →
      proposal.DoublyApproved ∧ proposal.veto = none ∧ LeadsBack setting policy cmd.proposalId

end Events

/-! ## The record of a proposal -/

@[simp] theorem sinceProposal_proposed (deeds : List Deed) (candidateSha256 : String) :
    sinceProposal (deeds ++ [.proposed candidateSha256]) = some (candidateSha256, []) := by
  induction deeds with
  | nil => rfl
  | cons first deeds ih => rw [List.cons_append, sinceProposal, ih, Option.some_or]

/-- A deed that is no new proposal happens to the last one. -/
theorem sinceProposal_append {deed : Deed} (h : deed.digest = none) (deeds : List Deed) :
    sinceProposal (deeds ++ [deed]) =
      (sinceProposal deeds).map fun found => (found.1, found.2 ++ [deed]) := by
  induction deeds with
  | nil => simp [sinceProposal, h]
  | cons first deeds ih =>
    rw [List.cons_append, sinceProposal, ih, sinceProposal]
    cases sinceProposal deeds with
    | some found => rfl
    | none => cases first.digest <;> rfl

theorem deedsOf_append_same {proposalId : String} (log : List Event) (deed : Deed) :
    deedsOf proposalId (log ++ [⟨proposalId, deed⟩]) = deedsOf proposalId log ++ [deed] := by
  simp [deedsOf]

theorem deedsOf_append_ne {proposalId other : String} (h : other ≠ proposalId) (log : List Event)
    (deed : Deed) : deedsOf proposalId (log ++ [⟨other, deed⟩]) = deedsOf proposalId log := by
  simp [deedsOf, h]

/-- The record of a proposal says what happened to it since it was made. -/
structure Recorded (proposal : Proposal) (candidateSha256 : String) (since : List Deed) : Prop where
  sha : proposal.candidateSha256 = candidateSha256
  approvals : proposal.approvals.map (·.approverId) = since.filterMap Deed.approver
  veto : proposal.veto = none → .vetoed ∉ since
  gauntlet : proposal.gauntlet.map (·.passed) = (since.filterMap Deed.gauntletResult).getLast?

theorem mem_since_of_approver {since : List Deed} {approverId : String}
    (h : approverId ∈ since.filterMap Deed.approver) : .approved approverId ∈ since := by
  obtain ⟨deed, hdeed, happrover⟩ := List.mem_filterMap.mp h
  cases deed with
  | approved => exact Option.some.inj happrover ▸ hdeed
  | _ => cases happrover

/-- A record with two different approvers, no veto and a passed gauntlet makes the activation
of its candidate due. -/
theorem Recorded.due {host : Host} {log : List Event} {proposalId candidateSha256 : String}
    {since : List Deed} {proposal : Proposal} {content : Content}
    (h : Recorded proposal candidateSha256 since)
    (hsince : sinceProposal (deedsOf proposalId log) = some (candidateSha256, since))
    (hcontent : host.sha256HexBytes content = candidateSha256) (happroved : proposal.DoublyApproved)
    (hveto : proposal.veto = none) (hgauntlet : proposal.gauntlet.map (·.passed) = some true) :
    Due host log proposalId content := by
  obtain ⟨a, ha, b, hb, hne⟩ := happroved
  have hmem {approval : Approval} (hin : approval ∈ proposal.approvals) :
      .approved approval.approverId ∈ since := by
    refine mem_since_of_approver ?_
    rw [← h.approvals]
    exact List.mem_map_of_mem hin
  refine ⟨candidateSha256, since, hsince, hcontent, ⟨_, _, hne, hmem ha, hmem hb⟩, ?_, h.veto hveto⟩
  rw [← h.gauntlet, hgauntlet]

section Updates

variable {proposal : Proposal} {candidateSha256 : String} {since : List Deed}

theorem Recorded.approve (h : Recorded proposal candidateSha256 since) (approval : Approval)
    (status : Status) (updatedAt : Option String) :
    Recorded
      { proposal with approvals := proposal.approvals ++ [approval], status, updatedAt }
      candidateSha256 (since ++ [.approved approval.approverId]) where
  sha := h.sha
  approvals := by simp [h.approvals, Deed.approver]
  veto hnone := by simpa using h.veto hnone
  gauntlet := by simpa [List.filterMap_cons, Deed.gauntletResult] using h.gauntlet

theorem Recorded.veto_it (h : Recorded proposal candidateSha256 since) (veto : Veto) :
    Recorded { proposal with status := .vetoed, veto := some veto } candidateSha256
      (since ++ [.vetoed]) where
  sha := h.sha
  approvals := by simpa [List.filterMap_cons, Deed.approver] using h.approvals
  veto := nofun
  gauntlet := by simpa [List.filterMap_cons, Deed.gauntletResult] using h.gauntlet

theorem Recorded.test (h : Recorded proposal candidateSha256 since) (gauntlet : Gauntlet)
    (status : Status) :
    Recorded { proposal with gauntlet := some gauntlet, status } candidateSha256
      (since ++ [.gauntlet gauntlet.passed]) where
  sha := h.sha
  approvals := by simpa [List.filterMap_cons, Deed.approver] using h.approvals
  veto hnone := by simpa using h.veto hnone
  gauntlet := by simp [Deed.gauntletResult]

theorem Recorded.activate (h : Recorded proposal candidateSha256 since) (content : Content) :
    Recorded proposal candidateSha256 (since ++ [.activated content]) where
  sha := h.sha
  approvals := by simpa [List.filterMap_cons, Deed.approver] using h.approvals
  veto hnone := by simpa using h.veto hnone
  gauntlet := by simpa [List.filterMap_cons, Deed.gauntletResult] using h.gauntlet

end Updates

/-! ## What a command does to the proposals -/

section Steps

variable {host : Host} {setting : Setting} {policy : Policy} {state state' : Guardian}
  {cmd : Command} {log : List Event}

/-- The record of a proposal is true, and describes the candidate that is kept for it. -/
def Tracked (host : Host) (setting : Setting) (policy : Policy) (state : Guardian)
    (log : List Event) (proposalId : String) : Prop :=
  ∀ proposal, state.proposals[proposalId]? = some proposal →
    ∃ candidateSha256 since,
      sinceProposal (deedsOf proposalId log) = some (candidateSha256, since) ∧
        Recorded proposal candidateSha256 since ∧
        proposal.candidateFile = normalizeRel (candidateCopy setting policy proposalId) ∧
        ∃ content, state.candidates[proposalId]? = some content ∧
          host.sha256HexBytes content = candidateSha256

/-- What a command may do to the proposals when it is sound. -/
inductive Effect (host : Host) (setting : Setting) (policy : Policy) (state : Guardian) :
    List Event → Guardian → Prop
  | quiet {state' : Guardian} (hproposals : state'.proposals = state.proposals)
      (hcandidates : state'.candidates = state.candidates) : Effect host setting policy state [] state'
  /-- A candidate is copied for a proposal that is not on record, and its record is not saved. -/
  | copied {state' : Guardian} {proposalId : String} {content : Content}
      (hnew : proposalId ∉ state.proposals) (hproposals : state'.proposals = state.proposals)
      (hcandidates : state'.candidates = state.candidates.insert proposalId content) :
      Effect host setting policy state [] state'
  | proposed {state' : Guardian} {proposalId : String} {content : Content} {proposal : Proposal}
      (hrecorded : Recorded proposal (host.sha256HexBytes content) [])
      (hfile : proposal.candidateFile = normalizeRel (candidateCopy setting policy proposalId))
      (hproposals : state'.proposals = state.proposals.insert proposalId proposal)
      (hcandidates : state'.candidates = state.candidates.insert proposalId content) :
      Effect host setting policy state [⟨proposalId, .proposed (host.sha256HexBytes content)⟩] state'
  | done {state' : Guardian} {proposalId : String} {deed : Deed} {proposal proposal' : Proposal}
      (hdigest : deed.digest = none) (hold : state.proposals[proposalId]? = some proposal)
      (hrecorded : ∀ {sha since}, Recorded proposal sha since → Recorded proposal' sha (since ++ [deed]))
      (hfile : proposal'.candidateFile = proposal.candidateFile)
      (hproposals : state'.proposals[proposalId]? = some proposal' ∧
        ∀ other ≠ proposalId, state'.proposals[other]? = state.proposals[other]?)
      (hcandidates : state'.candidates = state.candidates) :
      Effect host setting policy state [⟨proposalId, deed⟩] state'

/-- The records stay true. -/
theorem Effect.tracked {es : List Event} (h : Effect host setting policy state es state')
    (htracked : ∀ proposalId, Tracked host setting policy state log proposalId) (other : String) :
    Tracked host setting policy state' (log ++ es) other := by
  intro there hthere
  cases h with
  | quiet hproposals hcandidates =>
    rw [hproposals] at hthere
    rw [List.append_nil, hcandidates]
    exact htracked other there hthere
  | copied hnew hproposals hcandidates =>
    rename_i proposalId content
    rw [hproposals] at hthere
    obtain ⟨sha, since, hsince, hrecorded, hfile, kept, hkept, hsha⟩ := htracked other there hthere
    have hne : proposalId ≠ other := by
      rintro rfl
      rw [← ExtTreeMap.isSome_getElem?_iff_mem, hthere] at hnew
      exact hnew rfl
    refine ⟨sha, since, by rw [List.append_nil]; exact hsince, hrecorded, hfile, kept, ?_, hsha⟩
    simpa [hcandidates, ExtTreeMap.getElem?_insert, hne] using hkept
  | proposed hrecorded hfile hproposals hcandidates =>
    rename_i proposalId content proposal
    by_cases hid : proposalId = other
    · subst hid
      obtain rfl : proposal = there := by simpa [hproposals] using hthere
      refine ⟨_, [], ?_, hrecorded, hfile, content, by simp [hcandidates], rfl⟩
      rw [deedsOf_append_same, sinceProposal_proposed]
    · have hsame : state.proposals[other]? = some there := by
        simpa [hproposals, ExtTreeMap.getElem?_insert, hid] using hthere
      rw [deedsOf_append_ne hid]
      simpa [hcandidates, ExtTreeMap.getElem?_insert, hid] using htracked other there hsame
  | done hdigest hold hrecorded hfile hproposals hcandidates =>
    rename_i proposalId deed proposal proposal'
    by_cases hid : proposalId = other
    · subst hid
      obtain rfl : proposal' = there := Option.some.inj (hproposals.1.symm.trans hthere)
      obtain ⟨sha, since, hsince, hbefore, hpath, content, hkept, hsha⟩ :=
        htracked proposalId proposal hold
      refine ⟨sha, since ++ [deed], ?_, hrecorded hbefore, hfile.trans hpath, content, ?_, hsha⟩
      · rw [deedsOf_append_same, sinceProposal_append hdigest, hsince]
        rfl
      · rw [hcandidates]
        exact hkept
    · rw [hproposals.2 other (Ne.symm hid)] at hthere
      rw [deedsOf_append_ne hid, hcandidates]
      exact htracked other there hthere

/-- A proposal is saved, or the command fails and nothing is. -/
theorem saveAndAnswer_cases (cmd : Command) (type : String) (ok : Bool) (proposalId : String)
    (proposal : Proposal) (state : Guardian) :
    ((cmd.fault .proposal).isSome ∧ ∃ text,
        saveAndAnswer cmd type ok proposalId proposal state = (.error type text, state)) ∨
      saveAndAnswer cmd type ok proposalId proposal state = (.proposal ok type proposal,
        { state with proposals := state.proposals.insert proposalId proposal }) := by
  unfold saveAndAnswer saveProposal
  cases hfault : cmd.fault .proposal with
  | some err => exact .inl ⟨rfl, _, rfl⟩
  | none => exact .inr rfl

/-- What is saved over a proposal on record is one more deed of it. -/
theorem effect_of_save {type proposalId : String} {ok : Bool} {proposal proposal' : Proposal}
    (deed : Deed) (hevent : savedEvent host cmd proposal' = [⟨proposalId, deed⟩])
    (hdigest : deed.digest = none) (hold : state.proposals[proposalId]? = some proposal)
    (hrecorded : ∀ {sha since}, Recorded proposal sha since → Recorded proposal' sha (since ++ [deed]))
    (hfile : proposal'.candidateFile = proposal.candidateFile) :
    Effect host setting policy state
      (((saveAndAnswer cmd type ok proposalId proposal' state).1.saved.map (savedEvent host cmd)).getD [])
      (saveAndAnswer cmd type ok proposalId proposal' state).2 := by
  rcases saveAndAnswer_cases cmd type ok proposalId proposal' state with ⟨-, text, h⟩ | h
  · rw [h]
    exact .quiet rfl rfl
  · rw [h]
    show Effect host setting policy state (savedEvent host cmd proposal') _
    rw [hevent]
    refine .done hdigest hold hrecorded hfile ⟨by simp, fun other hne => ?_⟩ rfl
    simp [ExtTreeMap.getElem?_insert, hne.symm]

theorem proposeChange_effect (hname : cmd.name = "propose-change")
    (hsound : cmd.newProposalId host ∈ state.proposals → (cmd.fault .candidate).isNone →
      (cmd.fault .proposal).isNone) :
    Effect host setting policy state
      (((proposeChange host setting policy cmd state).1.saved.map (savedEvent host cmd)).getD [])
      (proposeChange host setting policy cmd state).2 := by
  unfold proposeChange
  dsimp only
  split
  · exact .quiet rfl rfl
  · cases cmd.disk (setting.resolveRuntimeOrState
      (cmd.text "candidate-file" "candidate_file" 420).toList) with
    | none => exact .quiet rfl rfl
    | some candidate =>
      dsimp only
      cases hcandidate : cmd.fault .candidate with
      | some err => exact .quiet rfl rfl
      | none =>
        dsimp only
        generalize hproposal : Proposal.mk .. = proposal
        rcases saveAndAnswer_cases cmd "constitution_propose_change" true (cmd.newProposalId host)
          proposal { state with candidates := state.candidates.insert (cmd.newProposalId host) candidate }
          with ⟨hfault, text, h⟩ | h
        · rw [h]
          refine .copied (fun hmem => ?_) rfl rfl
          have hnone := hsound hmem (by rw [hcandidate]; rfl)
          rw [Option.isNone_iff_eq_none] at hnone
          rw [hnone] at hfault
          cases hfault
        · rw [h]
          have hevent : savedEvent host cmd proposal =
              [⟨cmd.newProposalId host, .proposed (host.sha256HexBytes candidate)⟩] := by
            rw [savedEvent, if_pos hname, ← hproposal]
          show Effect host setting policy state (savedEvent host cmd proposal) _
          rw [hevent]
          refine @Effect.proposed _ _ _ _ _ _ candidate proposal ?_ ?_ rfl rfl
          · subst hproposal
            constructor
            · rfl
            · rfl
            · simp
            · rfl
          · subst hproposal
            dsimp only

theorem approveChange_effect (hname : cmd.name = "approve-change") :
    Effect host setting policy state
      (((approveChange policy cmd state).1.saved.map (savedEvent host cmd)).getD [])
      (approveChange policy cmd state).2 := by
  unfold approveChange
  dsimp only
  split
  · exact .quiet rfl rfl
  · cases hold : state.proposals[cmd.proposalId]? with
    | none => exact .quiet rfl rfl
    | some proposal =>
      refine effect_of_save (.approved cmd.approverId) ?_ rfl hold ?_ rfl
      · simp [savedEvent, hname]
      · exact fun h => h.approve ⟨cmd.approverId, cmd.approvalNote, cmd.ts⟩ _ _

theorem vetoChange_effect (hname : cmd.name = "veto-change") :
    Effect host setting policy state
      (((vetoChange cmd state).1.saved.map (savedEvent host cmd)).getD []) (vetoChange cmd state).2 := by
  unfold vetoChange
  dsimp only
  split
  · exact .quiet rfl rfl
  · cases hold : state.proposals[cmd.proposalId]? with
    | none => exact .quiet rfl rfl
    | some proposal =>
      refine effect_of_save .vetoed ?_ rfl hold (fun h => h.veto_it _) rfl
      simp [savedEvent, hname]

theorem runGauntlet_effect (hname : cmd.name = "run-gauntlet") :
    Effect host setting policy state
      (((runGauntlet cmd state).1.saved.map (savedEvent host cmd)).getD [])
      (runGauntlet cmd state).2 := by
  unfold runGauntlet
  dsimp only
  split
  · exact .quiet rfl rfl
  · cases hold : state.proposals[cmd.proposalId]? with
    | none => exact .quiet rfl rfl
    | some proposal =>
      refine effect_of_save (.gauntlet (decide (cmd.criticalFailures = 0))) ?_ rfl hold ?_ rfl
      · simp [savedEvent, hname]
      · exact fun h => h.test ⟨cmd.ts, cmd.criticalFailures, _, decide (cmd.criticalFailures = 0)⟩ _

/-- What an activation looks at is on record. -/
theorem checkActivation_eq_ok {proposal : Proposal} {candidate : Content}
    (h : checkActivation setting policy cmd state = .ok (proposal, candidate)) :
    state.proposals[cmd.proposalId]? = some proposal ∧
      proposal.gauntlet.map (·.passed) = some true ∧
      candidateAt setting policy cmd state proposal = some candidate := by
  unfold checkActivation at h
  split at h
  case isTrue => cases h
  case isFalse =>
    split at h
    case h_1 => cases h
    case h_2 there hthere =>
      split at h
      case isTrue => cases h
      case isFalse =>
        split at h
        case isTrue => cases h
        case isFalse hgauntlet =>
          split at h
          case h_1 => cases h
          case h_2 found hfound =>
            obtain ⟨rfl, rfl⟩ := Prod.mk.inj (Except.ok.inj h)
            refine ⟨hthere, ?_, hfound⟩
            cases hresult : there.gauntlet.map (·.passed) with
            | none => simp [hresult] at hgauntlet
            | some passed => simpa [hresult] using hgauntlet

@[simp] theorem backUp_proposals : (backUp cmd state).proposals = state.proposals := by
  unfold backUp
  split
  · rfl
  · split <;> rfl

@[simp] theorem backUp_candidates : (backUp cmd state).candidates = state.candidates := by
  unfold backUp
  split
  · rfl
  · split <;> rfl

theorem activateChange_effect (hname : cmd.name = "activate-change") :
    Effect host setting policy state (events host setting policy state cmd)
      (activateChange setting policy cmd state).2 := by
  unfold activateChange events
  rw [if_pos hname]
  cases hcheck : checkActivation setting policy cmd state with
  | error text => exact .quiet rfl rfl
  | ok found =>
    obtain ⟨proposal, candidate⟩ := found
    have hold := (checkActivation_eq_ok hcheck).1
    dsimp only
    cases cmd.fault .constitution with
    | some err => exact .quiet backUp_proposals backUp_candidates
    | none =>
      dsimp only
      unfold saveProposal
      cases cmd.fault .proposal with
      | some err =>
        refine .done rfl hold (fun h => h.activate candidate) rfl ⟨?_, fun other _ => ?_⟩
          backUp_candidates
        · rw [← hold]
          exact congrArg (·[cmd.proposalId]?) backUp_proposals
        · exact congrArg (·[other]?) backUp_proposals
      | none =>
        dsimp only
        have hrecorded {sha : String} {since : List Deed} (h : Recorded proposal sha since) :
            Recorded
              { proposal with
                status := .active
                activatedAt := some cmd.ts
                activation := some ⟨cmd.approverId, cmd.approvalNote⟩ }
              sha (since ++ [.activated candidate]) := by
          have hdone := h.activate candidate
          exact ⟨hdone.sha, hdone.approvals, hdone.veto, hdone.gauntlet⟩
        have hdone {files : Guardian}
            (hproposals : files.proposals = (backUp cmd state).proposals.insert cmd.proposalId
              { proposal with
                status := .active
                activatedAt := some cmd.ts
                activation := some ⟨cmd.approverId, cmd.approvalNote⟩ })
            (hcandidates : files.candidates = (backUp cmd state).candidates) :
            Effect host setting policy state [⟨cmd.proposalId, .activated candidate⟩] files := by
          refine .done rfl hold hrecorded rfl ⟨by simp [hproposals], fun other hne => ?_⟩
            (hcandidates.trans backUp_candidates)
          simp [hproposals, ExtTreeMap.getElem?_insert, hne.symm]
        cases cmd.fault .activeState with
        | some err => exact hdone rfl rfl
        | none => exact hdone rfl rfl

theorem emergencyRollback_quiet :
    (emergencyRollback policy cmd state).2.proposals = state.proposals ∧
      (emergencyRollback policy cmd state).2.candidates = state.candidates := by
  unfold emergencyRollback
  dsimp only
  split
  · exact ⟨rfl, rfl⟩
  · split
    · exact ⟨rfl, rfl⟩
    · split <;> exact ⟨rfl, rfl⟩

/-- What a sound command does to the proposals. -/
theorem step_effect (hsound : Sound host setting policy state cmd) :
    Effect host setting policy state (events host setting policy state cmd)
      (step host setting policy state cmd) := by
  by_cases hactivate : cmd.name = "activate-change"
  case pos =>
    have hexec : exec host setting policy state cmd = activateChange setting policy cmd state := by
      simp [exec, hactivate]
    rw [step, hexec]
    exact activateChange_effect hactivate
  case neg =>
    rw [events, if_neg hactivate, step]
    unfold exec
    split
    case isTrue h => exact proposeChange_effect h (hsound.proposes h)
    case isFalse =>
      split
      case isTrue h => exact approveChange_effect h
      case isFalse =>
        split
        case isTrue h => exact vetoChange_effect h
        case isFalse =>
          split
          case isTrue h => exact runGauntlet_effect h
          case isFalse =>
            split
            case isTrue h =>
              have hanswer : (((emergencyRollback policy cmd state).1.saved.map
                  (savedEvent host cmd)).getD []) = [] := by
                cases hsaved : (emergencyRollback policy cmd state).1.saved with
                | none => rfl
                | some saved => simp [savedEvent, h]
              rw [hanswer]
              exact .quiet emergencyRollback_quiet.1 emergencyRollback_quiet.2
            case isFalse => exact .quiet rfl rfl

/-! ## What a command does to the constitution -/

/-- Neither the constitution nor its backups are touched. -/
def Untouched (state state' : Guardian) : Prop :=
  state'.constitution = state.constitution ∧ state'.history = state.history

theorem saveAndAnswer_untouched (type : String) (ok : Bool) (proposalId : String)
    (proposal : Proposal) (state : Guardian) :
    Untouched state (saveAndAnswer cmd type ok proposalId proposal state).2 := by
  rcases saveAndAnswer_cases cmd type ok proposalId proposal state with ⟨-, text, h⟩ | h
  · rw [h]
    exact ⟨rfl, rfl⟩
  · rw [h]
    exact ⟨rfl, rfl⟩

theorem proposeChange_untouched :
    Untouched state (proposeChange host setting policy cmd state).2 := by
  unfold proposeChange
  dsimp only
  split
  · exact ⟨rfl, rfl⟩
  · split
    · exact ⟨rfl, rfl⟩
    · split
      · exact ⟨rfl, rfl⟩
      · exact saveAndAnswer_untouched _ _ _ _ _

theorem approveChange_untouched : Untouched state (approveChange policy cmd state).2 := by
  unfold approveChange
  dsimp only
  split
  · exact ⟨rfl, rfl⟩
  · split
    · exact ⟨rfl, rfl⟩
    · exact saveAndAnswer_untouched _ _ _ _ _

theorem vetoChange_untouched : Untouched state (vetoChange cmd state).2 := by
  unfold vetoChange
  dsimp only
  split
  · exact ⟨rfl, rfl⟩
  · split
    · exact ⟨rfl, rfl⟩
    · exact saveAndAnswer_untouched _ _ _ _ _

theorem runGauntlet_untouched : Untouched state (runGauntlet cmd state).2 := by
  unfold runGauntlet
  dsimp only
  split
  · exact ⟨rfl, rfl⟩
  · split
    · exact ⟨rfl, rfl⟩
    · exact saveAndAnswer_untouched _ _ _ _ _

/-- Where the constitution and its backups may come from. -/
structure Sourced (state state' : Guardian) (es : List Event) : Prop where
  constitution : ∀ content, state'.constitution = some content →
    state.constitution = some content ∨ (∃ file : String, state.history[file]? = some content) ∨
      ∃ proposalId, ⟨proposalId, .activated content⟩ ∈ es
  history : ∀ (file : String) content, state'.history[file]? = some content →
    state.history[file]? = some content ∨ state.constitution = some content

theorem Untouched.sourced (h : Untouched state state') (es : List Event) :
    Sourced state state' es where
  constitution content hcontent := .inl (h.1 ▸ hcontent)
  history file content hcontent := .inl (by rwa [h.2] at hcontent)

theorem backUp_constitution : (backUp cmd state).constitution = state.constitution := by
  unfold backUp
  split
  · rfl
  · split <;> rfl

theorem backUp_history {file : String} {content : Content}
    (h : (backUp cmd state).history[file]? = some content) :
    state.history[file]? = some content ∨ state.constitution = some content := by
  unfold backUp at h
  split at h
  · exact .inl h
  · rename_i there hthere
    split at h
    · exact .inl h
    · rw [ExtTreeMap.getElem?_insert] at h
      split at h
      · exact .inr (hthere.trans h)
      · exact .inl h

theorem activateChange_sourced (hname : cmd.name = "activate-change") :
    Sourced state (activateChange setting policy cmd state).2
      (events host setting policy state cmd) := by
  unfold activateChange events
  rw [if_pos hname]
  cases hcheck : checkActivation setting policy cmd state with
  | error text => exact Untouched.sourced ⟨rfl, rfl⟩ _
  | ok found =>
    obtain ⟨proposal, candidate⟩ := found
    dsimp only
    cases cmd.fault .constitution with
    | some err =>
      exact
        { constitution := fun content h => .inl (backUp_constitution ▸ h)
          history := fun file content h => backUp_history h }
    | none =>
      dsimp only
      have hsourced {files : Guardian} (hconstitution : files.constitution = some candidate)
          (hhistory : files.history = (backUp cmd state).history) :
          Sourced state files [⟨cmd.proposalId, .activated candidate⟩] := by
        constructor
        · intro content hcontent
          obtain rfl := Option.some.inj (hconstitution.symm.trans hcontent)
          exact .inr (.inr ⟨cmd.proposalId, List.mem_singleton_self _⟩)
        · intro file content hcontent
          rw [hhistory] at hcontent
          exact backUp_history hcontent
      unfold saveProposal
      cases cmd.fault .proposal with
      | some err => exact hsourced rfl rfl
      | none =>
        dsimp only
        cases cmd.fault .activeState with
        | some err => exact hsourced rfl rfl
        | none => exact hsourced rfl rfl

theorem emergencyRollback_sourced (es : List Event) :
    Sourced state (emergencyRollback policy cmd state).2 es := by
  unfold emergencyRollback
  dsimp only
  split
  · exact Untouched.sourced ⟨rfl, rfl⟩ es
  · split
    · exact Untouched.sourced ⟨rfl, rfl⟩ es
    · rename_i file content hlast
      split
      · exact Untouched.sourced ⟨rfl, rfl⟩ es
      · have hfile : state.history[file]? = some content :=
          ExtTreeMap.mem_toList_iff_getElem?_eq_some.mp (List.mem_of_getLast? hlast)
        exact
          { constitution := fun found h => .inr (.inl ⟨file, hfile.trans h⟩)
            history := fun _ _ h => .inl h }

theorem step_sourced : Sourced state (step host setting policy state cmd)
    (events host setting policy state cmd) := by
  unfold step exec
  split
  · exact proposeChange_untouched.sourced _
  · split
    · exact approveChange_untouched.sourced _
    · split
      · exact vetoChange_untouched.sourced _
      · split
        · exact runGauntlet_untouched.sourced _
        · split
          case isTrue h => exact activateChange_sourced h
          case isFalse =>
            split
            · exact emergencyRollback_sourced _
            · exact Untouched.sourced ⟨rfl, rfl⟩ _

end Steps

/-! ## Runs -/

section Runs

variable {host : Host} {setting : Setting} {policy : Policy} {state : Guardian} {cmd : Command}
  {log : List Event} {initial : Option Content}

/-- The content was there from the start or was activated. -/
def Legit (initial : Option Content) (log : List Event) (content : Content) : Prop :=
  initial = some content ∨ ∃ proposalId, ⟨proposalId, .activated content⟩ ∈ log

theorem Legit.append {content : Content} (h : Legit initial log content) (es : List Event) :
    Legit initial (log ++ es) content :=
  h.imp_right fun ⟨proposalId, hmem⟩ => ⟨proposalId, List.mem_append_left es hmem⟩

/-- The records are true, and the constitution and its backups are legitimate. -/
structure Inv (host : Host) (setting : Setting) (policy : Policy) (initial : Option Content)
    (state : Guardian) (log : List Event) : Prop where
  tracked : ∀ proposalId, Tracked host setting policy state log proposalId
  constitution : ∀ content, state.constitution = some content → Legit initial log content
  history : ∀ (file : String) content, state.history[file]? = some content →
    Legit initial log content

theorem inv_init : Inv host setting policy initial ⟨initial, ∅, ∅, ∅⟩ [] where
  tracked proposalId proposal h := by simp at h
  constitution content h := .inl h
  history file content h := by simp at h

theorem Inv.step (h : Inv host setting policy initial state log)
    (hsound : Sound host setting policy state cmd) :
    Inv host setting policy initial (step host setting policy state cmd)
      (log ++ events host setting policy state cmd) := by
  have hsourced := @step_sourced host setting policy state cmd
  constructor
  case tracked => exact (step_effect hsound).tracked h.tracked
  case constitution =>
    intro content hcontent
    obtain hold | ⟨file, hbackup⟩ | ⟨proposalId, hactivated⟩ := hsourced.constitution content hcontent
    · exact (h.constitution content hold).append _
    · exact (h.history file content hbackup).append _
    · exact .inr ⟨proposalId, List.mem_append_right _ hactivated⟩
  case history =>
    intro file content hcontent
    obtain hold | hbackup := hsourced.history file content hcontent
    · exact (h.history file content hold).append _
    · exact (h.constitution content hbackup).append _

/-- Only an activation that passes its checks copies a candidate over the constitution. -/
theorem activated_mem_events {proposalId : String} {content : Content}
    (h : ⟨proposalId, .activated content⟩ ∈ events host setting policy state cmd) :
    cmd.name = "activate-change" ∧ proposalId = cmd.proposalId ∧
      ∃ proposal, checkActivation setting policy cmd state = .ok (proposal, content) := by
  unfold events at h
  split at h
  case isTrue hname =>
    split at h
    case h_1 => cases h
    case h_2 proposal candidate hcheck =>
      split at h
      · cases h
      · obtain ⟨rfl, hdeed⟩ := Event.mk.inj (List.mem_singleton.mp h)
        obtain rfl := Deed.activated.inj hdeed
        exact ⟨hname, rfl, proposal, hcheck⟩
  case isFalse =>
    cases hsaved : (exec host setting policy state cmd).1.saved with
    | none => simp [hsaved] at h
    | some saved =>
      exfalso
      revert h
      simp only [hsaved, savedEvent, Option.map_some, Option.getD_some]
      split_ifs <;> simp

/-- An activation of a sound command is due. -/
theorem Inv.due (h : Inv host setting policy initial state log)
    (hsound : Sound host setting policy state cmd) {proposalId : String} {content : Content}
    (hactivated : ⟨proposalId, .activated content⟩ ∈ events host setting policy state cmd) :
    Due host log proposalId content := by
  obtain ⟨hname, rfl, proposal, hcheck⟩ := activated_mem_events hactivated
  obtain ⟨happroved, hveto, hleads⟩ := hsound.activates hname proposal content hcheck
  obtain ⟨hproposal, hgauntlet, hcandidate⟩ := checkActivation_eq_ok hcheck
  obtain ⟨sha, since, hsince, hrecorded, hfile, kept, hkept, hsha⟩ :=
    h.tracked cmd.proposalId proposal hproposal
  have hread : candidateAt setting policy cmd state proposal = some kept := by
    rw [candidateAt, hfile]
    exact (if_pos hleads).trans hkept
  obtain rfl := Option.some.inj (hread.symm.trans hcandidate)
  exact hrecorded.due hsince hsha happroved hveto hgauntlet

end Runs

/-- **Constitution changes need approval.**  In a run in which no candidate is copied over that
of a proposal on record without the record being saved, and no proposal is activated without
two different approvers on record or with a veto on record, every activation is of the
candidate last proposed, which two different approvers have approved since, which has passed
its last gauntlet and which nobody has vetoed; and the constitution is always the one there
was or one so activated. -/
theorem activations_due (host : Host) (setting : Setting) (policy : Policy)
    (initial : Option Content) (cmds : List Command)
    (h : Meets (step host setting policy) (Sound host setting policy) ⟨initial, ∅, ∅, ∅⟩ cmds) :
    Lawful host setting policy initial cmds := by
  have hinv (n : ℕ) := Meets.logs_invariant (fun state log cmd => Inv.step)
    (@inv_init host setting policy initial) (h.take n)
  constructor
  case activations =>
    intro n cmd proposalId content hcmd hactivated
    exact (hinv n).due (h.guard_before hcmd) hactivated
  case constitution =>
    intro n content hcontent
    exact (hinv n).constitution content hcontent

/-! ## An unapproved constitution -/

/-- Digests that are as long as the content. -/
def plainHost : Host where
  sha256HexBytes content := String.ofList (content.map fun _ => '0')

/-- A state root from which the recorded paths of candidates lead back. -/
def sampleSetting : Setting where
  repoRoot := "/repo".toList
  securityStateRoot := "/local/state"

def samplePolicy : Policy where
  stateDir := "/local/state/g"
  minApprovalNoteChars := 4
  requireDualApproval := true
  emergencyRollbackRequiresApproval := true

/-- `propose-change` of a file of one byte. -/
def proposeIt : Command where
  name := "propose-change"
  flags := [("candidate-file", "new.md"), ("proposer-id", "eve"), ("reason", "why"),
    ("proposal-id", "p")]
  ts := "t"
  disk _ := some [1]

def approveIt (approverId : String) : Command where
  name := "approve-change"
  flags := [("proposal-id", "p"), ("approver-id", approverId), ("approval-note", "fine")]
  ts := "t"

/-- `run-gauntlet` without failures. -/
def testIt : Command where
  name := "run-gauntlet"
  flags := [("proposal-id", "p")]
  ts := "t"

def activateIt : Command where
  name := "activate-change"
  flags := [("proposal-id", "p"), ("approver-id", "eve"), ("approval-note", "fine")]
  ts := "t"

/-- The recorded path of the candidate leads back to it. -/
theorem leadsBack_sample : LeadsBack sampleSetting samplePolicy "p" := by decide +kernel

/-- Commands that activate nothing and write without faults are sound. -/
theorem sound_of_no_activation {state : Guardian} {cmd : Command} (hname : cmd.name ≠ "activate-change")
    (hfault : cmd.fault = fun _ => none) : Sound plainHost sampleSetting samplePolicy state cmd where
  proposes _ _ _ := by rw [hfault]; rfl
  activates h := absurd h hname

/-- A change that is approved twice and tested may be activated. -/
theorem activations_due_approved :
    Lawful plainHost sampleSetting samplePolicy (some [0])
      [proposeIt, approveIt "alice", approveIt "bob", testIt, activateIt] := by
  refine activations_due plainHost sampleSetting samplePolicy (some [0]) _
    ⟨sound_of_no_activation (by decide) rfl, sound_of_no_activation (by decide) rfl,
      sound_of_no_activation (by decide) rfl, sound_of_no_activation (by decide) rfl, ?_, trivial⟩
  refine ⟨fun h => absurd h (by decide), fun _ proposal candidate hcheck => ?_⟩
  have hproposal := (checkActivation_eq_ok hcheck).1
  have hrecord : ((run (step plainHost sampleSetting samplePolicy) ⟨some [0], ∅, ∅, ∅⟩
      [proposeIt, approveIt "alice", approveIt "bob", testIt]).proposals["p"]?).any
      (fun proposal => decide (proposal.DoublyApproved ∧ proposal.veto = none)) = true := by decide
  have hid : activateIt.proposalId = "p" := by decide
  rw [hid] at hproposal
  simp only [run_cons, run_nil, hproposal, Option.any_some, decide_eq_true_eq] at hrecord
  exact ⟨hrecord.1, hrecord.2, hid ▸ leadsBack_sample⟩

/-- A change that passes the gauntlet is activated though nobody has approved it. -/
theorem unapproved_change_activated :
    ¬Lawful plainHost sampleSetting samplePolicy (some [0]) [proposeIt, testIt, activateIt] := by
  intro h
  have hactivated : ⟨"p", .activated [1]⟩ ∈ events plainHost sampleSetting samplePolicy
      (before (step plainHost sampleSetting samplePolicy) ⟨some [0], ∅, ∅, ∅⟩
        [proposeIt, testIt, activateIt] 2) activateIt := by decide +kernel
  obtain ⟨sha, since, hsince, -, ⟨a, -, -, ha, -⟩, -⟩ :=
    h.activations 2 activateIt "p" [1] rfl hactivated
  have hlog : sinceProposal (deedsOf "p" (logs (step plainHost sampleSetting samplePolicy)
      (events plainHost sampleSetting samplePolicy) ⟨some [0], ∅, ∅, ∅⟩ [proposeIt, testIt])) =
      some ("0", [.gauntlet true]) := by decide
  rw [show [proposeIt, testIt, activateIt].take 2 = [proposeIt, testIt] from rfl, hlog] at hsince
  obtain ⟨rfl, rfl⟩ := Prod.mk.inj (Option.some.inj hsince)
  simp at ha

end Protheus.ConstitutionGuardian
