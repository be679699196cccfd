import Protheus.AutoApproval.Commands
import Protheus.Lib.Runs

/-!
Auto-approvals end exactly once.

An approval is pending until it is committed, rolled back or replaced by a later approval
of the same proposal, and a rollback comes with one regret.  A commit stores the state
before its receipt, a rollback files the regret first and stores the state last; so a write
that fails after the first one that counts leaves them apart.  And an approval of a
proposal that is nested too deeply leaves a state that does not read back.
`approvals_end_once` is about the runs in which neither happens.
-/

namespace Protheus.AutoApproval

open Runs

/-! ## What adds up -/

/-- The fields of the state the files hold. -/
def objectOf (files : Files) : List (String × Json) := (loadState files).asObject.getD []

/-- The rows under the key whose proposal has the identifier. -/
def countOf (files : Files) (key proposalId : String) : ℕ :=
  ((arrayFrom (objectOf files) key).map rowId).count (some proposalId)

/-- The proposal a regret is about. -/
def regretId (regret : Json) : Option String := (regret.get? "proposal_id").bind Json.asStr

/-- The pending entry of a proposal. -/
def pendingOf (files : Files) (proposalId : String) : Option Json :=
  (arrayFrom (objectOf files) "pending_commit").find? (rowId · == some proposalId)

/-- The proposal whose approval a command stores, if it stores one. -/
def approval (host : Host) (files : Files) (cmd : Command) : Option ProposalSummary :=
  if cmd.verb = some .evaluate ∧ (cmd.fault .state).isNone ∧ (loadState files).isObject then
    match parseProposal host cmd with
    | .error _ => none
    | .ok proposal =>
      let summary := proposalSummary host proposal
      if (evaluateProposal host cmd.policy summary).isEmpty && cmd.applies then some summary else none
  else none

/-- What happens to approvals. -/
inductive Event where
  | approved (proposalId : String)
  | replaced (proposalId : String)
  deriving DecidableEq

/-- The approval a command stores, and the pending entries that gives way to it. -/
def events (host : Host) (files : Files) (cmd : Command) : List Event :=
  match approval host files cmd with
  | none => []
  | some summary => .approved summary.id ::
      List.replicate (countOf files "pending_commit" summary.id) (.replaced summary.id)

/-- Regrets and rollbacks are as many, and every approval that was stored is pending,
committed, rolled back or replaced. -/
structure Accounted (files : Files) (log : List Event) : Prop where
  regrets : ∀ proposalId,
    (files.regrets.map regretId).count (some proposalId) = countOf files "rolled_back" proposalId
  pending : ∀ proposalId, countOf files "pending_commit" proposalId ≤ 1
  approvals : ∀ proposalId, log.count (.approved proposalId) =
    countOf files "pending_commit" proposalId + countOf files "committed" proposalId +
      countOf files "rolled_back" proposalId + log.count (.replaced proposalId)

/-- Throughout a run approvals are accounted for, and a command that fails leaves state and
regrets as they were. -/
structure EndOnce (host : Host) (cmds : List Command) : Prop where
  failed : ∀ n cmd text, cmds[n]? = some cmd →
    (exec host (before (step host) {} cmds n) cmd).1 = .error text →
      (before (step host) {} cmds (n + 1)).state = (before (step host) {} cmds n).state ∧
        (before (step host) {} cmds (n + 1)).regrets = (before (step host) {} cmds n).regrets
  accounted : ∀ n, Accounted (before (step host) {} cmds n)
    (logs (step host) (events host) {} (cmds.take n))

/-! ## When it adds up -/

/-- The receipt of the command gets into its two files. -/
def Command.Finishes (cmd : Command) : Prop :=
  (cmd.fault .latest).isNone ∧ (cmd.fault .receipts).isNone

def commits (files : Files) (cmd : Command) : Bool :=
  cmd.verb == some .commit && (cmd.fault .state).isNone &&
    ((cmd.flag "proposal-id").bind (pendingOf files)).isSome

/-- The command files a regret. -/
def rollsBack (host : Host) (files : Files) (cmd : Command) : Bool :=
  (cmd.fault .regrets).isNone &&
    match (cmd.flag "proposal-id").bind (pendingOf files) with
    | none => false
    | some pending =>
      match cmd.verb with
      | some .rollback => true
      | some .monitor => cmd.applies && cmd.shouldRollback host pending
      | _ => false

/-- After the first write that counts no write of the command fails, and the proposal it
approves is not nested too deeply for the state to read back. -/
structure Sound (host : Host) (files : Files) (cmd : Command) : Prop where
  approves : ∀ summary ∈ approval host files cmd,
    cmd.Finishes ∧ summary.raw.depth + 4 ≤ Json.parseDepth
  commits : commits files cmd → cmd.Finishes
  rollsBack : rollsBack host files cmd → cmd.Finishes ∧ (cmd.fault .state).isNone

variable {host : Host} {cmd : Command} {files : Files}

theorem finalizeReceipt_state (receipt : Json) :
    (finalizeReceipt host cmd receipt files).2.state = files.state := by
  unfold finalizeReceipt
  dsimp only
  split
  · rfl
  · split <;> rfl

theorem finalizeReceipt_regrets (receipt : Json) :
    (finalizeReceipt host cmd receipt files).2.regrets = files.regrets := by
  unfold finalizeReceipt
  dsimp only
  split
  · rfl
  · split <;> rfl

/-- A receipt that gets into its files is what the command answers. -/
theorem finalizeReceipt_ok (h : cmd.Finishes) (receipt : Json) :
    ∃ answer, (finalizeReceipt host cmd receipt files).1 = .ok answer := by
  obtain ⟨hlatest, hreceipts⟩ := h
  rw [Option.isNone_iff_eq_none] at hlatest hreceipts
  simp [finalizeReceipt, hlatest, hreceipts]

/-! ## What a command does -/

/-- What a command may do to the state and the regrets when no write fails after the first
one that counts. -/
inductive Outcome (host : Host) (files : Files) (cmd : Command) : Except String Json × Files → Prop
  | kept {result : Except String Json} {files' : Files} (happ : approval host files cmd = none)
      (hstate : files'.state = files.state) (hregrets : files'.regrets = files.regrets) :
      Outcome host files cmd (result, files')
  | approved {receipt : Json} {files' : Files} {summary : ProposalSummary}
      {object : List (String × Json)} (happ : approval host files cmd = some summary)
      (hload : loadState files = .obj object)
      (hstate : files'.state = some (.obj (approve host cmd summary object)))
      (hregrets : files'.regrets = files.regrets) : Outcome host files cmd (.ok receipt, files')
  | committed {receipt : Json} {files' : Files} {object : List (String × Json)} {pending : Json}
      {rest : List Json} {proposalId reason : String} (happ : approval host files cmd = none)
      (hload : loadState files = .obj object)
      (hremove : removeEntry (arrayFrom object "pending_commit") proposalId = some (pending, rest))
      (hstate : files'.state = some (.obj (moveRecord "committed" rest
        (commitRecord cmd pending proposalId reason) (cmd.clock 1) object)))
      (hregrets : files'.regrets = files.regrets) : Outcome host files cmd (.ok receipt, files')
  | rolledBack {receipt : Json} {files' : Files} {object : List (String × Json)} {pending : Json}
      {rest : List Json} {rollback : Rollback} (happ : approval host files cmd = none)
      (hload : loadState files = .obj object)
      (hremove : removeEntry (arrayFrom object "pending_commit") rollback.proposalId =
        some (pending, rest))
      (hstate : files'.state = some (.obj (moveRecord "rolled_back" rest
        (rollback.record cmd.policy pending) rollback.now object)))
      (hregrets : files'.regrets = files.regrets ++ [rollback.regret cmd.policy]) :
      Outcome host files cmd (.ok receipt, files')

theorem arrayFrom_objectOf (files : Files) (key : String) :
    arrayFrom (objectOf files) key = (((loadState files).get? key).bind Json.asArray).getD [] := by
  cases h : loadState files <;> simp [objectOf, arrayFrom, h, Json.asObject, Json.get?]

theorem objectOf_of_load {object : List (String × Json)} (h : loadState files = .obj object) :
    objectOf files = object := by
  simp [objectOf, h, Json.asObject]

theorem approval_of_verb_ne (h : cmd.verb ≠ some .evaluate) : approval host files cmd = none := by
  simp [approval, h]

/-- A receipt on its own changes neither state nor regrets. -/
theorem Outcome.finalize (happ : approval host files cmd = none) (receipt : Json) :
    Outcome host files cmd (finalizeReceipt host cmd receipt files) :=
  .kept happ (finalizeReceipt_state receipt) (finalizeReceipt_regrets receipt)

theorem Outcome.error (happ : approval host files cmd = none) (text : String) :
    Outcome host files cmd (.error text, files) :=
  .kept happ rfl rfl

theorem evaluateCommand_outcome (hverb : cmd.verb = some .evaluate)
    (hsound : ∀ summary ∈ approval host files cmd, cmd.Finishes) :
    Outcome host files cmd (evaluateCommand host cmd files) := by
  unfold evaluateCommand
  cases hproposal : parseProposal host cmd with
  | error text => exact .error (by simp [approval, hproposal]) text
  | ok proposal =>
    dsimp only
    split
    case isFalse heligible => exact .finalize (by simp [approval, hproposal, heligible]) _
    case isTrue heligible =>
      split
      case h_2 state hstate =>
        refine .error ?_ _
        have hobject : (loadState files).isObject = false := by
          cases hload : loadState files with
          | obj object => exact absurd hload (hstate object)
          | _ => rfl
        simp [approval, hobject]
      case h_1 object hload =>
        unfold storeState
        cases hfault : cmd.fault .state with
        | some err => exact .error (by simp [approval, hfault]) err
        | none =>
          have happ : approval host files cmd = some (proposalSummary host proposal) := by
            simp [approval, hverb, hfault, hload, hproposal, heligible, Json.isObject, Json.asObject]
          dsimp only
          obtain ⟨answer, hanswer⟩ := @finalizeReceipt_ok host cmd
            { files with state := some (.obj (approve host cmd (proposalSummary host proposal) object)) }
            (hsound _ happ) ((evaluationReceipt host cmd (proposalSummary host proposal)).setField
              "pending_record" (pendingEntry cmd (proposalSummary host proposal)))
          rw [← Prod.mk.eta (p := finalizeReceipt _ _ _ _), hanswer]
          exact .approved happ hload (finalizeReceipt_state _) (finalizeReceipt_regrets _)

theorem rollbackAndStore_outcome {rollback : Rollback} (happ : approval host files cmd = none)
    (hsound : (cmd.fault .regrets).isNone → (pendingOf files rollback.proposalId).isSome →
      cmd.Finishes ∧ (cmd.fault .state).isNone) :
    Outcome host files cmd (rollbackAndStore host cmd rollback files) := by
  unfold rollbackAndStore rollbackFromState
  cases hload : loadState files with
  | obj object =>
    dsimp only
    cases hremove : removeEntry (arrayFrom object "pending_commit") rollback.proposalId with
    | none => exact .error happ _
    | some entry =>
      obtain ⟨pending, rest⟩ := entry
      dsimp only
      cases hfault : cmd.fault .regrets with
      | some err => exact .error happ err
      | none =>
        have hpending : (pendingOf files rollback.proposalId).isSome := by
          simp only [removeEntry, Option.map_eq_some_iff] at hremove
          obtain ⟨row, hrow, -⟩ := hremove
          rw [pendingOf, objectOf_of_load hload, hrow]
          rfl
        obtain ⟨hfinishes, hstate⟩ := hsound (by rw [hfault]; rfl) hpending
        rw [Option.isNone_iff_eq_none] at hstate
        dsimp only
        generalize hreceipt : withFields _ _ = receipt
        obtain ⟨answer, hanswer⟩ := @finalizeReceipt_ok host cmd
          { files with regrets := files.regrets ++ [rollback.regret cmd.policy] } hfinishes receipt
        rw [← Prod.mk.eta (p := finalizeReceipt _ _ _ _), hanswer]
        simp only [storeState, hstate]
        exact .rolledBack happ hload hremove rfl (finalizeReceipt_regrets _)
  | _ => exact .error happ _

theorem exec_outcome (hsound : Sound host files cmd) :
    Outcome host files cmd (exec host files cmd) := by
  unfold exec
  cases hverb : cmd.verb with
  | none => exact .error (approval_of_verb_ne (by simp [hverb])) _
  | some verb =>
    cases verb with
    | evaluate =>
      exact evaluateCommand_outcome hverb fun summary h => (hsound.approves summary h).1
    | monitor =>
      have happ : approval host files cmd = none := approval_of_verb_ne (by simp [hverb])
      simp only [monitorCommand]
      cases hid : cmd.flag "proposal-id" with
      | none => exact .error happ _
      | some proposalId =>
        dsimp only
        rw [← arrayFrom_objectOf]
        cases hpending : (arrayFrom (objectOf files) "pending_commit").find?
            (rowId · == some proposalId) with
        | none => exact .error happ _
        | some pending =>
          dsimp only
          split
          case isFalse => exact .finalize happ _
          case isTrue hrolls =>
            refine rollbackAndStore_outcome happ fun hfault _ => hsound.rollsBack ?_
            simp [rollsBack, hfault, hid, pendingOf, hpending, hverb, hrolls]
    | commit =>
      have happ : approval host files cmd = none := approval_of_verb_ne (by simp [hverb])
      simp only [commitCommand]
      cases hid : cmd.flag "proposal-id" with
      | none => exact .error happ _
      | some proposalId =>
        dsimp only
        cases hload : loadState files with
        | obj object =>
          dsimp only
          cases hremove : removeEntry (arrayFrom object "pending_commit") proposalId with
          | none => exact .error happ _
          | some entry =>
            obtain ⟨pending, rest⟩ := entry
            dsimp only
            unfold storeState
            cases hfault : cmd.fault .state with
            | some err => exact .error happ err
            | none =>
              have hcommits : commits files cmd := by
                simp only [removeEntry, Option.map_eq_some_iff] at hremove
                obtain ⟨row, hrow, -⟩ := hremove
                simp [commits, hverb, hfault, hid, pendingOf, objectOf_of_load hload, hrow]
              dsimp only
              generalize hreceipt : withFields _ _ = receipt
              obtain ⟨answer, hanswer⟩ := @finalizeReceipt_ok host cmd
                { files with state := some (.obj (moveRecord "committed" rest
                  (commitRecord cmd pending proposalId ((cmd.flag "reason").getD "human_confirmed"))
                  (cmd.clock 1) object)) } (hsound.commits hcommits) receipt
              rw [← Prod.mk.eta (p := finalizeReceipt _ _ _ _), hanswer]
              exact .committed happ hload hremove (finalizeReceipt_state _) (finalizeReceipt_regrets _)
        | _ => exact .error happ _
    | rollback =>
      have happ : approval host files cmd = none := approval_of_verb_ne (by simp [hverb])
      simp only [rollbackCommand]
      cases hid : cmd.flag "proposal-id" with
      | none => exact .error happ _
      | some proposalId =>
        refine rollbackAndStore_outcome happ fun hfault hpending => hsound.rollsBack ?_
        obtain ⟨pending, hpending⟩ := Option.isSome_iff_exists.mp hpending
        dsimp only at hpending
        simp [rollsBack, hfault, hid, hpending, hverb]

/-! ## Rows of the state -/

section Rows

variable {object : List (String × Json)} {key k proposalId : String} {rows rest : List Json}
  {row pending : Json}

theorem arrayFrom_insertField_ne {value : Json} (h : key ≠ k) :
    arrayFrom (Json.insertField k value object) key = arrayFrom object key := by
  rw [arrayFrom, Json.lookup_insertField_ne h, arrayFrom]

theorem arrayFrom_putRows : arrayFrom (putRows key rows object) key = rows := by
  rw [arrayFrom, putRows, Json.lookup_insertField_same]
  rfl

theorem arrayFrom_putRows_ne (h : key ≠ k) :
    arrayFrom (putRows k rows object) key = arrayFrom object key :=
  arrayFrom_insertField_ne h

/-- What `remove_entry` finds, and what it leaves. -/
theorem removeEntry_eq_some (h : removeEntry rows proposalId = some (pending, rest)) :
    rowId pending = some proposalId ∧ (pending :: rest).Perm rows := by
  obtain ⟨row, hrow, hpair⟩ := Option.map_eq_some_iff.mp h
  obtain ⟨rfl, rfl⟩ := Prod.mk.inj hpair
  exact ⟨by simpa using List.find?_some hrow, RustStd.cons_eraseP_perm hrow⟩

/-- A record made of a pending entry has its proposal. -/
theorem rowId_record {fields : List (String × Json)} (hrow : rowId pending = some proposalId)
    (hfields : ("proposal", recordedProposal pending proposalId) ∈ fields)
    (hnodup : (fields.map Prod.fst).Nodup) : rowId (Json.ofFields fields) = some proposalId := by
  have hproposal : pending.get? "proposal" = some (recordedProposal pending proposalId) := by
    cases h : pending.get? "proposal" with
    | none => simp [rowId, h] at hrow
    | some proposal => rw [recordedProposal, h, Option.getD_some]
  rw [rowId, Json.get?_ofFields hnodup hfields, ← hproposal]
  exact hrow

theorem rowId_pendingEntry (cmd : Command) (summary : ProposalSummary) :
    rowId (pendingEntry cmd summary) = some summary.id := by
  have hid : (Json.ofFields (summary.fields ++ [("raw", summary.raw)])).get? "id" =
      some (.str summary.id) :=
    Json.get?_ofFields_mem (by simp [ProposalSummary.fields]) (by simp [ProposalSummary.fields])
  rw [rowId, pendingEntry, Json.get?_ofFields_mem (by simp) (List.mem_cons_self ..)]
  exact congrArg (Option.bind · Json.asStr) hid

theorem rowId_commitRecord {reason : String} (h : rowId pending = some proposalId) :
    rowId (commitRecord cmd pending proposalId reason) = some proposalId :=
  rowId_record h (by simp) (by simp)

theorem rowId_rollbackRecord {rollback : Rollback} {policy : Policy}
    (h : rowId pending = some rollback.proposalId) :
    rowId (rollback.record policy pending) = some rollback.proposalId :=
  rowId_record h (by simp) (by simp)

theorem regretId_regret (rollback : Rollback) (policy : Policy) :
    regretId (rollback.regret policy) = some rollback.proposalId := by
  rw [regretId, Rollback.regret, Json.get?_ofFields_mem (by simp) (List.mem_cons_self ..)]
  rfl

/-- The identifier of a proposal is never blank. -/
theorem proposalSummary_id_ne (proposal : Json) : (proposalSummary host proposal).id ≠ "" := by
  have hid : (proposalSummary host proposal).id =
    (nonBlank (proposal.get? "id")).getD (stableProposalId host proposal) := rfl
  rw [hid]
  cases h : nonBlank (proposal.get? "id") with
  | some text => exact of_decide_eq_true (Option.filter_eq_some_iff.mp h).2
  | none =>
    intro hblank
    have hdigest : ∀ seed, ((host.digest seed).toList.take 16) ≠ [] := by
      intro seed hnil
      rcases List.take_eq_nil_iff.mp hnil with h16 | hempty
      · cases h16
      · exact host.digest_ne _ (String.toList_injective hempty)
    exact hdigest _ (String.ofList_injective hblank)

theorem approve_pending (summary : ProposalSummary) (hne : summary.id ≠ "") :
    arrayFrom (approve host cmd summary object) "pending_commit" =
      (arrayFrom object "pending_commit").filter (rowId · != some summary.id) ++
        [pendingEntry cmd summary] := by
  rw [approve, arrayFrom_insertField_ne (by decide), arrayFrom_insertField_ne (by decide),
    insertPending, arrayFrom_putRows, rowId_pendingEntry, Option.getD_some, if_neg hne]

theorem approve_ne (summary : ProposalSummary) (h : key ≠ "pending_commit")
    (hdecision : key ≠ "last_decision") (hupdated : key ≠ "updated_at_epoch_ms") :
    arrayFrom (approve host cmd summary object) key = arrayFrom object key := by
  rw [approve, arrayFrom_insertField_ne hupdated, arrayFrom_insertField_ne hdecision, insertPending,
    arrayFrom_putRows_ne h]

theorem moveRecord_pending {now : ℤ} (h : key ≠ "pending_commit") :
    arrayFrom (moveRecord key rest row now object) "pending_commit" = rest := by
  rw [moveRecord, arrayFrom_insertField_ne (by decide), arrayFrom_putRows_ne h.symm,
    arrayFrom_putRows]

theorem moveRecord_same {now : ℤ} (h : key ≠ "pending_commit") (hupdated : key ≠ "updated_at_epoch_ms") :
    arrayFrom (moveRecord key rest row now object) key = arrayFrom object key ++ [row] := by
  rw [moveRecord, arrayFrom_insertField_ne hupdated, arrayFrom_putRows, arrayFrom_putRows_ne h]

theorem moveRecord_ne {now : ℤ} (hne : k ≠ key) (h : k ≠ "pending_commit")
    (hupdated : k ≠ "updated_at_epoch_ms") :
    arrayFrom (moveRecord key rest row now object) k = arrayFrom object k := by
  rw [moveRecord, arrayFrom_insertField_ne hupdated, arrayFrom_putRows_ne hne, arrayFrom_putRows_ne h]

end Rows

/-! ## The state reads back -/

theorem depth_withFields_le {fields : List (String × Json)} {n : ℕ} :
    ∀ {value : Json}, (∀ f ∈ fields, f.2.depth ≤ n) → value.depth ≤ n + 1 →
      (withFields fields value).depth ≤ n + 1 := by
  induction fields with
  | nil => exact fun _ h => h
  | cons f fields ih =>
    intro value hfields hvalue
    exact ih (fun g hg => hfields g (.tail _ hg))
      (Json.depth_setField_le (hfields f (List.mem_cons_self ..)) hvalue)

theorem depth_evaluationReceipt (summary : ProposalSummary) :
    (evaluationReceipt host cmd summary).depth ≤ 4 := by
  refine depth_withFields_le ?_ ?_
  · simp only [List.forall_mem_cons]
    refine ⟨by simp, ?_, by simp, by simp, by simp, ?_, ?_, by simp⟩
    · refine Json.depth_ofFields_le ?_
      simp [ProposalSummary.fields]
    · refine Json.depth_arr_le.mpr ?_
      simp
    · refine Json.depth_arr_le.mpr ?_
      simp only [List.forall_mem_singleton]
      refine Json.depth_ofFields_le ?_
      simp only [List.forall_mem_cons]
      refine ⟨by simp, by simp, Json.depth_ofFields_le ?_, by simp⟩
      simp
  · refine Json.depth_ofFields_le ?_
    simp

theorem depth_pendingEntry {summary : ProposalSummary} {n : ℕ} (h : summary.raw.depth ≤ n) :
    (pendingEntry cmd summary).depth ≤ n + 2 := by
  refine Json.depth_ofFields_le ?_
  simp only [List.forall_mem_cons]
  refine ⟨Json.depth_ofFields_le ?_, by simp, by simp, by simp, by simp⟩
  simp [ProposalSummary.fields, h]

theorem depth_recordedProposal {pending : Json} {proposalId : String} {n : ℕ}
    (h : pending.depth ≤ n + 2) : (recordedProposal pending proposalId).depth ≤ n + 1 := by
  unfold recordedProposal
  cases hproposal : pending.get? "proposal" with
  | none =>
    refine Json.depth_ofFields_le ?_
    simp
  | some proposal => exact Json.depth_of_get? hproposal h

theorem depth_commitRecord {pending : Json} {proposalId reason : String} {n : ℕ}
    (h : pending.depth ≤ n + 2) : (commitRecord cmd pending proposalId reason).depth ≤ n + 2 := by
  refine Json.depth_ofFields_le ?_
  simp only [List.forall_mem_cons]
  exact ⟨depth_recordedProposal h, by simp, by simp, by simp⟩

@[simp] theorem depth_optF64 (value : Option F64) : (optF64 value).depth = 0 := by
  rcases value with - | (_ | _ | _) <;> rfl

theorem depth_rollbackRecord {rollback : Rollback} {policy : Policy} {pending : Json} {n : ℕ}
    (h : pending.depth ≤ n + 2) : (rollback.record policy pending).depth ≤ n + 2 := by
  refine Json.depth_ofFields_le ?_
  simp only [List.forall_mem_cons]
  refine ⟨depth_recordedProposal h, by simp, by simp, by simp, by simp, by simp, ?_, by simp⟩
  refine Json.depth_ofFields_le ?_
  simp

theorem depth_arrayFrom {object : List (String × Json)} {key : String} {n : ℕ}
    (h : (Json.obj object).depth ≤ n + 2) : ∀ row ∈ arrayFrom object key, row.depth ≤ n := by
  unfold arrayFrom
  cases hvalue : object.lookup key with
  | none => simp
  | some value =>
    have hdepth : value.depth ≤ n + 1 := Json.depth_of_get? (j := .obj object) hvalue h
    cases value with
    | arr rows => exact Json.depth_arr_le.mp hdepth
    | _ => simp [Json.asArray]

theorem depth_putRows {object : List (String × Json)} {key : String} {rows : List Json} {n : ℕ}
    (hrows : ∀ row ∈ rows, row.depth ≤ n) (h : (Json.obj object).depth ≤ n + 2) :
    (Json.obj (putRows key rows object)).depth ≤ n + 2 :=
  Json.depth_insertField_le (Json.depth_arr_le.mpr hrows) h

theorem depth_approve {object : List (String × Json)} {summary : ProposalSummary}
    (hid : summary.id ≠ "") (h : (Json.obj object).depth ≤ 127) (hraw : summary.raw.depth ≤ 123) :
    (Json.obj (approve host cmd summary object)).depth ≤ 127 := by
  have hreceipt := @depth_evaluationReceipt host cmd summary
  refine Json.depth_insertField_le (by simp) (Json.depth_insertField_le (by omega) ?_)
  simp only [insertPending, rowId_pendingEntry, Option.getD_some, if_neg hid]
  refine depth_putRows ?_ h
  simp only [List.mem_append, List.mem_filter, List.mem_singleton]
  rintro row (⟨hrow, -⟩ | rfl)
  · exact depth_arrayFrom h row hrow
  · exact depth_pendingEntry hraw

theorem depth_moveRecord {object : List (String × Json)} {key : String} {rest : List Json}
    {record : Json} {now : ℤ} {n : ℕ} (h : (Json.obj object).depth ≤ n + 2)
    (hrest : ∀ row ∈ rest, row.depth ≤ n) (hrecord : record.depth ≤ n) :
    (Json.obj (moveRecord key rest record now object)).depth ≤ n + 2 := by
  have hmoved := @depth_putRows object "pending_commit" rest n hrest h
  refine Json.depth_insertField_le (by simp) (depth_putRows ?_ hmoved)
  simp only [List.mem_append, List.mem_singleton]
  rintro row (hrow | rfl)
  · exact depth_arrayFrom hmoved row hrow
  · exact hrecord

/-! ## Runs -/

theorem countOf_of_load {object : List (String × Json)} (h : loadState files = .obj object)
    (key proposalId : String) :
    countOf files key proposalId = ((arrayFrom object key).map rowId).count (some proposalId) := by
  rw [countOf, objectOf_of_load h]

theorem loadState_depth (files : Files) : (loadState files).depth ≤ Json.parseDepth := by
  unfold loadState
  cases h : files.state.filter fun state => state.depth ≤ Json.parseDepth with
  | none =>
    refine (Json.depth_ofFields_le (n := 1) ?_).trans (by decide)
    simp [Json.depth, Json.itemsDepth]
  | some state => exact of_decide_eq_true (Option.filter_eq_some_iff.mp h).2

/-- A state that is not too deep is read back. -/
theorem loadState_stored {object : List (String × Json)} (h : files.state = some (.obj object))
    (hdepth : (Json.obj object).depth ≤ Json.parseDepth) : loadState files = .obj object := by
  simp [loadState, h, Option.filter, hdepth]

theorem count_replaced (rows : List Json) (proposalId other : String) :
    ((rows.filter (rowId · != some proposalId)).map rowId).count (some other) =
      if proposalId = other then 0 else (rows.map rowId).count (some other) := by
  have hmap : (rows.filter (rowId · != some proposalId)).map rowId =
      (rows.map rowId).filter (· != some proposalId) := by
    rw [List.filter_map]
    rfl
  rw [hmap]
  split
  case isTrue heq =>
    subst heq
    exact List.count_eq_zero.mpr (by simp)
  case isFalse hne => exact List.count_filter (by simpa using Ne.symm hne)

variable {files' : Files} {log : List Event} {object : List (String × Json)}

/-- A new approval replaces the pending entry of its proposal, if there is one. -/
theorem Accounted.approved (h : Accounted files log) {summary : ProposalSummary}
    (hid : summary.id ≠ "") (hload : loadState files = .obj object)
    (hload' : loadState files' = .obj (approve host cmd summary object))
    (hregrets : files'.regrets = files.regrets) :
    Accounted files' (log ++ .approved summary.id ::
      List.replicate (countOf files "pending_commit" summary.id) (.replaced summary.id)) := by
  have hother : ∀ key, key ≠ "pending_commit" → key ≠ "last_decision" →
      key ≠ "updated_at_epoch_ms" → ∀ proposalId,
      countOf files' key proposalId = countOf files key proposalId := by
    intro key hpending hdecision hupdated proposalId
    rw [countOf_of_load hload', countOf_of_load hload, approve_ne summary hpending hdecision hupdated]
  have hcommitted := hother "committed" (by decide) (by decide) (by decide)
  have hrolled := hother "rolled_back" (by decide) (by decide) (by decide)
  have hpending : ∀ proposalId, countOf files' "pending_commit" proposalId =
      if summary.id = proposalId then 1 else countOf files "pending_commit" proposalId := by
    intro proposalId
    rw [countOf_of_load hload', countOf_of_load hload, approve_pending summary hid, List.map_append,
      List.count_append, count_replaced, List.map_singleton, rowId_pendingEntry]
    by_cases heq : summary.id = proposalId <;> simp [heq]
  constructor
  case regrets =>
    intro proposalId
    rw [hregrets, hrolled]
    exact h.regrets proposalId
  case pending =>
    intro proposalId
    rw [hpending]
    have := h.pending proposalId
    split <;> omega
  case approvals =>
    intro proposalId
    have hsum := h.approvals proposalId
    rw [hpending, hcommitted, hrolled]
    by_cases heq : summary.id = proposalId
    · subst heq
      simp [List.count_replicate]
      omega
    · simpa [List.count_cons, List.count_replicate, heq] using hsum

/-- A pending entry moves to the records under a key. -/
theorem countOf_moveRecord {key proposalId : String} {pending record : Json} {rest : List Json}
    {now : ℤ} (hload : loadState files = .obj object)
    (hload' : loadState files' = .obj (moveRecord key rest record now object))
    (hremove : removeEntry (arrayFrom object "pending_commit") proposalId = some (pending, rest))
    (hkey : key ≠ "pending_commit") (hupdated : key ≠ "updated_at_epoch_ms")
    (hrecord : rowId record = some proposalId) (other : String) :
    countOf files' "pending_commit" other + (if proposalId = other then 1 else 0) =
        countOf files "pending_commit" other ∧
      countOf files' key other = countOf files key other + (if proposalId = other then 1 else 0) := by
  obtain ⟨hid, hperm⟩ := removeEntry_eq_some hremove
  constructor
  · rw [countOf_of_load hload', countOf_of_load hload, moveRecord_pending hkey,
      ← (hperm.map rowId).count_eq, List.map_cons, hid]
    simp [List.count_cons]
  · rw [countOf_of_load hload', countOf_of_load hload, moveRecord_same hkey hupdated, List.map_append,
      List.count_append, List.map_singleton, hrecord]
    simp [List.count_cons]

theorem countOf_moveRecord_ne {key k : String} {record : Json} {rest : List Json} {now : ℤ}
    (hload : loadState files = .obj object)
    (hload' : loadState files' = .obj (moveRecord key rest record now object)) (hne : k ≠ key)
    (hkey : k ≠ "pending_commit") (hupdated : k ≠ "updated_at_epoch_ms") (other : String) :
    countOf files' k other = countOf files k other := by
  rw [countOf_of_load hload', countOf_of_load hload, moveRecord_ne hne hkey hupdated]

theorem Accounted.committed (h : Accounted files log) {proposalId reason : String}
    {pending : Json} {rest : List Json} (hload : loadState files = .obj object)
    (hload' : loadState files' = .obj (moveRecord "committed" rest
      (commitRecord cmd pending proposalId reason) (cmd.clock 1) object))
    (hremove : removeEntry (arrayFrom object "pending_commit") proposalId = some (pending, rest))
    (hregrets : files'.regrets = files.regrets) : Accounted files' log := by
  have hmoved := countOf_moveRecord hload hload' hremove (by decide) (by decide)
    (rowId_commitRecord (removeEntry_eq_some hremove).1)
  have hrolled := @countOf_moveRecord_ne files files' object "committed" "rolled_back" _ _ _ hload
    hload' (by decide) (by decide) (by decide)
  constructor
  case regrets =>
    intro other
    rw [hregrets, hrolled]
    exact h.regrets other
  case pending =>
    intro other
    have := h.pending other
    have := hmoved other
    omega
  case approvals =>
    intro other
    have := h.approvals other
    have := hmoved other
    have := hrolled other
    omega

theorem Accounted.rolledBack (h : Accounted files log) {rollback : Rollback} {pending : Json}
    {rest : List Json} (hload : loadState files = .obj object)
    (hload' : loadState files' = .obj (moveRecord "rolled_back" rest
      (rollback.record cmd.policy pending) rollback.now object))
    (hremove : removeEntry (arrayFrom object "pending_commit") rollback.proposalId =
      some (pending, rest))
    (hregrets : files'.regrets = files.regrets ++ [rollback.regret cmd.policy]) :
    Accounted files' log := by
  have hmoved := countOf_moveRecord hload hload' hremove (by decide) (by decide)
    (rowId_rollbackRecord (removeEntry_eq_some hremove).1)
  have hcommitted := @countOf_moveRecord_ne files files' object "rolled_back" "committed" _ _ _ hload
    hload' (by decide) (by decide) (by decide)
  constructor
  case regrets =>
    intro other
    have hsame := h.regrets other
    rw [hregrets, (hmoved other).2, List.map_append, List.count_append, hsame, List.map_singleton,
      regretId_regret]
    simp [List.count_cons]
  case pending =>
    intro other
    have := h.pending other
    have := hmoved other
    omega
  case approvals =>
    intro other
    have := h.approvals other
    have := hmoved other
    have := hcommitted other
    omega

theorem approval_eq_some {summary : ProposalSummary} (h : approval host files cmd = some summary) :
    ∃ proposal, parseProposal host cmd = .ok proposal ∧ summary = proposalSummary host proposal := by
  unfold approval at h
  split at h
  case isFalse => cases h
  case isTrue =>
    split at h
    case h_1 => cases h
    case h_2 proposal hproposal =>
      dsimp only at h
      split at h
      · exact ⟨proposal, hproposal, (Option.some.inj h).symm⟩
      · cases h

theorem approval_id_ne {summary : ProposalSummary} (h : approval host files cmd = some summary) :
    summary.id ≠ "" := by
  obtain ⟨proposal, -, rfl⟩ := approval_eq_some h
  exact proposalSummary_id_ne proposal

/-- The state is an object, and what is in it is accounted for. -/
structure Inv (files : Files) (log : List Event) : Prop where
  object : (loadState files).isObject = true
  accounted : Accounted files log

theorem Inv.step (h : Inv files log) (hsound : Sound host files cmd) :
    Inv (step host files cmd) (log ++ events host files cmd) := by
  have houtcome := exec_outcome hsound
  have hdepth := loadState_depth files
  unfold AutoApproval.step
  generalize exec host files cmd = answer at houtcome
  cases houtcome with
  | kept happ hstate hregrets =>
    rename_i result files'
    have hload : loadState files' = loadState files := by rw [loadState, hstate, loadState]
    have hcount : ∀ key other, countOf files' key other = countOf files key other := by
      intro key other
      rw [countOf, objectOf, hload, ← objectOf, ← countOf]
    have hquiet : events host files cmd = [] := by simp [events, happ]
    rw [hquiet, List.append_nil]
    refine ⟨by rw [hload]; exact h.object, ?_⟩
    constructor
    · simpa only [hregrets, hcount] using h.accounted.regrets
    · simpa only [hcount] using h.accounted.pending
    · simpa only [hcount] using h.accounted.approvals
  | approved happ hload hstate hregrets =>
    rename_i receipt files' summary object
    have hid := approval_id_ne happ
    have hraw := (hsound.approves summary happ).2
    rw [hload] at hdepth
    have hload' := loadState_stored hstate (depth_approve hid hdepth
      (Nat.le_of_add_le_add_right hraw))
    refine ⟨by rw [hload']; rfl, ?_⟩
    simp only [events, happ]
    exact h.accounted.approved hid hload hload' hregrets
  | committed happ hload hremove hstate hregrets =>
    rename_i receipt files' object pending rest proposalId reason
    rw [hload] at hdepth
    obtain ⟨hid, hperm⟩ := removeEntry_eq_some hremove
    have hrows := @depth_arrayFrom object "pending_commit" 125 hdepth
    have hload' := loadState_stored hstate (depth_moveRecord hdepth
      (fun row hrow => hrows row (hperm.mem_iff.mp (.tail _ hrow)))
      (depth_commitRecord (hrows pending (hperm.mem_iff.mp (List.mem_cons_self ..)))))
    have hquiet : events host files cmd = [] := by simp [events, happ]
    rw [hquiet, List.append_nil]
    exact ⟨by rw [hload']; rfl, h.accounted.committed hload hload' hremove hregrets⟩
  | rolledBack happ hload hremove hstate hregrets =>
    rename_i receipt files' object pending rest rollback
    rw [hload] at hdepth
    obtain ⟨hid, hperm⟩ := removeEntry_eq_some hremove
    have hrows := @depth_arrayFrom object "pending_commit" 125 hdepth
    have hload' := loadState_stored hstate (depth_moveRecord hdepth
      (fun row hrow => hrows row (hperm.mem_iff.mp (.tail _ hrow)))
      (depth_rollbackRecord (hrows pending (hperm.mem_iff.mp (List.mem_cons_self ..)))))
    have hquiet : events host files cmd = [] := by simp [events, happ]
    rw [hquiet, List.append_nil]
    exact ⟨by rw [hload']; rfl, h.accounted.rolledBack hload hload' hremove hregrets⟩

theorem inv_empty : Inv {} [] where
  object := rfl
  accounted :=
    { regrets := fun _ => rfl
      pending := fun _ => Nat.zero_le 1
      approvals := fun _ => rfl }

/-- A sound command that fails changes neither state nor regrets. -/
theorem step_of_error (hsound : Sound host files cmd) {text : String}
    (h : (exec host files cmd).1 = .error text) :
    (step host files cmd).state = files.state ∧ (step host files cmd).regrets = files.regrets := by
  have houtcome := exec_outcome hsound
  unfold AutoApproval.step
  generalize exec host files cmd = answer at houtcome h
  cases houtcome with
  | kept _ hstate hregrets => exact ⟨hstate, hregrets⟩
  | _ => cases h

/-- **Auto-approvals end exactly once.**  In a run from no files in which no write of a
command fails after the first one that counts, and no approved proposal is nested too deeply,
regrets and rollbacks are as many, every approval is pending, committed, rolled back or
replaced, and a command that fails leaves the state and the regrets as they were. -/
theorem approvals_end_once (host : Host) (cmds : List Command)
    (h : Meets (step host) (Sound host) {} cmds) : EndOnce host cmds where
  failed n cmd text hcmd herror := by
    rw [before_succ_of_some _ hcmd]
    exact step_of_error (h.guard_before hcmd) herror
  accounted n := by
    have hinv := Meets.logs_invariant (fun files log cmd => Inv.step) inv_empty (h.take n)
    exact hinv.accounted

/-! ## Two runs -/

/-- The proposal of the two runs. -/
def sampleProposal : Json := .ofFields [("id", .str "p"), ("title", .str "t"),
  ("confidence", .ofRat 1), ("historical_success_rate", .ofRat 1), ("impact_score", .ofRat 1)]

def proposalText : String := sampleProposal.render V8Kernel.pointed

/-- Digests that spell their text out; the one text that is read is that of the proposal. -/
def sampleHost : Host where
  toHost := V8Kernel.plainHost
  digest_ne text h := (V8Kernel.isHex_hexText text).1 h
  fixed3 := V8Kernel.pointed
  parseF64 _ := none
  parseJson text := if text = proposalText then .ok sampleProposal else .error "expected value"
  readFile _ := .error "not found"

def samplePolicy : Policy where
  enabled := true
  minConfidence := 0
  minHistoricalSuccessRate := 0
  maxImpactScore := 50
  excludedTypes := []
  autoRollbackOnDegradation := true
  maxDriftDelta := 0
  maxYieldDrop := 0
  rollbackWindowMinutes := 30
  regretIssueLabel := "auto_approval_regret"
  statePath := "state.json"
  latestPath := "latest.json"
  receiptsPath := "receipts.jsonl"
  regretsPath := "regrets.jsonl"

/-- `evaluate --apply=1`. -/
def approveIt : Command where
  argv := ["evaluate", "--apply=1", "--proposal-json=" ++ proposalText]
  policy := samplePolicy
  clock _ := 1000

/-- `rollback`, whose latest receipt fails to be written where `full` says so. -/
def rollBackIt (full : Bool) : Command where
  argv := ["rollback", "--proposal-id=p"]
  policy := samplePolicy
  clock _ := 2000
  fault file := if full && file == .latest then some "write_json_failed:disk full" else none

/-- Commands whose writes all succeed are sound while they approve the proposal. -/
theorem sound_sampleHost (hfault : cmd.fault = fun _ => none)
    (hflag : cmd.flag "proposal-json" = some proposalText) : Sound sampleHost files cmd := by
  have hfinishes : cmd.Finishes := by
    rw [Command.Finishes, hfault]
    exact ⟨rfl, rfl⟩
  refine ⟨fun summary hsummary => ⟨hfinishes, ?_⟩, fun _ => hfinishes, fun _ => ⟨hfinishes, by rw [hfault]; rfl⟩⟩
  obtain ⟨proposal, hproposal, rfl⟩ := approval_eq_some hsummary
  obtain rfl : sampleProposal = proposal := by
    simpa [parseProposal, hflag, sampleHost, Except.mapError] using hproposal
  show sampleProposal.depth + 4 ≤ Json.parseDepth
  decide

theorem approvals_end_once_approve_rollback : EndOnce sampleHost [approveIt, rollBackIt false] := by
  refine approvals_end_once sampleHost _ ⟨sound_sampleHost rfl (by decide +kernel), ?_, trivial⟩
  refine ⟨?_, fun _ => ⟨rfl, rfl⟩, fun _ => ⟨⟨rfl, rfl⟩, rfl⟩⟩
  have hnone : ∀ files, approval sampleHost files (rollBackIt false) = none := by
    intro files
    exact approval_of_verb_ne (by decide)
  simp [hnone]

/-- The rollback is filed as a regret and not recorded. -/
theorem regret_without_rollback : ¬EndOnce sampleHost [approveIt, rollBackIt true] := by
  intro h
  have hkept := (h.failed 1 (rollBackIt true) "write_json_failed:disk full" rfl (by decide +kernel)).2
  have hlength := congrArg List.length hkept
  revert hlength
  decide +kernel

end Protheus.AutoApproval
