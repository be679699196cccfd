import Protheus.Json
import Protheus.Lib.Runs
import Protheus.RustStd

/-!
The approval queue of `approval_gate_kernel.rs`: actions are queued, and each pending
entry is approved or denied once.

`approvals_accounted` says what the queue holds after any commands: every entry that was
queued is pending or decided, the history is the decisions in order, and `was-approved`
answers whether the action was ever approved: the list it looks at only grows.
-/

namespace Protheus.ApprovalGate

open Runs

structure ApprovalEntry where
  actionId : String
  timestamp : String := ""
  directiveId : String := ""
  entryType : String := ""
  summary : String := ""
  reason : String := ""
  status : String := ""
  payloadPointer : String := ""
  approvedAt : String := ""
  deniedAt : String := ""
  denyReason : String := ""
  action : String := ""
  historyAt : String := ""
  deriving DecidableEq, Repr

structure ApprovalQueue where
  pending : List ApprovalEntry := []
  approved : List ApprovalEntry := []
  denied : List ApprovalEntry := []
  history : List ApprovalEntry := []
  deriving DecidableEq, Repr

/-- `QueuePayload`, as far as `queue` reads it. -/
structure QueuePayload where
  actionEnvelope : Option Json := none
  reason : Option String := none

/-- `clean_text`. -/
def cleanText (value : Option Json) (maxLen : ℕ) : String :=
  String.ofList ((RustStd.trim ((value.bind Json.asStr).getD "")).toList.take maxLen)

/-- `queue_entry_from_payload`; `ts` is what `now_iso` answers. -/
def queueEntryFromPayload (actionEnvelope : Json) (reason ts : String) :
    Except String ApprovalEntry :=
  if !actionEnvelope.isObject then .error "approval_gate_kernel_action_envelope_invalid"
  else
    let actionId := cleanText (actionEnvelope.get? "action_id") 160
    if actionId = "" then .error "approval_gate_kernel_action_id_missing"
    else
      let directiveId := cleanText (actionEnvelope.get? "directive_id") 160
      .ok
        { actionId
          timestamp := ts
          directiveId := if directiveId = "" then "T0_invariants" else directiveId
          entryType := cleanText (actionEnvelope.get? "type") 120
          summary := cleanText (actionEnvelope.get? "summary") 480
          reason := RustStd.trim reason
          status := "PENDING"
          payloadPointer := actionId }

/-- `generate_approval_message`. -/
def generateApprovalMessage (entry : ApprovalEntry) : String :=
  "Action: " ++ entry.summary ++ "\nType: " ++ entry.entryType ++ "\nDirective: " ++
    entry.directiveId ++ "\nWhy gated: " ++ entry.reason ++ "\nAction ID: " ++ entry.actionId ++
    "\n\nTo approve, reply: APPROVE " ++ entry.actionId ++ "\nTo deny, reply: DENY " ++ entry.actionId

/-- The `result` of a command that succeeds. -/
structure Success where
  actionId : String
  message : String
  deriving DecidableEq, Repr

/-- `command_queue`. -/
def commandQueue (payload : QueuePayload) (ts : String) (queue : ApprovalQueue) :
    Except String Success × ApprovalQueue :=
  match payload.actionEnvelope with
  | none => (.error "approval_gate_kernel_action_envelope_missing", queue)
  | some actionEnvelope =>
    match queueEntryFromPayload actionEnvelope (payload.reason.getD "approval_required") ts with
    | .error text => (.error text, queue)
    | .ok entry =>
      (.ok ⟨entry.actionId, generateApprovalMessage entry⟩,
        { queue with pending := queue.pending ++ [entry] })

/-- The entry as it is denied, for a reason, or approved. -/
def ApprovalEntry.resolve (entry : ApprovalEntry) (denyReason : Option String) (ts : String) :
    ApprovalEntry :=
  match denyReason with
  | some reason => { entry with status := "DENIED", deniedAt := ts, denyReason := reason }
  | none => { entry with status := "APPROVED", approvedAt := ts }

def ApprovalEntry.historyRow (entry : ApprovalEntry) (denyReason : Option String) (ts : String) :
    ApprovalEntry :=
  { entry with action := if denyReason.isSome then "denied" else "approved", historyAt := ts }

/-- `transition_entry`. -/
def transitionEntry (actionId : String) (denyReason : Option String) (ts : String)
    (queue : ApprovalQueue) : Except String Success × ApprovalQueue :=
  match queue.pending.find? fun entry => entry.actionId == actionId with
  | none => (.error ("approval_gate_kernel_action_not_found:" ++ actionId), queue)
  | some entry =>
    let decided := entry.resolve denyReason ts
    let moved := { queue with
      pending := queue.pending.eraseP fun entry => entry.actionId == actionId
      history := queue.history ++ [decided.historyRow denyReason ts] }
    if denyReason.isSome then
      (.ok ⟨actionId, "DENIED: " ++ entry.summary⟩, { moved with denied := moved.denied ++ [decided] })
    else
      (.ok ⟨actionId, "APPROVED: " ++ entry.summary ++ ". You can now re-run this action."⟩,
        { moved with approved := moved.approved ++ [decided] })

/-- The reason a denial is recorded with. -/
def denyReasonOf (reason : Option String) : String :=
  ((reason.map RustStd.trim).filter (· ≠ "")).getD "User denied"

/-- A command that changes the queue, with its flags. -/
inductive Command where
  | queue (payload : QueuePayload) (ts : String)
  | approve (actionId : Option String) (ts : String)
  | deny (actionId reason : Option String) (ts : String)

/-- `command_queue`, `command_approve` and `command_deny`. -/
def exec (queue : ApprovalQueue) : Command → Except String Success × ApprovalQueue
  | .queue payload ts => commandQueue payload ts queue
  | .approve none _ => (.error "approval_gate_kernel_action_id_missing", queue)
  | .approve (some actionId) ts => transitionEntry (RustStd.trim actionId) none ts queue
  | .deny none _ _ => (.error "approval_gate_kernel_action_id_missing", queue)
  | .deny (some actionId) reason ts =>
    transitionEntry (RustStd.trim actionId) (some (denyReasonOf reason)) ts queue

/-- The queue a command leaves. -/
def step (queue : ApprovalQueue) (cmd : Command) : ApprovalQueue := (exec queue cmd).2

/-- `command_was_approved`: `approved` in the answer for the identifier. -/
def wasApproved (queue : ApprovalQueue) (actionId : String) : Bool :=
  queue.approved.any fun entry => entry.actionId == RustStd.trim actionId

/-! ## What happened -/

/-- What a successful command does to the queue. -/
inductive Event where
  | queued (entry : ApprovalEntry)
  /-- A decision on a pending entry; `denyReason` says which one. -/
  | decided (entry : ApprovalEntry) (denyReason : Option String) (ts : String)

/-- The action a command decides on, with the reason of a denial and the time. -/
def Command.decision : Command → Option (String × Option String × String)
  | .approve (some actionId) ts => some (RustStd.trim actionId, none, ts)
  | .deny (some actionId) reason ts =>
    some (RustStd.trim actionId, some (denyReasonOf reason), ts)
  | _ => none

/-- The event of a command in a state of the queue, if it succeeds. -/
def event (queue : ApprovalQueue) (cmd : Command) : List Event :=
  match (exec queue cmd).1 with
  | .error _ => []
  | .ok _ =>
    match cmd.decision with
    | some (actionId, denyReason, ts) =>
      ((queue.pending.find? fun entry => entry.actionId == actionId).map
        (.decided · denyReason ts)).toList
    | none => ((exec queue cmd).2.pending.getLast?.map .queued).toList

namespace Event

def queuedEntry : Event → Option ApprovalEntry
  | .queued entry => some entry
  | .decided .. => none

def decidedEntry : Event → Option ApprovalEntry
  | .queued _ => none
  | .decided entry _ _ => some entry

def approvedEntry : Event → Option ApprovalEntry
  | .decided entry none ts => some (entry.resolve none ts)
  | _ => none

def deniedEntry : Event → Option ApprovalEntry
  | .decided entry (some reason) ts => some (entry.resolve (some reason) ts)
  | _ => none

def historyEntry : Event → Option ApprovalEntry
  | .queued _ => none
  | .decided entry denyReason ts => some ((entry.resolve denyReason ts).historyRow denyReason ts)

/-- Whether it approves the action, if it decides on it. -/
def approves (actionId : String) : Event → Option Bool
  | .queued _ => none
  | .decided entry denyReason _ => if entry.actionId = actionId then some denyReason.isNone else none

end Event

/-- The events of a list of commands on an empty queue. -/
def events (cmds : List Command) : List Event := logs step event {} cmds

def lastDecision (actionId : String) (cmds : List Command) : Option Bool :=
  ((events cmds).filterMap (Event.approves actionId)).getLast?

/-- What is in the queue is what the events put there. -/
structure Accounted (queue : ApprovalQueue) (events : List Event) : Prop where
  approved : queue.approved = events.filterMap Event.approvedEntry
  denied : queue.denied = events.filterMap Event.deniedEntry
  history : queue.history = events.filterMap Event.historyEntry
  pending : (queue.pending : Multiset ApprovalEntry) + (events.filterMap Event.decidedEntry : List _) =
    (events.filterMap Event.queuedEntry : List _)

/-- A decision takes the first pending entry of the action. -/
inductive TransitionCase (actionId : String) (denyReason : Option String) (ts : String)
    (queue : ApprovalQueue) : Except String Success × ApprovalQueue → Prop where
  | missing (text : String) (h : queue.pending.find? (fun entry => entry.actionId == actionId) = none) :
      TransitionCase actionId denyReason ts queue (.error text, queue)
  | moved (entry : ApprovalEntry) (success : Success)
      (h : queue.pending.find? (fun entry => entry.actionId == actionId) = some entry) :
      TransitionCase actionId denyReason ts queue (.ok success,
        { pending := queue.pending.eraseP fun entry => entry.actionId == actionId
          approved := queue.approved ++ (Event.decided entry denyReason ts).approvedEntry.toList
          denied := queue.denied ++ (Event.decided entry denyReason ts).deniedEntry.toList
          history := queue.history ++ (Event.decided entry denyReason ts).historyEntry.toList })

theorem transition_cases (actionId : String) (denyReason : Option String) (ts : String)
    (queue : ApprovalQueue) : TransitionCase actionId denyReason ts queue
      (transitionEntry actionId denyReason ts queue) := by
  unfold transitionEntry
  cases h : queue.pending.find? fun entry => entry.actionId == actionId with
  | none => exact .missing _ h
  | some entry =>
    have hmoved := @TransitionCase.moved actionId denyReason ts queue entry
    cases denyReason with
    | none =>
      have hcase := hmoved ⟨actionId, "APPROVED: " ++ entry.summary ++
        ". You can now re-run this action."⟩ h
      simpa [Event.approvedEntry, Event.deniedEntry, Event.historyEntry] using hcase
    | some reason =>
      have hcase := hmoved ⟨actionId, "DENIED: " ++ entry.summary⟩ h
      simpa [Event.approvedEntry, Event.deniedEntry, Event.historyEntry] using hcase

variable {queue : ApprovalQueue} {es : List Event}

/-- A decision moves an entry from the pending ones to the decided ones. -/
theorem Accounted.transition (h : Accounted queue es) {actionId : String}
    {denyReason : Option String} {ts : String} {entry : ApprovalEntry}
    (hfind : queue.pending.find? (fun entry => entry.actionId == actionId) = some entry) :
    Accounted
      { pending := queue.pending.eraseP fun entry => entry.actionId == actionId
        approved := queue.approved ++ (Event.decided entry denyReason ts).approvedEntry.toList
        denied := queue.denied ++ (Event.decided entry denyReason ts).deniedEntry.toList
        history := queue.history ++ (Event.decided entry denyReason ts).historyEntry.toList }
      (es ++ [.decided entry denyReason ts]) := by
  constructor
  case approved =>
    rw [List.filterMap_append, ← h.approved]
    cases denyReason <;> rfl
  case denied =>
    rw [List.filterMap_append, ← h.denied]
    cases denyReason <;> rfl
  case history =>
    rw [List.filterMap_append, ← h.history]
    rfl
  case pending =>
    have hperm : (entry ::ₘ (queue.pending.eraseP fun entry => entry.actionId == actionId :
        Multiset ApprovalEntry)) = queue.pending := Multiset.coe_eq_coe.mpr (RustStd.cons_eraseP_perm hfind)
    rw [List.filterMap_append, List.filterMap_append, ← Multiset.coe_add, ← Multiset.coe_add,
      ← h.pending, ← hperm]
    simp [List.filterMap_cons, Event.decidedEntry, Event.queuedEntry, add_comm, add_assoc]

/-- A queued entry is pending. -/
theorem Accounted.queued (h : Accounted queue es) (entry : ApprovalEntry) :
    Accounted { queue with pending := queue.pending ++ [entry] } (es ++ [.queued entry]) := by
  constructor
  case approved => simp [h.approved, Event.approvedEntry]
  case denied => simp [h.denied, Event.deniedEntry]
  case history => simp [h.history, Event.historyEntry]
  case pending =>
    have hdecided : (es ++ [Event.queued entry]).filterMap Event.decidedEntry =
        es.filterMap Event.decidedEntry := by
      rw [List.filterMap_append]
      exact List.append_nil _
    have hqueued : (es ++ [Event.queued entry]).filterMap Event.queuedEntry =
        es.filterMap Event.queuedEntry ++ [entry] := List.filterMap_append
    rw [hdecided, hqueued, ← Multiset.coe_add, ← Multiset.coe_add, ← h.pending, add_right_comm]

theorem commandQueue_cases (payload : QueuePayload) (ts : String) (queue : ApprovalQueue) :
    (∃ text, commandQueue payload ts queue = (.error text, queue)) ∨
      ∃ success entry, commandQueue payload ts queue =
        (.ok success, { queue with pending := queue.pending ++ [entry] }) := by
  unfold commandQueue
  split
  · exact .inl ⟨_, rfl⟩
  · split
    · exact .inl ⟨_, rfl⟩
    · exact .inr ⟨_, _, rfl⟩

theorem event_of_error {cmd : Command} {text : String} (h : (exec queue cmd).1 = .error text) :
    event queue cmd = [] := by
  rw [event, h]

/-- A command that decides is a transition. -/
theorem exec_of_decision {cmd : Command} {actionId : String} {denyReason : Option String}
    {ts : String} (h : cmd.decision = some (actionId, denyReason, ts)) :
    exec queue cmd = transitionEntry actionId denyReason ts queue := by
  cases cmd with
  | queue => cases h
  | approve id =>
    cases id with
    | none => cases h
    | some id =>
      cases h
      rfl
  | deny id =>
    cases id with
    | none => cases h
    | some id =>
      cases h
      rfl

/-- A command that does not decide queues an entry, or fails. -/
theorem exec_of_no_decision {cmd : Command} (h : cmd.decision = none) :
    (∃ text, exec queue cmd = (.error text, queue)) ∨ ∃ success entry, exec queue cmd =
      (.ok success, { queue with pending := queue.pending ++ [entry] }) := by
  cases cmd with
  | queue payload ts => exact commandQueue_cases payload ts queue
  | approve id =>
    cases id with
    | none => exact .inl ⟨_, rfl⟩
    | some id => cases h
  | deny id =>
    cases id with
    | none => exact .inl ⟨_, rfl⟩
    | some id => cases h

/-- **A command does what its event says.** -/
theorem accounted_step (h : Accounted queue es) (cmd : Command) :
    Accounted (step queue cmd) (es ++ event queue cmd) := by
  cases hdecision : cmd.decision with
  | none =>
    rcases @exec_of_no_decision queue cmd hdecision with ⟨text, hexec⟩ | ⟨success, entry, hexec⟩
    · rw [event_of_error (congrArg Prod.fst hexec), List.append_nil, step, hexec]
      exact h
    · rw [event, step, hexec, hdecision]
      simpa using h.queued entry
  | some decision =>
    obtain ⟨actionId, denyReason, ts⟩ := decision
    have hcases := transition_cases actionId denyReason ts queue
    rw [← exec_of_decision hdecision] at hcases
    rw [step]
    cases hanswer : exec queue cmd with
    | mk result queue' =>
      rw [hanswer] at hcases
      cases hcases with
      | missing text hfind =>
        rw [event_of_error (congrArg Prod.fst hanswer), List.append_nil]
        exact h
      | moved entry success hfind =>
        have hevent : event queue cmd = [.decided entry denyReason ts] := by
          rw [event, hanswer, hdecision]
          dsimp only
          rw [hfind]
          rfl
        rw [hevent]
        exact h.transition hfind

theorem accounted (cmds : List Command) : Accounted (run step {} cmds) (events cmds) := by
  have hstart : Accounted {} [] := ⟨rfl, rfl, rfl, rfl⟩
  exact @logs_invariant _ _ step _ event Accounted (fun _ _ cmd h => accounted_step h cmd) cmds {} []
    hstart

/-! ## The queue after any commands -/

/-- What the gate holds after the commands. -/
structure GateAccounts (cmds : List Command) : Prop where
  /-- An action was approved if some decision on it was an approval. -/
  wasApproved : ∀ actionId, wasApproved (run step {} cmds) actionId = true ↔
    true ∈ (events cmds).filterMap (Event.approves (RustStd.trim actionId))
  /-- What is decided was queued, and pending just before. -/
  decided : ∀ (n : ℕ) (cmd : Command) (entry : ApprovalEntry) (denyReason : Option String)
    (ts : String), cmds[n]? = some cmd →
    .decided entry denyReason ts ∈ event (before step {} cmds n) cmd →
      entry ∈ (before step {} cmds n).pending ∧ .queued entry ∈ events (cmds.take n)
  approved : (run step {} cmds).approved = (events cmds).filterMap Event.approvedEntry
  denied : (run step {} cmds).denied = (events cmds).filterMap Event.deniedEntry
  history : (run step {} cmds).history = (events cmds).filterMap Event.historyEntry
  count : (run step {} cmds).pending.length + (run step {} cmds).approved.length +
    (run step {} cmds).denied.length = ((events cmds).filterMap Event.queuedEntry).length

theorem length_decided (es : List Event) : (es.filterMap Event.decidedEntry).length =
    (es.filterMap Event.approvedEntry).length + (es.filterMap Event.deniedEntry).length := by
  induction es with
  | nil => rfl
  | cons event es ih =>
    cases event with
    | queued => exact ih
    | decided entry denyReason ts =>
      cases denyReason <;>
        simp only [List.filterMap_cons, Event.decidedEntry, Event.approvedEntry, Event.deniedEntry,
          List.length_cons, ih] <;> omega

/-- What an event of the queue says about it. -/
theorem pending_of_decided {cmd : Command} {entry : ApprovalEntry} {denyReason : Option String}
    {ts : String} (h : .decided entry denyReason ts ∈ event queue cmd) : entry ∈ queue.pending := by
  rw [event] at h
  split at h
  · cases h
  · split at h
    · obtain ⟨found, hfound, heq⟩ := Option.map_eq_some_iff.mp (Option.mem_toList.mp h)
      cases heq
      exact List.mem_of_find?_eq_some hfound
    · obtain ⟨found, -, heq⟩ := Option.map_eq_some_iff.mp (Option.mem_toList.mp h)
      cases heq

theorem actionId_approvedEntry {event : Event} {entry : ApprovalEntry} {actionId : String}
    (h : event.approvedEntry = some entry) :
    entry.actionId = actionId ↔ event.approves actionId = some true := by
  cases event with
  | queued => cases h
  | decided found denyReason ts =>
    cases denyReason with
    | some reason => cases h
    | none =>
      cases h
      simp [ApprovalEntry.resolve, Event.approves]

/-- **The gate accounts for every action.** -/
theorem approvals_accounted (cmds : List Command) : GateAccounts cmds where
  wasApproved actionId := by
    rw [ApprovalGate.wasApproved, (accounted cmds).approved, List.any_eq_true]
    simp only [List.mem_filterMap, beq_iff_eq]
    constructor
    · rintro ⟨entry, ⟨event, hevent, hentry⟩, hid⟩
      exact ⟨event, hevent, (actionId_approvedEntry hentry).mp hid⟩
    · rintro ⟨event, hevent, happroves⟩
      cases hentry : event.approvedEntry with
      | some entry => exact ⟨entry, ⟨event, hevent, hentry⟩, (actionId_approvedEntry hentry).mpr happroves⟩
      | none =>
        cases event with
        | queued => cases happroves
        | decided found denyReason ts =>
          cases denyReason with
          | none => cases hentry
          | some reason =>
            rw [Event.approves] at happroves
            split at happroves <;> cases happroves
  decided n cmd entry denyReason ts hcmd hdecided := by
    have hpending := pending_of_decided hdecided
    refine ⟨hpending, ?_⟩
    have hmem : entry ∈ ((events (cmds.take n)).filterMap Event.queuedEntry : Multiset ApprovalEntry) := by
      rw [← (accounted (cmds.take n)).pending]
      exact Multiset.mem_add.mpr (.inl hpending)
    obtain ⟨event, hevent, hentry⟩ := List.mem_filterMap.mp (Multiset.mem_coe.mp hmem)
    cases event with
    | queued found =>
      cases hentry
      exact hevent
    | decided => cases hentry
  approved := (accounted cmds).approved
  denied := (accounted cmds).denied
  history := (accounted cmds).history
  count := by
    have h := accounted cmds
    have hcard := congrArg Multiset.card h.pending
    rw [Multiset.card_add, Multiset.coe_card, Multiset.coe_card, Multiset.coe_card,
      length_decided] at hcard
    rw [h.approved, h.denied]
    omega

/-- A publication that is approved, queued again and denied. -/
def requeued : List Command :=
  let publish : QueuePayload := { actionEnvelope := some (.obj [("action_id", .str "publish")]) }
  [.queue publish "1", .approve (some "publish") "2", .queue publish "3",
    .deny (some "publish") none "4"]

/-- A denial does not take back an approval that came before it. -/
theorem denied_stays_approved : ¬∀ (cmds : List Command) (actionId : String),
    wasApproved (run step {} cmds) actionId = true ↔
      lastDecision (RustStd.trim actionId) cmds = some true := by
  intro h
  have hlast : lastDecision (RustStd.trim "publish") requeued ≠ some true ∧
      wasApproved (run step {} requeued) "publish" = true := by
    decide
  exact hlast.1 ((h requeued "publish").mp hlast.2)

end Protheus.ApprovalGate
