import Protheus.AttentionRows

/-!
Do the counters of the latest record say what the queue decided?

Every `enqueue` writes its decision into the latest record, and `update_latest`
finds the counter to raise by the text of the decision.  There are two texts for
an event that was queued and a counter for one of them: an event admitted with
priority is not counted at all, so the record is right exactly as long as no
such event was admitted (`counters_accurate_iff`).
-/

namespace Protheus.AttentionQueue

open Protheus.Initiative (Row)
open Protheus.Importance (bandRank)
open Protheus.Runs

/-- `decision`, as `enqueue` writes it. -/
def Action.text : Action → String
  | .disabled => "disabled"
  | .deduped => "deduped"
  | .droppedBackpressure => "dropped_backpressure"
  | .admittedPriority => "admitted_priority"
  | .admitted => "admitted"

/-- A counter of the latest record. -/
def counter (latest : Json) (name : String) : UInt64 := ((latest.get? name).bind Json.asU64).getD 0

/-- `last_event` of the latest record. -/
def lastEvent (ts : String) (event : Json) : Json :=
  let text (key fallback : String) := Json.str ((strField event key).getD fallback)
  Json.ofFields [
    ("ts", text "ts" ts),
    ("source", text "source" "unknown_source"),
    ("source_type", text "source_type" "unknown_type"),
    ("severity", text "severity" "info"),
    ("summary", text "summary" "attention_event"),
    ("priority", (event.get? "priority").getD (Json.ofInt 20)),
    ("score", (event.get? "score").getD (Json.ofRat 0)),
    ("band", (event.get? "band").getD (.str "p4")),
    ("queue_lane", (event.get? "queue_lane").getD (.str "standard")),
    ("initiative_action", (event.get? "initiative_action").getD (.str "silent"))]

/-- The record `update_latest` starts from: what the file holds, if that is an object. -/
def latestRecord (file : Option Json) : Json :=
  let latest := file.getD (.obj [])
  if latest.isObject then latest else .obj []

/-- The counter `update_latest` raises for an action. -/
def raiseCounter (action : String) (latest : Json) : Json :=
  let raise (name : String) := latest.setField name (.num (.posInt (counter latest name + 1)))
  match action with
  | "admitted" => raise "queued_total"
  | "deduped" => raise "deduped_total"
  | "dropped_backpressure" => raise "dropped_total"
  | _ => latest

/-- `update_latest`. -/
def updateLatest (ts action : String) (queueDepth : ℕ) (event : Option Json) (expiredPruned : ℕ)
    (file : Option Json) : Json :=
  let latest := (latestRecord file).setField "ts" (.str ts)
  let latest := latest.setField "active" (.bool true)
  let latest := latest.setField "queue_depth" (Json.ofNat queueDepth)
  let latest := latest.setField "last_action" (.str action)
  let latest := latest.setField "expired_pruned" (Json.ofNat expiredPruned)
  let latest := raiseCounter action latest
  match event with
  | some event => latest.setField "last_event" (lastEvent ts event)
  | none => latest

/-- The queue and the latest record beside it. -/
structure Desk where
  queue : State
  /-- `latest.json`. -/
  latest : Option Json

/-- An `enqueue` with its event and its readings of the clock. -/
structure Call where
  clock : EnqueueClock
  /-- The `ts` of the latest record. -/
  latestTs : String
  event : Json

section Calls

variable (env : Env) (contract : AttentionContract)

/-- What is decided about a call; an event whose text nests too deep does not get that far. -/
def decisions (desk : Desk) (call : Call) : List Action :=
  if call.event.depth ≤ Json.parseDepth then
    [enqueueAction env contract call.clock desk.queue
      (normalizeEvent env contract call.clock call.event)]
  else []

/-- How many rows of the queue file have expired. -/
def expiredPruned (call : Call) (desk : Desk) : ℕ :=
  if contract.enabled && contract.pushAttentionQueue then
    (pruneExpired env call.clock.pruneMs (readJsonl env desk.queue.queue)).2
  else 0

/-- `enqueue`, with what it does to the latest record. -/
def enqueueCall (desk : Desk) (call : Call) : Desk :=
  let row := normalizeEvent env contract call.clock call.event
  let action := enqueueAction env contract call.clock desk.queue row
  if call.event.depth ≤ Json.parseDepth then
    let queue := enqueue env contract call.clock call.event desk.queue
    { queue
      latest := some (updateLatest call.latestTs action.text
        (if action.queued then queue.queue.length
          else (keptRows env contract call.clock desk.queue).length)
        (if action.queued then some row else none) (expiredPruned env contract call desk)
        (desk.latest.map (Json.reread env.floats.reread))) }
  else desk

end Calls

/-! ## One call -/

def counted : List (String × Action) :=
  [("queued_total", .admitted), ("deduped_total", .deduped), ("dropped_total", .droppedBackpressure)]

theorem counter_setField_ne {latest value : Json} {key name : String} (h : name ≠ key) :
    counter (latest.setField key value) name = counter latest name := by
  rw [counter, Json.get?_setField_ne h, counter]

theorem counter_latestRecord (file : Option Json) (name : String) :
    counter (latestRecord file) name = counter (file.getD .null) name := by
  cases file with
  | none => rfl
  | some latest => cases latest <;> rfl

theorem isObject_latestRecord (file : Option Json) : (latestRecord file).isObject = true := by
  rw [latestRecord]
  split
  · assumption
  · rfl

/-- **The counter raised** is that of the action, where there is one. -/
theorem counter_raiseCounter {latest : Json} (hobj : latest.isObject = true) (action : Action)
    {entry : String × Action} (hentry : entry ∈ counted) :
    counter (raiseCounter action.text latest) entry.1 =
      counter latest entry.1 + if action = entry.2 then 1 else 0 := by
  have hsame : ∀ name, counter (latest.setField name (.num (.posInt (counter latest name + 1)))) name =
      counter latest name + 1 := by
    intro name
    rw [counter, Json.get?_setField_same hobj]
    rfl
  simp only [counted, List.mem_cons, List.not_mem_nil, or_false] at hentry
  rcases hentry with rfl | rfl | rfl <;> cases action <;>
    simp [Action.text, raiseCounter, hsame, counter_setField_ne]

/-- Counters are read as they are printed. -/
theorem counter_reread (f : ℚ → ℚ) (file : Option Json) (name : String) :
    counter ((file.map (Json.reread f)).getD .null) name = counter (file.getD .null) name := by
  cases file with
  | none => rfl
  | some latest =>
    rw [Option.map_some, Option.getD_some, Option.getD_some, counter, counter, Json.get?_reread]
    cases latest.get? name with
    | none => rfl
    | some value => simp

/-- The other fields of the record are no counters. -/
theorem counter_updateLatest (ts : String) (action : Action) (depth : ℕ) (event : Option Json)
    (pruned : ℕ) (file : Option Json) {entry : String × Action} (hentry : entry ∈ counted) :
    counter (updateLatest ts action.text depth event pruned file) entry.1 =
      counter (file.getD .null) entry.1 + if action = entry.2 then 1 else 0 := by
  have hne : ∀ key ∈ ["ts", "active", "queue_depth", "last_action", "expired_pruned", "last_event"],
      entry.1 ≠ key := by
    simp only [counted, List.mem_cons, List.not_mem_nil, or_false] at hentry
    rcases hentry with rfl | rfl | rfl <;> decide
  simp only [List.forall_mem_cons] at hne
  obtain ⟨hts, hactive, hdepth, haction, hpruned, hevent, -⟩ := hne
  have hraised : counter (raiseCounter action.text ((((((latestRecord file).setField "ts"
      (.str ts)).setField "active" (.bool true)).setField "queue_depth" (Json.ofNat depth)).setField
      "last_action" (.str action.text)).setField "expired_pruned" (Json.ofNat pruned))) entry.1 =
      counter (file.getD .null) entry.1 + if action = entry.2 then 1 else 0 := by
    rw [counter_raiseCounter (by simp [isObject_latestRecord]) action hentry,
      counter_setField_ne hpruned, counter_setField_ne haction, counter_setField_ne hdepth,
      counter_setField_ne hactive, counter_setField_ne hts, counter_latestRecord]
  cases event with
  | none => exact hraised
  | some event => exact (counter_setField_ne hevent).trans hraised

section Runs

variable {env : Env} {contract : AttentionContract}

/-- The counters stand at the number of their actions. -/
def Tallied (desk : Desk) (actions : List Action) : Prop :=
  ∀ entry ∈ counted, counter (desk.latest.getD .null) entry.1 = UInt64.ofNat (actions.count entry.2)

theorem tallied_enqueueCall {desk : Desk} {actions : List Action} (h : Tallied desk actions)
    (call : Call) :
    Tallied (enqueueCall env contract desk call) (actions ++ decisions env contract desk call) := by
  intro entry hentry
  rw [enqueueCall, decisions]
  simp only
  split
  · rw [Option.getD_some, counter_updateLatest _ _ _ _ _ _ hentry, counter_reread, h entry hentry,
      List.count_append,
      List.count_singleton, UInt64.ofNat_add]
    congr 1
    by_cases hsame : enqueueAction env contract call.clock desk.queue
        (normalizeEvent env contract call.clock call.event) = entry.2 <;> simp [hsame]
  · rw [List.append_nil]
    exact h entry hentry

theorem mem_decisions {desk : Desk} {call : Call} {action : Action} :
    action ∈ decisions env contract desk call ↔ call.event.depth ≤ Json.parseDepth ∧
      action = enqueueAction env contract call.clock desk.queue
        (normalizeEvent env contract call.clock call.event) := by
  rw [decisions]
  split <;> simp_all

/-- What the run of calls from `desk` decided. -/
abbrev decided (env : Env) (contract : AttentionContract) (desk : Desk) (calls : List Call) :
    List Action :=
  logs (enqueueCall env contract) (decisions env contract) desk calls

variable (env contract) in
theorem length_decided : ∀ (calls : List Call) (desk : Desk),
    (∀ call ∈ calls, call.event.depth ≤ Json.parseDepth) →
      (decided env contract desk calls).length = calls.length
  | [], _, _ => rfl
  | call :: calls, desk, h => by
    have htail := length_decided calls (enqueueCall env contract desk call)
      fun call hcall => h call (List.mem_cons_of_mem _ hcall)
    have hhead : (decisions env contract desk call).length = 1 := by
      rw [decisions, if_pos (h call List.mem_cons_self)]
      rfl
    rw [decided] at htail ⊢
    rw [logs, List.length_append, hhead, htail, List.length_cons, Nat.add_comm]

theorem tallied_run {desk : Desk} (h : Tallied desk []) (calls : List Call) :
    Tallied (run (enqueueCall env contract) desk calls) (decided env contract desk calls) :=
  @logs_invariant _ _ (enqueueCall env contract) _ (decisions env contract) Tallied
    (fun _ _ call h => tallied_enqueueCall h call) calls desk [] h

end Runs

/-! ## The accounts of a run -/

/-- The record counts the rows written, the duplicates and the events held off among the
decisions, and so all `calls` of them. -/
structure Accurate (desk : Desk) (actions : List Action) (calls : ℕ) : Prop where
  queued : (counter (desk.latest.getD .null) "queued_total").toNat = actions.countP Action.queued
  deduped : (counter (desk.latest.getD .null) "deduped_total").toNat = actions.count .deduped
  dropped : (counter (desk.latest.getD .null) "dropped_total").toNat =
    actions.count .droppedBackpressure
  sum : (counter (desk.latest.getD .null) "queued_total").toNat +
    (counter (desk.latest.getD .null) "deduped_total").toNat +
    (counter (desk.latest.getD .null) "dropped_total").toNat = calls

theorem countP_queued (actions : List Action) :
    actions.countP Action.queued = actions.count .admitted + actions.count .admittedPriority := by
  induction actions with
  | nil => rfl
  | cons action actions ih =>
    rw [List.countP_cons, List.count_cons, List.count_cons, ih]
    cases action <;> simp [Action.queued] <;> omega

theorem length_eq_counts (actions : List Action) :
    actions.length = actions.countP Action.queued + actions.count .deduped +
      actions.count .droppedBackpressure + actions.count .disabled := by
  induction actions with
  | nil => rfl
  | cons action actions ih =>
    rw [List.length_cons, List.countP_cons, List.count_cons, List.count_cons, List.count_cons, ih]
    cases action <;> simp [Action.queued] <;> omega

theorem Tallied.toNat_eq {desk : Desk} {actions : List Action} (h : Tallied desk actions)
    (hlen : actions.length < 2 ^ 64) {entry : String × Action} (hentry : entry ∈ counted) :
    (counter (desk.latest.getD .null) entry.1).toNat = actions.count entry.2 := by
  rw [h entry hentry, UInt64.toNat_ofNat', Nat.mod_eq_of_lt (List.count_le_length.trans_lt hlen)]

/-- Where nothing was switched off, a tallied record is accurate exactly when nothing
was admitted with priority. -/
theorem Tallied.accurate_iff {desk : Desk} {actions : List Action} (h : Tallied desk actions)
    (hlen : actions.length < 2 ^ 64) (hon : Action.disabled ∉ actions) :
    Accurate desk actions actions.length ↔ Action.admittedPriority ∉ actions := by
  have hcounted := fun entry (hentry : entry ∈ counted) => h.toNat_eq hlen hentry
  simp only [counted, List.forall_mem_cons] at hcounted
  obtain ⟨hqueued, hdeduped, hdropped, -⟩ := hcounted
  have hcount := countP_queued actions
  have hlength := length_eq_counts actions
  have hoff : actions.count .disabled = 0 := List.count_eq_zero.mpr hon
  rw [← List.count_eq_zero]
  constructor
  · intro haccurate
    have hsame := haccurate.queued
    omega
  · intro hnone
    refine ⟨?_, hdeduped, hdropped, ?_⟩ <;> omega

section Ordinary

variable (env : Env) (contract : AttentionContract)

/-- Whether the row's band is `p2` or above. -/
def highImportance (row : Json) : Prop := bandRank "p2" ≤ bandRank ((strField row "band").getD "p4")

instance (row : Json) : Decidable (highImportance row) := inferInstanceAs (Decidable (_ ≤ _))

/-- A call about an event below band `p2`, or one that is a duplicate, or one of the
background lane that meets a full queue. -/
def Ordinary (desk : Desk) (call : Call) : Prop :=
  let row := normalizeEvent env contract call.clock call.event
  let activeRows := keptRows env contract call.clock desk.queue
  highImportance row →
    dedupeHit env contract call.clock.dedupeMs activeRows row = true ∨
      contract.maxQueueDepth ≤ activeRows.length ∧
        RustStd.toAsciiLowercase ((strField row "queue_lane").getD "standard") = "background"

instance (desk : Desk) (call : Call) : Decidable (Ordinary env contract desk call) :=
  inferInstanceAs (Decidable (_ → _ ∨ _ ∧ _))

variable {env contract} (hon : (contract.enabled && contract.pushAttentionQueue) = true)
include hon

theorem enqueueAction_ne_disabled (clock : EnqueueClock) (s : State) (row : Json) :
    enqueueAction env contract clock s row ≠ .disabled := by
  obtain ⟨henabled, hpush⟩ := Bool.and_eq_true_iff.mp hon
  rw [enqueueAction, henabled, hpush]
  simp only [Bool.not_true, Bool.false_or, Bool.false_eq_true, if_false]
  split_ifs <;> simp

theorem enqueueAction_eq_admittedPriority_iff (desk : Desk) (call : Call) :
    enqueueAction env contract call.clock desk.queue
        (normalizeEvent env contract call.clock call.event) = .admittedPriority ↔
      ¬ Ordinary env contract desk call := by
  obtain ⟨henabled, hpush⟩ := Bool.and_eq_true_iff.mp hon
  rw [enqueueAction, henabled, hpush, Ordinary]
  generalize normalizeEvent env contract call.clock call.event = row
  generalize keptRows env contract call.clock desk.queue = activeRows
  have hhigh : highImportance row ↔ bandRank "p2" ≤ bandRank ((strField row "band").getD "p4") :=
    Iff.rfl
  simp only [Bool.not_true, Bool.false_or, Bool.false_eq_true, if_false, ← hhigh]
  by_cases hdup : dedupeHit env contract call.clock.dedupeMs activeRows row = true
  · simp [hdup]
  · by_cases himp : highImportance row
    · by_cases hcap : contract.maxQueueDepth ≤ activeRows.length <;>
        by_cases hlane : RustStd.toAsciiLowercase ((strField row "queue_lane").getD "standard") =
          "background" <;> simp [hdup, himp, hcap, hlane]
    · simp only [hdup, himp, Bool.false_eq_true, if_false, false_implies, not_true, iff_false]
      split_ifs <;> simp

/-- **Attention queue accounting.**  In a run of calls that all reach a decision on an
enabled queue, fewer than 2^64, from a record without counts, the counters are accurate
after every call exactly when no call admits an event with priority. -/
theorem counters_accurate_iff {desk : Desk} {calls : List Call} (hblank : Tallied desk [])
    (hreach : ∀ call ∈ calls, call.event.depth ≤ Json.parseDepth) (hlen : calls.length < 2 ^ 64) :
    (∀ n, Accurate (before (enqueueCall env contract) desk calls n)
        (decided env contract desk (calls.take n)) (calls.take n).length) ↔
      Meets (enqueueCall env contract) (Ordinary env contract) desk calls := by
  have hlength := fun n => length_decided env contract (calls.take n) desk
    fun call hcall => hreach call (List.take_subset n calls hcall)
  have hon' : ∀ n, Action.disabled ∉ decided env contract desk (calls.take n) := by
    intro n hmem
    obtain ⟨k, call, -, haction⟩ := mem_logs.mp hmem
    exact enqueueAction_ne_disabled hon _ _ _ (mem_decisions.mp haction).2.symm
  have hstep : ∀ n, Accurate (before (enqueueCall env contract) desk calls n)
      (decided env contract desk (calls.take n)) (calls.take n).length ↔
        Action.admittedPriority ∉ decided env contract desk (calls.take n) := by
    intro n
    have hshort : (calls.take n).length < 2 ^ 64 :=
      (List.length_take_le' n calls).trans_lt hlen
    rw [← hlength n] at hshort ⊢
    exact (tallied_run hblank (calls.take n)).accurate_iff hshort (hon' n)
  rw [Meets.iff_forall]
  simp only [hstep]
  constructor
  · intro hnone k call hcall
    by_contra hordinary
    have haction := (enqueueAction_eq_admittedPriority_iff hon _ call).mpr hordinary
    refine hnone calls.length (mem_logs.mpr ⟨k, call, ?_, ?_⟩)
    · rwa [List.take_length]
    · rw [List.take_length]
      exact mem_decisions.mpr ⟨hreach call (List.mem_of_getElem? hcall), haction.symm⟩
  · intro hordinary n hmem
    obtain ⟨k, call, hcall, haction⟩ := mem_logs.mp hmem
    have hlt : k < n := by
      by_contra hle
      rw [List.getElem?_take, if_neg hle] at hcall
      cases hcall
    rw [List.getElem?_take, if_pos hlt] at hcall
    rw [before_take _ hlt.le] at haction
    exact (enqueueAction_eq_admittedPriority_iff hon _ call).mp (mem_decisions.mp haction).2.symm
      (hordinary k call hcall)

end Ordinary

/-! ## Two calls -/

def emptyDesk : Desk := ⟨State.init, some (.obj [])⟩

/-- Everything is read at midnight. -/
def midnightCall (event : Json) : Call := ⟨midnight, "2026-01-01T00:00:00.000Z", event⟩

/-- The same event twice: the second is a duplicate of the first. -/
def repeatedCalls : List Call := [midnightCall bareEvent, midnightCall bareEvent]

theorem tallied_emptyDesk : Tallied emptyDesk [] := by
  intro entry _
  rfl

theorem repeatedCalls_accurate :
    (∀ n, Accurate (before (enqueueCall newYearEnv defaultContract) emptyDesk repeatedCalls n)
        (decided newYearEnv defaultContract emptyDesk (repeatedCalls.take n))
        (repeatedCalls.take n).length) ↔
      Meets (enqueueCall newYearEnv defaultContract) (Ordinary newYearEnv defaultContract) emptyDesk
        repeatedCalls :=
  counters_accurate_iff rfl tallied_emptyDesk (by decide) (by decide)

/-- A critical event is written to the queue and to no counter. -/
theorem criticalCall_uncounted :
    ¬ Accurate (run (enqueueCall newYearEnv defaultContract) emptyDesk [midnightCall criticalEvent])
      (decided newYearEnv defaultContract emptyDesk [midnightCall criticalEvent]) 1 := by
  intro haccurate
  have hqueued := haccurate.queued
  revert hqueued
  decide +kernel

end Protheus.AttentionQueue
