import Protheus.AttentionRows
import Protheus.Lib.Cursor

/-!
Is every row below the consumer's cursor one the consumer was given?

The cursor is a position in a queue that `enqueue` re-sorts and that expiry
shortens, and only `compact` moves it along.  So an admitted event that layer 2
puts in front of the cursor, or a row below the cursor that expires, slides rows
the consumer never saw under the cursor; and so does an acknowledgement of a row
whose predecessors were not all handed out, or a stored row that layer 2 puts in
front of one it stood behind, its score having been read as another float than was
printed.  In every run without these, no row is skipped (`none_skipped`), however
floats are rounded and read.
-/

namespace Protheus.AttentionQueue

open Protheus.Initiative hiding eventScore
open Protheus.Cursor
open Protheus.Rank
open Protheus.Runs

/-- The consumer's position; a consumer that is not in the cursor file stands at the start. -/
def State.position (s : State) : ℕ := s.offset.getD 0

/-- The rows below the cursor. -/
def State.passed (s : State) : List (Row ℕ) := s.queue.take s.position

section Guard

variable (env : Env) (contract : AttentionContract)

/-- No row below the cursor has expired. -/
def PassedLive (nowMs : ℤ) (s : State) : Prop :=
  ∀ row ∈ s.passed, expired env nowMs row.event = false

/-- A load finds the rows below the cursor where they stood: none has expired, and layer 2
scores the live rows in the order they stand in. -/
def Undisturbed (nowMs : ℤ) (s : State) : Prop :=
  PassedLive env nowMs s ∧ Ranked (nextScore env) (live env nowMs s)

/-- What a step must not do: load a queue that is disturbed, admit an event that layer 2
scores above a row below the cursor (or that is nested to the limit), acknowledge through a
row when not every row up to it was handed out. -/
def Guard (s : State) : Command → Prop
  | .enqueue clock event => Admits env contract s clock event →
      event.depth < rowDepth ∧ Undisturbed env clock.pruneMs s ∧
        ∀ row ∈ (live env clock.pruneMs s).take s.position,
          layer2Score env (normalizeEvent env contract clock event) ≤ nextScore env row
  | .ack nowMs throughIndex _ => Undisturbed env nowMs s ∧
      ∀ i ∈ throughIndex, ∀ row ∈ (loadActiveQueue env contract nowMs s).1.take (i + 1),
        row.tag ∈ s.returned
  | .next nowMs _ | .drain nowMs _ | .compact nowMs _ _ | .load nowMs => Undisturbed env nowMs s

instance (nowMs : ℤ) (s : State) : Decidable (PassedLive env nowMs s) :=
  inferInstanceAs (Decidable (∀ row ∈ s.passed, _))

instance (nowMs : ℤ) (s : State) : Decidable (Undisturbed env nowMs s) :=
  inferInstanceAs (Decidable (_ ∧ List.Pairwise (fun a b => nextScore env b ≤ nextScore env a) _))

instance (s : State) : ∀ command, Decidable (Guard env contract s command)
  | .enqueue _ _ => inferInstanceAs (Decidable (_ → _ ∧ _ ∧ ∀ row ∈ List.take _ _, _))
  | .ack _ _ _ => inferInstanceAs (Decidable (_ ∧ ∀ i ∈ _, ∀ row ∈ _, _))
  | .next _ _ | .drain _ _ | .compact _ _ _ | .load _ => inferInstanceAs (Decidable (Undisturbed _ _ _))

end Guard

/-- The rows are good and those below the cursor were handed out. -/
structure Delivered (s : State) : Prop where
  good : Good s
  sound : Sound s.tags s.position s.returned

theorem Delivered.init : Delivered State.init := ⟨Good.init, Sound.zero _ _⟩

/-- What `load_active_queue` leaves and returns: nothing when the queue is switched off,
else the rows of the queue file. -/
structure Loaded (s s' : State) (active : List (Row ℕ)) : Prop where
  delivered : Delivered s'
  goodActive : Good { s' with queue := active }
  offset_eq : s'.offset = s.offset
  returned_eq : s'.returned = s.returned
  tags_eq : active = [] ∨ active.map Row.tag = s'.tags

section Steps

variable {env : Env} {contract : AttentionContract} {s : State}

/-- Expiry above the cursor leaves the rows below it alone. -/
theorem Delivered.sound_live (h : Delivered s) {nowMs : ℤ} (hlive : PassedLive env nowMs s) :
    Sound ((live env nowMs s).map Row.tag) s.position s.returned := by
  have hle : s.position ≤ s.queue.length := by
    simpa [State.tags] using h.sound.offset_le
  refine h.sound.of_take_eq ?_
  rw [map_tag_live, State.tags, ← List.map_take, ← List.map_take,
    take_filter_of_forall (fun row hrow => by simp [hlive row hrow]) hle]

variable (contract) in
theorem loaded (h : Delivered s) {nowMs : ℤ} (hload : Undisturbed env nowMs s) :
    Loaded s (loadActiveQueue env contract nowMs s).2 (loadActiveQueue env contract nowMs s).1 := by
  cases hon : contract.enabled && contract.pushAttentionQueue with
  | false =>
    have hnone : loadActiveQueue env contract nowMs s = ([], s) := by simp [loadActiveQueue, hon]
    rw [hnone]
    exact ⟨h, h.good.sublist (List.nil_sublist _), rfl, rfl, .inl rfl⟩
  | true =>
    obtain ⟨hlive, hranked⟩ := hload
    have hgood : Good { s with queue := (live env nowMs s).map (rerated env) } :=
      (h.good.live nowMs).map (carries_rerated env)
    have htags := map_tag_rerated env (live env nowMs s)
    rw [loadActiveQueue_eq hon h.good hranked]
    split
    · refine ⟨⟨hgood, ?_⟩, hgood, rfl, rfl, .inr rfl⟩
      simp only [State.tags, htags]
      exact h.sound_live hlive
    · have hall : (live env nowMs s).map Row.tag = s.tags := by
        refine (live_sublist env nowMs s).eq_of_length_le ?_
        rw [State.tags, List.length_map, List.length_map]
        omega
      refine ⟨h, hgood, rfl, rfl, .inr ?_⟩
      rw [htags, hall]

theorem Loaded.position_eq {s' : State} {active : List (Row ℕ)} (h : Loaded s s' active) :
    s'.position = s.position := by
  rw [State.position, h.offset_eq, State.position]

/-- The cursor of a queue that was loaded stands among the active rows. -/
theorem Loaded.position_le {s' : State} {active : List (Row ℕ)} (h : Loaded s s' active)
    (hne : active ≠ []) : s'.position ≤ active.length := by
  have hlen := h.delivered.sound.offset_le
  rwa [← h.tags_eq.resolve_left hne, List.length_map] at hlen

/-- **An enqueue** that obeys the guard puts its row behind the cursor. -/
theorem delivered_enqueue (h : Delivered s) {clock : EnqueueClock} {event : Json}
    (hguard : Guard env contract s (.enqueue clock event)) :
    Delivered (enqueue env contract clock event s) := by
  by_cases hadmits : Admits env contract s clock event
  · obtain ⟨hdepth, ⟨hlive, hranked⟩, hscore⟩ := hguard hadmits
    refine ⟨h.good.enqueue hdepth, ?_⟩
    rw [enqueue_eq h.good hadmits hdepth]
    refine (h.sound_live hlive).of_take_eq ?_
    have hle := (h.sound_live hlive).offset_le
    rw [List.length_map] at hle
    -- the new row ranks behind the rows below the cursor
    have htake := take_rank_append (⟨normalizeEvent env contract clock event, s.admitted⟩ : Row ℕ)
      s.position hranked hscore
    rw [min_eq_left hle] at htake
    rw [State.tags, map_tag_rerated, ← List.map_take, htake, List.map_take]
  · rwa [enqueue_of_not_admits hadmits]

/-- **A hand-out** moves the cursor past what it hands out, if at all. -/
theorem delivered_handOut {s' : State} {active : List (Row ℕ)} (h : Loaded s s' active)
    (autoAck : Bool) (limit : Option ℕ) :
    Delivered (handOut contract autoAck limit active s').2 := by
  have hstay : ∀ given, Delivered { s' with returned := s'.returned ++ given } := fun given =>
    ⟨h.delivered.good.of_queue_eq rfl rfl, h.delivered.sound.mono (List.subset_append_left _ _)⟩
  rw [handOut]
  generalize hlimit : max 1 (min contract.maxBatchSize (limit.getD 1)) = n
  have hn : 1 ≤ n := by omega
  simp only
  split
  case isTrue hacked =>
    have hne : active ≠ [] := by
      rintro rfl
      simp at hacked
    have hle : s'.offset.getD 0 ≤ active.length := h.position_le hne
    have htags := h.tags_eq.resolve_left hne
    rw [min_eq_left hle] at hacked ⊢
    have hstop : s'.offset.getD 0 < min active.length (s'.offset.getD 0 + n) := by
      by_contra hnot
      have hzero : min active.length (s'.offset.getD 0 + n) - s'.offset.getD 0 = 0 := by omega
      simp [hzero] at hacked
    refine ⟨h.delivered.good.of_queue_eq rfl rfl, ?_⟩
    have hadvance := h.delivered.sound.advance hstop.le (by rw [← htags, List.length_map]; exact min_le_left _ _)
    have hevents : ((active.drop (s'.offset.getD 0)).take
        (min active.length (s'.offset.getD 0 + n) - s'.offset.getD 0)).map Row.tag =
        (s'.tags.drop (s'.offset.getD 0)).take
          (min active.length (s'.offset.getD 0 + n) - s'.offset.getD 0) := by
      rw [List.map_take, List.map_drop, htags]
    have hposition : min active.length (s'.offset.getD 0 + n) - 1 + 1 =
        min active.length (s'.offset.getD 0 + n) := by omega
    rw [hevents, hposition]
    exact hadvance
  case isFalse => exact hstay _

theorem delivered_acknowledge {s' : State} {active : List (Row ℕ)} (h : Loaded s s' active)
    {i : ℕ} (cursorToken : String)
    (hgiven : active ≠ [] → ∀ t ∈ s'.tags.take (i + 1), t ∈ s'.returned) :
    Delivered (acknowledge env contract i cursorToken active s') := by
  rw [acknowledge]
  split
  · exact h.delivered
  case _ row hrow =>
    have hlt := (List.getElem?_eq_some_iff.mp hrow).1
    have hne : active ≠ [] := List.ne_nil_of_length_pos (by omega)
    split
    · exact h.delivered
    split
    · exact h.delivered
    have hlen : s'.tags.length = active.length := by
      rw [← h.tags_eq.resolve_left hne, List.length_map]
    have hle : i + 1 ≤ s'.tags.length := by omega
    exact ⟨h.delivered.good.of_queue_eq rfl rfl, Sound.move hle (hgiven hne)⟩

/-- **Compaction** cuts below the cursor and takes it along. -/
theorem delivered_cutAcked {s' : State} {active : List (Row ℕ)} (h : Loaded s s' active)
    (retain minAcked : ℕ) : Delivered (cutAcked retain minAcked active s') := by
  rw [cutAcked]
  cases hoffset : s'.offset with
  | none => simpa [compactCount] using h.delivered
  | some offset =>
    simp only
    split
    case isTrue hpos =>
      have hne : active ≠ [] := by
        rintro rfl
        simp [compactCount] at hpos
      have hposition : s'.position = offset := by rw [State.position, hoffset, Option.getD_some]
      have hle : offset ≤ active.length := hposition ▸ h.position_le hne
      generalize hcount : compactCount retain minAcked
        (min active.length (min offset active.length)) = count at hpos
      have hcut : count ≤ offset := by
        rw [← hcount, compactCount]
        split <;> omega
      rw [min_eq_left (hcut.trans hle), Option.map_some, min_eq_left hle]
      refine ⟨(h.goodActive.sublist (List.drop_sublist count active)).of_queue_eq rfl rfl, ?_⟩
      have hdrop := h.delivered.sound.drop count
      rw [hposition, ← h.tags_eq.resolve_left hne, ← List.map_drop] at hdrop
      have hlen : min (offset - count) (active.drop count).length = offset - count := by
        rw [List.length_drop]
        omega
      rw [hlen]
      exact hdrop
    case isFalse => exact h.delivered

/-- **The step.** -/
theorem delivered_step (h : Delivered s) {command : Command} (hguard : Guard env contract s command) :
    Delivered (step env contract s command) := by
  cases command with
  | enqueue clock event => exact delivered_enqueue h hguard
  | next nowMs limit => exact delivered_handOut (loaded contract h hguard) false limit
  | drain nowMs limit => exact delivered_handOut (loaded contract h hguard) true limit
  | ack nowMs throughIndex cursorToken =>
    obtain ⟨hlive, hgiven⟩ := hguard
    cases throughIndex with
    | none => exact h
    | some i =>
      rw [step, ack]
      have hload := loaded contract h hlive
      simp only
      split
      · exact h
      · refine delivered_acknowledge hload _ fun hne t ht => ?_
        rw [← hload.tags_eq.resolve_left hne, ← List.map_take] at ht
        obtain ⟨row, hrow, rfl⟩ := List.mem_map.mp ht
        rw [hload.returned_eq]
        exact hgiven i rfl row hrow
  | compact nowMs retain minAcked => exact delivered_cutAcked (loaded contract h hguard) _ _
  | load nowMs => exact (loaded contract h hguard).delivered

end Steps

section Runs

variable (env : Env) (contract : AttentionContract)

/-- The state before the `n`-th command. -/
abbrev commanded (commands : List Command) (n : ℕ) : State :=
  before (step env contract) State.init commands n

variable {env contract}

theorem delivered_commanded {commands : List Command}
    (hmeets : Meets (step env contract) (Guard env contract) State.init commands) (n : ℕ) :
    Delivered (commanded env contract commands n) :=
  hmeets.before (fun s _ (h : Delivered s) hguard => delivered_step h hguard) Delivered.init n

/-- **No undelivered event is skipped.**  In a run whose steps all obey the guard, in every
state, whatever stands below the consumer's position was returned to it, in the queue file
and among the active rows any command would find there, as long as they are undisturbed. -/
theorem none_skipped {commands : List Command}
    (hmeets : Meets (step env contract) (Guard env contract) State.init commands) (n : ℕ) :
    (∀ row ∈ (commanded env contract commands n).passed,
      row.tag ∈ (commanded env contract commands n).returned) ∧
    ∀ nowMs, Undisturbed env nowMs (commanded env contract commands n) →
      ∀ row ∈ (loadActiveQueue env contract nowMs (commanded env contract commands n)).1.take
          (commanded env contract commands n).position,
        row.tag ∈ (commanded env contract commands n).returned := by
  have h := delivered_commanded hmeets n
  generalize commanded env contract commands n = s at h
  refine ⟨fun row hrow => h.sound.mem_given _ ?_, fun nowMs hlive row hrow => ?_⟩
  · rw [State.tags, ← List.map_take]
    exact List.mem_map_of_mem hrow
  · have hload := loaded contract h hlive
    rcases hload.tags_eq with hnil | htags
    · simp [hnil] at hrow
    · rw [← hload.returned_eq]
      apply hload.delivered.sound.mem_given
      rw [hload.position_eq, ← htags, ← List.map_take]
      exact List.mem_map_of_mem hrow

end Runs

/-- Both events are queued, the first in line is handed out and cut. -/
def orderlyRun : List Command := [
  .enqueue midnight criticalEvent,
  .enqueue midnight bareEvent,
  .drain 1767225600000 none,
  .compact 1767225600000 (some 0) none]

theorem orderlyRun_none_skipped :
    (∀ row ∈ (commanded newYearEnv defaultContract orderlyRun 4).passed,
      row.tag ∈ (commanded newYearEnv defaultContract orderlyRun 4).returned) ∧
    ∀ nowMs, Undisturbed newYearEnv nowMs (commanded newYearEnv defaultContract orderlyRun 4) →
      ∀ row ∈ (loadActiveQueue newYearEnv defaultContract nowMs
          (commanded newYearEnv defaultContract orderlyRun 4)).1.take
          (commanded newYearEnv defaultContract orderlyRun 4).position,
        row.tag ∈ (commanded newYearEnv defaultContract orderlyRun 4).returned :=
  none_skipped (by decide +kernel) 4

/-- An event is queued and handed out, and a graver one is queued after it. -/
def overtakenRun : List Command := [
  .enqueue midnight bareEvent,
  .drain 1767225600000 none,
  .enqueue midnight criticalEvent]

/-- An event that is two days younger than the clock's reading. -/
def laterEvent : Json :=
  Json.ofFields [("summary", .str "later"), ("ts", .str "2026-01-03T00:00:00.000Z")]

/-- Two events are queued, the first in line is handed out and expires. -/
def expiredRun : List Command := [
  .enqueue midnight criticalEvent,
  .enqueue midnight laterEvent,
  .drain 1767225600000 none,
  .load 1767398400000]

/-- In both runs a row that was never handed out comes to stand below the cursor. -/
theorem overtakenRun_skips :
    (∃ row ∈ (commanded newYearEnv defaultContract overtakenRun 3).passed,
      row.tag ∉ (commanded newYearEnv defaultContract overtakenRun 3).returned) ∧
    ∃ row ∈ (commanded newYearEnv defaultContract expiredRun 4).passed,
      row.tag ∉ (commanded newYearEnv defaultContract expiredRun 4).returned := by
  constructor <;> decide +kernel

end Protheus.AttentionQueue
