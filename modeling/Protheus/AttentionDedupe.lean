import Protheus.AttentionRows

/-!
Does the queue ever hold one event twice within the dedupe window?

`dedupe_hit` compares a candidate with the active rows of its key by the times
they carry.  A candidate whose `ts` does not parse is dated by the clock, a row
whose `ts` does not parse by the first of January 1970: so the second of two such
events is never a duplicate of the first.  A row is dated here by its event time,
or, where that does not parse, by the time it was enqueued at, which no row
carries and the `Book` keeps.

As long as no event meets a row of its key without a readable time that was
enqueued within the window, no two active rows of a key lie within the window
(`dedupe_apart`); and where, besides, events of one key that are enqueued within
the window carry times within it, no two of its rows were enqueued within it.
-/

namespace Protheus.AttentionQueue

open Protheus.Initiative (Row)
open Protheus.Runs

/-- The queue, and for every admitted event the reading it was enqueued at. -/
structure Book where
  state : State
  times : List ℤ

/-- Before the first enqueue. -/
def Book.init : Book := ⟨State.init, []⟩

/-- The time the event of a row was enqueued at. -/
def enqueuedAt (times : List ℤ) (row : Row ℕ) : ℤ := times.getD row.tag 0

def eventTime (env : Env) (event : Json) : Option ℤ := (strField event "ts").bind env.parseTsMs

/-- The time of a row: its event's, else the one it was enqueued at. -/
def rowTime (env : Env) (times : List ℤ) (row : Row ℕ) : ℤ :=
  (eventTime env row.event).getD (enqueuedAt times row)

/-- The key of two rows, where it is one and not blank. -/
def SameKey (a b : Json) : Prop :=
  eventAttentionKey a = eventAttentionKey b ∧ (RustStd.trim (eventAttentionKey b)).isEmpty = false

/-- No two rows of a key lie within the window of each other. -/
def Apart (time : Row ℕ → ℤ) (window : ℤ) (rows : List (Row ℕ)) : Prop :=
  rows.Pairwise fun row row' => SameKey row.event row'.event → window < |time row - time row'|

section Calls

variable (env : Env) (contract : AttentionContract)

/-- `dedupe_window_hours` in milliseconds. -/
def windowMs : ℤ := contract.dedupeWindowHours * hourMs

/-- `enqueue`, with the reading noted for an event it admits. -/
def enqueueNoted (book : Book) (input : EnqueueClock × Json) : Book where
  state := enqueue env contract input.1 input.2 book.state
  times := if Admits env contract book.state input.1 input.2 then book.times ++ [input.1.dedupeMs]
    else book.times

/-- The time of the event of an enqueue: its own, else the clock's. -/
def candidateTime (input : EnqueueClock × Json) : ℤ :=
  (eventTime env (normalizeEvent env contract input.1 input.2)).getD input.1.dedupeMs

/-- Every active row of the event's key carries a time that parses, or was enqueued more
than the window away from the event's time. -/
def Dated (book : Book) (input : EnqueueClock × Json) : Prop :=
  ∀ row ∈ keptRows env contract input.1 book.state,
    SameKey row.event (normalizeEvent env contract input.1 input.2) → eventTime env row.event = none →
      windowMs contract < |enqueuedAt book.times row - candidateTime env contract input|

/-- An event that is enqueued within the window of an active row of its key has its time
within the window of that row's. -/
def Prompt (book : Book) (input : EnqueueClock × Json) : Prop :=
  ∀ row ∈ keptRows env contract input.1 book.state,
    SameKey row.event (normalizeEvent env contract input.1 input.2) →
      |enqueuedAt book.times row - input.1.dedupeMs| ≤ windowMs contract →
        |rowTime env book.times row - candidateTime env contract input| ≤ windowMs contract

end Calls

/-! ## What the sort leaves in a row -/

theorem Carries.eventAttentionKey_eq {row' row : Row ℕ} (h : Carries row' row) :
    eventAttentionKey row'.event = eventAttentionKey row.event := by
  rw [eventAttentionKey, h.text_eq _ (by decide), eventAttentionKey]

theorem Carries.eventTime_eq {row' row : Row ℕ} (h : Carries row' row) (env : Env) :
    eventTime env row'.event = eventTime env row.event := by
  rw [eventTime, h.text_eq _ (by decide), eventTime]

theorem sameKey_comm {a b : Json} : SameKey a b ↔ SameKey b a := by
  rw [SameKey, SameKey]
  constructor <;> rintro ⟨heq, hblank⟩ <;> exact ⟨heq.symm, heq ▸ hblank⟩

/-! ## Ways of dating a row -/

/-- A dating of rows by their tags and the times they carry, which later enqueues do not move. -/
structure Dating (time : List ℤ → Row ℕ → ℤ) : Prop where
  carries : ∀ {times row' row}, Carries row' row → time times row' = time times row
  append : ∀ {times row} (t : ℤ), row.tag < times.length → time (times ++ [t]) row = time times row

theorem dating_enqueuedAt : Dating enqueuedAt where
  carries := by
    intro times row' row h
    rw [enqueuedAt, h.tag_eq, enqueuedAt]
  append := by
    intro times row t h
    rw [enqueuedAt, List.getD_append _ _ _ _ h, enqueuedAt]

theorem dating_rowTime (env : Env) : Dating (rowTime env) where
  carries := by
    intro times row' row h
    rw [rowTime, h.eventTime_eq, dating_enqueuedAt.carries h, rowTime]
  append := by
    intro times row t h
    rw [rowTime, dating_enqueuedAt.append t h, rowTime]

theorem apart_map {time : List ℤ → Row ℕ → ℤ} (hdating : Dating time) {times : List ℤ} {window : ℤ}
    {rows : List (Row ℕ)} {f : Row ℕ → Row ℕ} (hf : ∀ row, Carries (f row) row)
    (h : Apart (time times) window rows) : Apart (time times) window (rows.map f) := by
  refine List.pairwise_map.mpr (h.imp fun {row row'} hapart hkey => ?_)
  rw [hdating.carries (hf row), hdating.carries (hf row')]
  apply hapart
  rwa [SameKey, (hf row).eventAttentionKey_eq, (hf row').eventAttentionKey_eq] at hkey

theorem apart_sort {time : List ℤ → Row ℕ → ℤ} (hdating : Dating time) {times : List ℤ} {window : ℤ}
    {rows : List (Row ℕ)} (env : Env) (h : Apart (time times) window rows) :
    Apart (time times) window (sortActiveRowsWithAuthority env rows) := by
  obtain ⟨f, hf, hperm⟩ := sort_perm env rows
  refine (hperm.pairwise_iff fun {row row'} hapart hkey => ?_).mpr (apart_map hdating hf h)
  rw [abs_sub_comm]
  exact hapart (sameKey_comm.mp hkey)

/-- What a reader of the queue file finds is apart where the file is. -/
theorem apart_read {time : List ℤ → Row ℕ → ℤ} (hdating : Dating time) {times : List ℤ} {window : ℤ}
    {queue : List (Row ℕ)} (env : Env) (h : Apart (time times) window queue) (nowMs : ℤ) :
    Apart (time times) window (pruneExpired env nowMs (readJsonl env queue)).1 := by
  rw [pruneExpired_fst]
  exact apart_map hdating (carries_rereadRow env.floats)
    (List.Pairwise.sublist (List.filter_sublist.trans List.filter_sublist) h)

/-! ## The book -/

section Steps

variable {env : Env} {contract : AttentionContract}

/-- The rows are tagged by the places of their times. -/
structure Noted (book : Book) : Prop where
  length_eq : book.times.length = book.state.admitted
  tag_lt : ∀ row ∈ book.state.queue, row.tag < book.times.length

theorem Noted.init : Noted Book.init := ⟨rfl, by simp [Book.init, State.init]⟩

/-- The rows an enqueue finds, by the readings of the file. -/
theorem keptRows_cases (clock : EnqueueClock) (s : State) : keptRows env contract clock s = [] ∨
    keptRows env contract clock s = (pruneExpired env clock.pruneMs (readJsonl env s.queue)).1 := by
  rw [keptRows]
  split
  · exact .inr rfl
  · exact .inl rfl

theorem Noted.tag_lt_kept {book : Book} (h : Noted book) (clock : EnqueueClock) :
    ∀ row ∈ keptRows env contract clock book.state, row.tag < book.times.length := by
  intro row hrow
  rcases keptRows_cases clock book.state with hnil | hkept
  · rw [hnil] at hrow
    cases hrow
  · rw [hkept, pruneExpired_fst] at hrow
    obtain ⟨stored, hstored, rfl⟩ := List.mem_map.mp hrow
    exact h.tag_lt stored ((List.filter_sublist.trans List.filter_sublist).subset hstored)

theorem enqueue_of_admits {s : State} {clock : EnqueueClock} {event : Json}
    (h : Admits env contract s clock event) : enqueue env contract clock event s =
      { s with
        queue := sortActiveRowsWithAuthority env (keptRows env contract clock s ++
          [⟨normalizeEvent env contract clock event, s.admitted⟩])
        admitted := s.admitted + 1 } :=
  if_pos h

theorem Admits.not_dedupeHit {s : State} {clock : EnqueueClock} {event : Json}
    (h : Admits env contract s clock event) :
    dedupeHit env contract clock.dedupeMs (keptRows env contract clock s)
      (normalizeEvent env contract clock event) = false := by
  have hqueued := h.2
  rw [Bool.eq_false_iff]
  intro hhit
  rw [enqueueAction] at hqueued
  simp only [hhit, if_true] at hqueued
  split at hqueued <;> cases hqueued

/-- A row of the candidate's key whose time parses is no nearer than the window. -/
theorem apart_of_not_dedupeHit {nowMs : ℤ} {rows : List (Row ℕ)} {event : Json}
    (h : dedupeHit env contract nowMs rows event = false) {row : Row ℕ} (hrow : row ∈ rows)
    (hkey : SameKey row.event event) {t : ℤ} (ht : eventTime env row.event = some t) :
    windowMs contract < |t - (eventTime env event).getD nowMs| := by
  by_contra hnear
  refine Bool.eq_false_iff.mp h ?_
  have hblank : (RustStd.trim ((strField event "attention_key").getD "")).isEmpty = false := hkey.2
  rw [dedupeHit]
  simp only [hblank, Bool.false_eq_true, if_false]
  refine List.any_eq_true.mpr ⟨row, hrow, ?_⟩
  have hsame : ((strField row.event "attention_key").getD "") =
      (strField event "attention_key").getD "" := hkey.1
  have hread : (strField row.event "ts").bind env.parseTsMs = some t := ht
  rw [hsame, hread, Option.getD_some, beq_self_eq_true, Bool.true_and, abs_sub_comm]
  exact decide_eq_true (not_lt.mp hnear)

/-- **The step.**  A queue stays apart when no active row of the key of an admitted event
lies within the window of it. -/
theorem apart_enqueueNoted {time : List ℤ → Row ℕ → ℤ} (hdating : Dating time) {window : ℤ}
    {book : Book} (hnoted : Noted book) (h : Apart (time book.times) window book.state.queue)
    {input : EnqueueClock × Json}
    (hnew : Admits env contract book.state input.1 input.2 →
      ∀ row ∈ keptRows env contract input.1 book.state,
        SameKey row.event (normalizeEvent env contract input.1 input.2) →
          window < |time book.times row - time (book.times ++ [input.1.dedupeMs])
            ⟨normalizeEvent env contract input.1 input.2, book.state.admitted⟩|) :
    Noted (enqueueNoted env contract book input) ∧
      Apart (time (enqueueNoted env contract book input).times) window
        (enqueueNoted env contract book input).state.queue := by
  by_cases hadmits : Admits env contract book.state input.1 input.2
  · have hlt : ∀ row ∈ keptRows env contract input.1 book.state, row.tag < book.times.length :=
      hnoted.tag_lt_kept input.1
    rw [enqueueNoted, if_pos hadmits, enqueue_of_admits hadmits]
    constructor
    · constructor
      · rw [List.length_append, hnoted.length_eq, List.length_singleton]
      · obtain ⟨f, hf, hperm⟩ := sort_perm env (keptRows env contract input.1
          book.state ++ [⟨normalizeEvent env contract input.1 input.2, book.state.admitted⟩])
        intro row' hrow'
        obtain ⟨row, hrow, rfl⟩ := List.mem_map.mp (hperm.mem_iff.mp hrow')
        rw [(hf row).tag_eq, List.length_append, List.length_singleton]
        rcases List.mem_append.mp hrow with hrow | hrow
        · exact Nat.lt_succ_of_lt (hlt row hrow)
        · rw [List.mem_singleton.mp hrow, hnoted.length_eq]
          exact Nat.lt_succ_self _
    · refine apart_sort hdating env (List.pairwise_append.mpr ⟨?_, List.pairwise_singleton _ _, ?_⟩)
      · have hkept : Apart (time book.times) window (keptRows env contract input.1 book.state) := by
          rcases keptRows_cases input.1 book.state with hnil | hkept
          · rw [hnil]
            exact .nil
          · rw [hkept]
            exact apart_read hdating env h _
        refine hkept.imp_of_mem fun {row row'} hrow hrow' hapart hkey => ?_
        rw [hdating.append _ (hlt row hrow), hdating.append _ (hlt row' hrow')]
        exact hapart hkey
      · intro row hrow row' hrow' hkey
        rw [List.mem_singleton] at hrow'
        subst hrow'
        rw [hdating.append _ (hlt row hrow)]
        exact hnew hadmits row hrow hkey
  · rw [enqueueNoted, if_neg hadmits, enqueue_of_not_admits hadmits]
    exact ⟨hnoted, h⟩

theorem enqueuedAt_new {book : Book} (hnoted : Noted book) (nowMs : ℤ) (event : Json) :
    enqueuedAt (book.times ++ [nowMs]) ⟨event, book.state.admitted⟩ = nowMs := by
  rw [enqueuedAt, ← hnoted.length_eq, List.getD_append_right _ _ _ _ (Nat.le_refl _), Nat.sub_self]
  rfl

/-- No active row of an admitted event's key lies within the window of it. -/
theorem Dated.lt {book : Book} {input : EnqueueClock × Json} (hdated : Dated env contract book input)
    (hadmits : Admits env contract book.state input.1 input.2) :
    ∀ row ∈ keptRows env contract input.1 book.state,
      SameKey row.event (normalizeEvent env contract input.1 input.2) →
        windowMs contract < |rowTime env book.times row - candidateTime env contract input| := by
  intro row hrow hkey
  cases htime : eventTime env row.event with
  | none =>
    rw [rowTime, htime]
    exact hdated row hrow hkey htime
  | some t =>
    rw [rowTime, htime, Option.getD_some]
    exact apart_of_not_dedupeHit hadmits.not_dedupeHit hrow hkey htime

end Steps

/-! ## Runs of enqueues -/

section Run

variable {env : Env} {contract : AttentionContract}

theorem apart_active {time : List ℤ → Row ℕ → ℤ} (hdating : Dating time) {window : ℤ} {book : Book}
    (h : Apart (time book.times) window book.state.queue) (nowMs : ℤ) :
    Apart (time book.times) window (loadActiveQueue env contract nowMs book.state).1 := by
  cases hon : contract.enabled && contract.pushAttentionQueue with
  | false =>
    have hnil : (loadActiveQueue env contract nowMs book.state).1 = [] := by
      simp [loadActiveQueue, hon]
    rw [hnil]
    exact .nil
  | true =>
    have hactive : (loadActiveQueue env contract nowMs book.state).1 = sortActiveRowsWithAuthority env
        (pruneExpired env nowMs (readJsonl env book.state.queue)).1 := by
      simp [loadActiveQueue, hon]
    rw [hactive]
    exact apart_sort hdating env (apart_read hdating env h nowMs)

/-- The run lemma for a way of dating rows: a guard that keeps a new row apart keeps the
queue apart in every state. -/
theorem apart_before {time : List ℤ → Row ℕ → ℤ} (hdating : Dating time) {window : ℤ}
    {guard : Book → EnqueueClock × Json → Prop}
    (hguard : ∀ book input, Noted book → guard book input →
      Admits env contract book.state input.1 input.2 →
        ∀ row ∈ keptRows env contract input.1 book.state,
          SameKey row.event (normalizeEvent env contract input.1 input.2) →
            window < |time book.times row - time (book.times ++ [input.1.dedupeMs])
              ⟨normalizeEvent env contract input.1 input.2, book.state.admitted⟩|)
    {inputs : List (EnqueueClock × Json)}
    (hmeets : Meets (enqueueNoted env contract) guard Book.init inputs) (n : ℕ) :
    Apart (time (before (enqueueNoted env contract) Book.init inputs n).times) window
      (before (enqueueNoted env contract) Book.init inputs n).state.queue := by
  have hinit : Noted Book.init ∧ Apart (time Book.init.times) window Book.init.state.queue :=
    ⟨Noted.init, .nil⟩
  have hstep : ∀ book input, (Noted book ∧ Apart (time book.times) window book.state.queue) →
      guard book input → Noted (enqueueNoted env contract book input) ∧
        Apart (time (enqueueNoted env contract book input).times) window
          (enqueueNoted env contract book input).state.queue := by
    intro book input ⟨hnoted, hapart⟩ hmet
    exact apart_enqueueNoted hdating hnoted hapart (hguard book input hnoted hmet)
  exact (hmeets.before hstep hinit n).2

/-- **Attention queue dedupe.**  In a run of enqueues none of which meets an active row of
its key, without a readable time, that was enqueued within the window of the event's time,
no two rows of a key that are ever active lie within the window of each other; and if,
besides, events enqueued within the window of a row of their key carry times within it, no
two of them were enqueued within the window. -/
theorem dedupe_apart (env : Env) (contract : AttentionContract)
    (inputs : List (EnqueueClock × Json)) :
    (Meets (enqueueNoted env contract) (Dated env contract) Book.init inputs → ∀ n nowMs,
      Apart (rowTime env (before (enqueueNoted env contract) Book.init inputs n).times)
        (windowMs contract)
        (loadActiveQueue env contract nowMs
          (before (enqueueNoted env contract) Book.init inputs n).state).1) ∧
    (Meets (enqueueNoted env contract) (fun book input => Dated env contract book input ∧
        Prompt env contract book input) Book.init inputs → ∀ n nowMs,
      Apart (enqueuedAt (before (enqueueNoted env contract) Book.init inputs n).times)
        (windowMs contract)
        (loadActiveQueue env contract nowMs
          (before (enqueueNoted env contract) Book.init inputs n).state).1) := by
  constructor
  · intro hmeets n nowMs
    refine apart_active (dating_rowTime env) (apart_before (dating_rowTime env) ?_ hmeets n) nowMs
    intro book input hnoted hdated hadmits row hrow hkey
    have hnew : rowTime env (book.times ++ [input.1.dedupeMs])
        ⟨normalizeEvent env contract input.1 input.2, book.state.admitted⟩ =
          candidateTime env contract input := by
      rw [rowTime, enqueuedAt_new hnoted, candidateTime]
    rw [hnew]
    exact hdated.lt hadmits row hrow hkey
  · intro hmeets n nowMs
    refine apart_active dating_enqueuedAt (apart_before dating_enqueuedAt ?_ hmeets n) nowMs
    intro book input hnoted ⟨hdated, hprompt⟩ hadmits row hrow hkey
    rw [enqueuedAt_new hnoted]
    by_contra hnear
    have hfar := hdated.lt hadmits row hrow hkey
    exact not_le.mpr hfar (hprompt row hrow hkey (not_lt.mp hnear))

end Run

section Decide

variable {env : Env} {contract : AttentionContract}

instance (a b : Json) : Decidable (SameKey a b) := inferInstanceAs (Decidable (_ ∧ _))

instance (time : Row ℕ → ℤ) (window : ℤ) (rows : List (Row ℕ)) : Decidable (Apart time window rows) :=
  inferInstanceAs (Decidable (List.Pairwise _ rows))

instance (book : Book) (input : EnqueueClock × Json) : Decidable (Dated env contract book input) :=
  inferInstanceAs (Decidable (∀ row ∈ keptRows env contract input.1 book.state, _ → _ → _))

instance (book : Book) (input : EnqueueClock × Json) : Decidable (Prompt env contract book input) :=
  inferInstanceAs (Decidable (∀ row ∈ keptRows env contract input.1 book.state, _ → _ → _))

end Decide

/-- The same event twice, without a time of its own, and another one. -/
def repeatedEnqueues : List (EnqueueClock × Json) :=
  [(midnight, bareEvent), (midnight, bareEvent), (midnight, criticalEvent)]

theorem repeatedEnqueues_apart :
    (∀ n nowMs, Apart (rowTime newYearEnv
        (before (enqueueNoted newYearEnv defaultContract) Book.init repeatedEnqueues n).times)
      (windowMs defaultContract)
      (loadActiveQueue newYearEnv defaultContract nowMs
        (before (enqueueNoted newYearEnv defaultContract) Book.init repeatedEnqueues n).state).1) ∧
    ∀ n nowMs, Apart (enqueuedAt
        (before (enqueueNoted newYearEnv defaultContract) Book.init repeatedEnqueues n).times)
      (windowMs defaultContract)
      (loadActiveQueue newYearEnv defaultContract nowMs
        (before (enqueueNoted newYearEnv defaultContract) Book.init repeatedEnqueues n).state).1 :=
  ⟨(dedupe_apart newYearEnv defaultContract repeatedEnqueues).1 (by decide +kernel),
    (dedupe_apart newYearEnv defaultContract repeatedEnqueues).2 (by decide +kernel)⟩

/-- An event whose time is no time. -/
def undatedEvent : Json := Json.ofFields [("summary", .str "first"), ("ts", .str "soon")]

/-- Enqueued twice in one moment, such an event stands in the queue twice. -/
theorem undatedEvent_queued_twice :
    ¬ Apart (rowTime newYearEnv (before (enqueueNoted newYearEnv defaultContract) Book.init
        [(midnight, undatedEvent), (midnight, undatedEvent)] 2).times) (windowMs defaultContract)
      (loadActiveQueue newYearEnv defaultContract 1767225600000
        (before (enqueueNoted newYearEnv defaultContract) Book.init
          [(midnight, undatedEvent), (midnight, undatedEvent)] 2).state).1 ∧
    ¬ Apart (enqueuedAt (before (enqueueNoted newYearEnv defaultContract) Book.init
        [(midnight, undatedEvent), (midnight, undatedEvent)] 2).times) (windowMs defaultContract)
      (loadActiveQueue newYearEnv defaultContract 1767225600000
        (before (enqueueNoted newYearEnv defaultContract) Book.init
          [(midnight, undatedEvent), (midnight, undatedEvent)] 2).state).1 := by
  constructor <;> decide +kernel

end Protheus.AttentionQueue
