import Protheus.AttentionQueue

/-!
What `load_active_queue` and `enqueue` do to the rows of the attention queue.

The sort sends the rows to layer 2 as text and gets them back as text: they come back
ranked by the scores layer 2 gives them (`nextScore`), each with its new score and with
its floats as they were read (`rerated`).  What the pass does not write, and what is no
float, stays (`Carries`).
-/

namespace Protheus.AttentionQueue

open Protheus.Initiative hiding eventScore
open Protheus.Rank

/-! ## What comes back of a row -/

section Rows

variable {τ : Type*} (env : Env)

/-- The score layer 2 gives to an event that is sent to it. -/
def layer2Score (event : Json) : ℚ :=
  Initiative.eventScore env.floats (event.reread env.floats.reread)

/-- The score layer 2 gives to a row. -/
abbrev nextScore (row : Row τ) : ℚ := layer2Score env row.event

/-- The row that comes back of one that is sent to layer 2. -/
def rerated (row : Row τ) : Row τ :=
  rereadRow env.floats (rescore env.floats (frontJumpThreshold env.floats) (rereadRow env.floats row))

/-- A row that is another one up to floats and to what the pass writes. -/
structure Carries (row' row : Row τ) : Prop where
  tag_eq : row'.tag = row.tag
  depth_le : ∀ n, 2 ≤ n → row.event.depth ≤ n → row'.event.depth ≤ n
  text_eq : ∀ key, key ∉ ["score", "priority", "band", "initiative_action", "queue_front", "importance"] →
    strField row'.event key = strField row.event key

theorem Carries.refl (row : Row τ) : Carries row row := ⟨rfl, fun _ _ h => h, fun _ _ => rfl⟩

theorem Carries.trans {row row' row'' : Row τ} (h : Carries row'' row') (h' : Carries row' row) :
    Carries row'' row where
  tag_eq := h.tag_eq.trans h'.tag_eq
  depth_le n hn hrow := h.depth_le n hn (h'.depth_le n hn hrow)
  text_eq key hkey := (h.text_eq key hkey).trans (h'.text_eq key hkey)

theorem depth_annotate_le {d : ImportanceDecision} {event : Json} {n : ℕ} (hn : 2 ≤ n)
    (h : event.depth ≤ n) : (annotate d event).depth ≤ n := by
  cases event with
  | obj map =>
    obtain ⟨n, rfl⟩ : ∃ m, n = m + 1 := ⟨n - 1, by omega⟩
    have hmap : Json.fieldsDepth map ≤ n := by simpa [Json.depth] using h
    have himp : (importanceJson d).depth ≤ 1 :=
      Json.depth_insertFields_le (n := 0) (by simp) (Nat.le_refl 0)
    refine Json.depth_insertFields_le (fun f hf => ?_) hmap
    simp only [decisionFields, List.mem_cons, List.not_mem_nil, or_false] at hf
    rcases hf with rfl | rfl | rfl | rfl | rfl | rfl <;> simp
    exact himp.trans (by omega)
  | _ => exact h

theorem carries_rereadRow (floats : Floats) (row : Row τ) : Carries (rereadRow floats row) row where
  tag_eq := rfl
  depth_le n _ h := by rwa [rereadRow, Json.depth_reread]
  text_eq key _ := by
    rw [strField, rereadRow, Json.get?_reread, strField]
    cases row.event.get? key with
    | none => rfl
    | some value => exact Json.asStr_reread _ value

theorem carries_rerated (row : Row τ) : Carries (rerated env row) row := by
  have hpass : Carries (rescore env.floats (frontJumpThreshold env.floats) (rereadRow env.floats row))
      (rereadRow env.floats row) :=
    { tag_eq := rfl
      depth_le := fun n hn h => depth_annotate_le hn h
      text_eq := fun key hkey => by
        rw [strField, rescore, get?_annotate (by rwa [decisionFields_keys]), strField] }
  exact (carries_rereadRow _ _).trans (hpass.trans (carries_rereadRow _ _))

variable {env} in
theorem Carries.expired_eq {row' row : Row τ} (h : Carries row' row) (nowMs : ℤ) :
    expired env nowMs row'.event = expired env nowMs row.event := by
  rw [expired, h.text_eq "expires_at" (by decide), expired]

/-- What a reader of the file finds: the rows that parse and have not expired, reread. -/
theorem pruneExpired_fst (nowMs : ℤ) (queue : List (Row τ)) :
    (pruneExpired env nowMs (readJsonl env queue)).1 =
      ((queue.filter fun row => decide (row.event.depth ≤ Json.parseDepth)).filter fun row =>
        !expired env nowMs row.event).map (rereadRow env.floats) := by
  have hlive : (fun row : Row τ => !expired env nowMs row.event) ∘ rereadRow env.floats =
      fun row => !expired env nowMs row.event :=
    funext fun row => by rw [Function.comp_apply, (carries_rereadRow env.floats row).expired_eq]
  rw [pruneExpired, readJsonl, List.filter_map, hlive]

@[simp] theorem map_tag_rerated (rows : List (Row τ)) :
    (rows.map (rerated env)).map Row.tag = rows.map Row.tag := by
  rw [List.map_map]
  rfl

/-- Rows nested so deep that a payload of them does not parse. -/
def TooDeep (rows : List (Row τ)) : Prop :=
  Json.parseDepth < Json.itemsDepth (rows.map Row.event) + 2

instance (rows : List (Row τ)) : Decidable (TooDeep rows) := inferInstanceAs (Decidable (_ < _))

theorem sort_of_tooDeep {rows : List (Row τ)} (h : TooDeep rows) :
    sortActiveRowsWithAuthority env rows = sortActiveRows env rows := by
  rw [sortActiveRowsWithAuthority, prioritizeRowsViaLayer2, if_neg (not_le.mpr h)]

/-- **The sort** ranks the rows by the scores layer 2 gives them. -/
theorem sort_of_not_tooDeep {rows : List (Row τ)} (h : ¬ TooDeep rows) :
    sortActiveRowsWithAuthority env rows = (rank (nextScore env) rows).map (rerated env) := by
  have hkey : (fun row : Row τ => Initiative.eventScore env.floats row.event) ∘ rereadRow env.floats =
      nextScore env := rfl
  rw [sortActiveRowsWithAuthority, prioritizeRowsViaLayer2, if_pos (not_lt.mp h)]
  simp only
  rw [prioritizeRows_eq, rank_map, hkey, List.map_map, List.map_map]
  rfl

/-- The rows the sort returns are those it was given, as they were or rerated. -/
theorem sort_perm (rows : List (Row τ)) : ∃ f : Row τ → Row τ, (∀ row, Carries (f row) row) ∧
    (sortActiveRowsWithAuthority env rows).Perm (rows.map f) := by
  by_cases hdeep : TooDeep rows
  · refine ⟨id, Carries.refl, ?_⟩
    rw [sort_of_tooDeep env hdeep, List.map_id]
    exact List.perm_insertionSort _ rows
  · refine ⟨rerated env, carries_rerated env, ?_⟩
    rw [sort_of_not_tooDeep env hdeep]
    exact rank_perm.map _

end Rows

/-- Events nested so deep still travel to layer 2 and back inside a row. -/
def rowDepth : ℕ := Json.parseDepth - 2

section Normalised

variable (env : Env) (contract : AttentionContract) (clock : EnqueueClock)

theorem rowFields_keys (parts : EventParts) (event : Json) :
    (rowFields env contract parts event).map Prod.fst =
    ["ts", "type", "source", "source_type", "severity", "priority", "score", "band", "queue_lane",
      "summary", "attention_key", "ttl_hours", "dedupe_window_hours", "expires_at",
      "escalate_required", "escalation_authority", "initiative_action",
      "initiative_repeat_after_sec", "initiative_max_messages", "queue_front", "importance",
      "raw_event"] := rfl

theorem depth_rowImportance_le (fallback : Importance.ImportanceDecision)
    (decision : ImportanceDecision) : (rowImportance fallback decision).depth ≤ 2 := by
  have hreasons : (Json.arr (fallback.reasonCodes.map .str)).depth ≤ 1 := by
    refine Nat.succ_le_succ (Json.itemsDepth_le.mpr fun j hj => ?_)
    obtain ⟨reason, -, rfl⟩ := List.mem_map.mp hj
    exact Nat.le_refl 0
  refine Json.depth_insertFields_le (fun f hf => ?_) (Json.fieldsDepth_le.mpr fun f hf => ?_)
  · simp only [List.mem_cons, List.not_mem_nil, or_false] at hf
    rcases hf with rfl | rfl | rfl | rfl | rfl <;> simp
    exact Json.depth_insertFields_le (n := 0) (by simp) (Nat.le_refl 0)
  · rcases Json.mem_insertFields hf with hf | hf
    · simp only [Importance.decisionFields, List.mem_cons, List.not_mem_nil, or_false] at hf
      rcases hf with rfl | rfl | rfl | rfl | rfl | rfl | rfl | rfl | rfl | rfl | rfl | rfl <;> simp
      · exact hreasons
      · exact Json.depth_insertFields_le (n := 0) (by simp) (Nat.le_refl 0)
    · cases hf

theorem depth_rowFields_le (parts : EventParts) {event : Json} {n : ℕ} (hn : 2 ≤ n)
    (h : event.depth ≤ n) : ∀ f ∈ rowFields env contract parts event, f.2.depth ≤ n := by
  have himp := (depth_rowImportance_le parts.fallback parts.decision).trans hn
  simp only [rowFields, List.forall_mem_cons, Json.depth_str, Json.depth_ofInt, Json.depth_ofRat,
    Json.depth_bool, Nat.zero_le, himp, h, true_and]
  exact fun f hf => absurd hf List.not_mem_nil

/-- A normalised event is nested no deeper than one that is not nested to the limit. -/
theorem depth_normalizeEvent_le {event : Json} (h : event.depth < rowDepth) :
    (normalizeEvent env contract clock event).depth ≤ rowDepth := by
  have hmap := Json.depth_ofFields_le
    (depth_rowFields_le env contract (eventParts env contract clock event) (n := rowDepth - 1) (by decide)
      (Nat.le_sub_one_of_lt h))
  exact Json.depth_insertField_le (Nat.zero_le _) hmap

end Normalised

/-! ## What loading and enqueueing do to the queue -/

/-- The tags of the queue, in order. -/
def State.tags (s : State) : List ℕ := s.queue.map Row.tag

/-- The rows travel to layer 2, and each stands under a tag of its own. -/
structure Good (s : State) : Prop where
  depth_le : ∀ row ∈ s.queue, row.event.depth ≤ rowDepth
  tag_lt : ∀ row ∈ s.queue, row.tag < s.admitted
  nodup : s.tags.Nodup

theorem Good.init : Good State.init where
  depth_le := by simp [State.init]
  tag_lt := by simp [State.init]
  nodup := .nil

theorem Good.of_queue_eq {s s' : State} (h : Good s) (hqueue : s'.queue = s.queue)
    (hadmitted : s'.admitted = s.admitted) : Good s' where
  depth_le := hqueue ▸ h.depth_le
  tag_lt := by rw [hqueue, hadmitted]; exact h.tag_lt
  nodup := by rw [State.tags, hqueue]; exact h.nodup

/-- Dropping rows keeps a queue good. -/
theorem Good.sublist {s : State} (h : Good s) {rows : List (Row ℕ)} (hrows : rows.Sublist s.queue) :
    Good { s with queue := rows } where
  depth_le := fun row hrow => h.depth_le row (hrows.subset hrow)
  tag_lt := fun row hrow => h.tag_lt row (hrows.subset hrow)
  nodup := h.nodup.sublist (hrows.map Row.tag)

/-- So does sending them through text and layer 2. -/
theorem Good.map {s : State} (h : Good s) {f : Row ℕ → Row ℕ} (hf : ∀ row, Carries (f row) row) :
    Good { s with queue := s.queue.map f } where
  depth_le := by
    intro row' hrow'
    obtain ⟨row, hrow, rfl⟩ := List.mem_map.mp hrow'
    exact (hf row).depth_le _ (by decide) (h.depth_le row hrow)
  tag_lt := by
    intro row' hrow'
    obtain ⟨row, hrow, rfl⟩ := List.mem_map.mp hrow'
    rw [(hf row).tag_eq]
    exact h.tag_lt row hrow
  nodup := by
    have htags : s.queue.map (Row.tag ∘ f) = s.tags :=
      List.map_congr_left fun row _ => (hf row).tag_eq
    rw [State.tags, List.map_map, htags]
    exact h.nodup

theorem not_tooDeep {rows : List (Row ℕ)} (h : ∀ row ∈ rows, row.event.depth ≤ rowDepth) :
    ¬ TooDeep rows := by
  have hdepth : Json.itemsDepth (rows.map Row.event) ≤ rowDepth := by
    refine Json.itemsDepth_le.mpr fun j hj => ?_
    obtain ⟨row, hrow, rfl⟩ := List.mem_map.mp hj
    exact h row hrow
  have hlimit : Json.parseDepth = 127 := rfl
  rw [rowDepth] at hdepth
  rw [TooDeep]
  omega

section Specs

variable (env : Env) (contract : AttentionContract)

/-- The rows of the queue that have not expired, as they are read. -/
def live (nowMs : ℤ) (s : State) : List (Row ℕ) :=
  (s.queue.filter fun row => !expired env nowMs row.event).map (rereadRow env.floats)

theorem map_tag_live (nowMs : ℤ) (s : State) : (live env nowMs s).map Row.tag =
    (s.queue.filter fun row => !expired env nowMs row.event).map Row.tag := by
  rw [live, List.map_map]
  rfl

theorem live_sublist (nowMs : ℤ) (s : State) : ((live env nowMs s).map Row.tag).Sublist s.tags := by
  rw [map_tag_live]
  exact List.filter_sublist.map Row.tag

variable {env contract} {s : State}

theorem Good.live (h : Good s) (nowMs : ℤ) : Good { s with queue := live env nowMs s } := by
  have hkept : Good { s with queue := s.queue.filter fun row => !expired env nowMs row.event } :=
    h.sublist List.filter_sublist
  exact hkept.map (carries_rereadRow env.floats)

theorem pruneExpired_readJsonl (h : Good s) (nowMs : ℤ) :
    pruneExpired env nowMs (readJsonl env s.queue) =
      (live env nowMs s, s.queue.length - (live env nowMs s).length) := by
  have hread : (s.queue.filter fun row => decide (row.event.depth ≤ Json.parseDepth)) = s.queue :=
    List.filter_eq_self.mpr fun row hrow => decide_eq_true ((h.depth_le row hrow).trans (by decide))
  have hlive := pruneExpired_fst env nowMs s.queue
  rw [hread, ← live] at hlive
  refine Prod.ext hlive ?_
  have hcount : (readJsonl env s.queue).length - (pruneExpired env nowMs (readJsonl env s.queue)).1.length =
      s.queue.length - (live env nowMs s).length := by
    rw [hlive, readJsonl, hread, List.length_map]
  exact hcount

/-- **Loading** rerates the live rows that stand in the order of their scores and, when any
row expired, writes them back. -/
theorem loadActiveQueue_eq (hon : (contract.enabled && contract.pushAttentionQueue) = true)
    (h : Good s) {nowMs : ℤ} (hranked : Ranked (nextScore env) (live env nowMs s)) :
    loadActiveQueue env contract nowMs s =
      ((live env nowMs s).map (rerated env),
        if 0 < s.queue.length - (live env nowMs s).length then
          { s with queue := (live env nowMs s).map (rerated env) } else s) := by
  have hsort : sortActiveRowsWithAuthority env (live env nowMs s) =
      (live env nowMs s).map (rerated env) := by
    rw [sort_of_not_tooDeep env (not_tooDeep (h.live nowMs).depth_le), hranked.rank_eq]
  simp only [loadActiveQueue, hon, pruneExpired_readJsonl h, hsort]
  rfl

variable (env) in
theorem keptRows_eq (hon : (contract.enabled && contract.pushAttentionQueue) = true)
    (h : Good s) (clock : EnqueueClock) : keptRows env contract clock s = live env clock.pruneMs s := by
  rw [keptRows, if_pos hon, pruneExpired_readJsonl h]

variable (env contract s) in
/-- Whether an `enqueue` writes the queue file. -/
def Admits (clock : EnqueueClock) (event : Json) : Prop :=
  event.depth ≤ Json.parseDepth ∧
    (enqueueAction env contract clock s (normalizeEvent env contract clock event)).queued = true

instance (clock : EnqueueClock) (event : Json) : Decidable (Admits env contract s clock event) :=
  inferInstanceAs (Decidable (_ ∧ _))

/-- A queue that admits is switched on. -/
theorem Admits.on {clock : EnqueueClock} {event : Json} (h : Admits env contract s clock event) :
    (contract.enabled && contract.pushAttentionQueue) = true := by
  have hqueued := h.2
  rw [enqueueAction] at hqueued
  cases henabled : contract.enabled <;> cases hpush : contract.pushAttentionQueue <;>
    simp [henabled, hpush, Action.queued] at hqueued ⊢

/-- **Enqueueing** ranks the live rows with the new one behind them. -/
theorem enqueue_eq {clock : EnqueueClock} {event : Json} (h : Good s)
    (hadmits : Admits env contract s clock event) (hdepth : event.depth < rowDepth) :
    enqueue env contract clock event s =
      { s with
        queue := (rank (nextScore env) (live env clock.pruneMs s ++
          [⟨normalizeEvent env contract clock event, s.admitted⟩])).map (rerated env)
        admitted := s.admitted + 1 } := by
  have hkept := keptRows_eq env hadmits.on h clock
  have hrows : ∀ row ∈ live env clock.pruneMs s ++
      [⟨normalizeEvent env contract clock event, s.admitted⟩], row.event.depth ≤ rowDepth := by
    intro row hrow
    rcases List.mem_append.mp hrow with hrow | hrow
    · exact (h.live clock.pruneMs).depth_le row hrow
    · rw [List.mem_singleton.mp hrow]
      exact depth_normalizeEvent_le env contract clock hdepth
  rw [enqueue, if_pos (show _ ∧ _ from hadmits), hkept, sort_of_not_tooDeep env (not_tooDeep hrows)]

theorem enqueue_of_not_admits {clock : EnqueueClock} {event : Json}
    (h : ¬ Admits env contract s clock event) : enqueue env contract clock event s = s := by
  exact if_neg h

theorem Good.enqueue (h : Good s) {clock : EnqueueClock} {event : Json}
    (hdepth : event.depth < rowDepth) : Good (enqueue env contract clock event s) := by
  by_cases hadmits : Admits env contract s clock event
  · rw [enqueue_eq h hadmits hdepth]
    have hlive : Good { s with queue := AttentionQueue.live env clock.pruneMs s } := h.live clock.pruneMs
    have hnew : s.admitted ∉ (AttentionQueue.live env clock.pruneMs s).map Row.tag := by
      intro hmem
      obtain ⟨row, hrow, htag⟩ := List.mem_map.mp hmem
      exact absurd (hlive.tag_lt row hrow) (by simp only; omega)
    have hfound : Good { s with
        queue := AttentionQueue.live env clock.pruneMs s ++
          [⟨normalizeEvent env contract clock event, s.admitted⟩]
        admitted := s.admitted + 1 } := by
      refine ⟨fun row hrow => ?_, fun row hrow => ?_, ?_⟩
      · rcases List.mem_append.mp hrow with hrow | hrow
        · exact hlive.depth_le row hrow
        · rw [List.mem_singleton.mp hrow]
          exact depth_normalizeEvent_le env contract clock hdepth
      · rcases List.mem_append.mp hrow with hrow | hrow
        · exact Nat.lt_succ_of_lt (hlive.tag_lt row hrow)
        · rw [List.mem_singleton.mp hrow]
          exact Nat.lt_succ_self _
      · rw [State.tags, List.map_append]
        exact List.nodup_append.mpr ⟨hlive.nodup, List.nodup_singleton _, by
          intro a ha b hb
          rw [List.mem_singleton.mp hb]
          rintro rfl
          exact hnew ha⟩
    have hranked : Good { s with
        queue := rank (nextScore env) (AttentionQueue.live env clock.pruneMs s ++
          [⟨normalizeEvent env contract clock event, s.admitted⟩])
        admitted := s.admitted + 1 } :=
      ⟨fun row hrow => hfound.depth_le row (mem_rank.mp hrow),
        fun row hrow => hfound.tag_lt row (mem_rank.mp hrow),
        (rank_perm.map Row.tag).nodup_iff.mpr hfound.nodup⟩
    exact hranked.map (carries_rerated env)
  · rwa [enqueue_of_not_admits hadmits]

end Specs

/-! ## An installation -/

/-- The clock conversions at the start of January 2026; texts stand for their hashes. -/
def newYearEnv : Env where
  parseTsMs ts :=
    if ts = "2026-01-01T00:00:00.000Z" then some 1767225600000
    else if ts = "2026-01-03T00:00:00.000Z" then some 1767398400000
    else if ts = "2026-01-05T00:00:00.000Z" then some 1767571200000
    else none
  formatTsMs ms :=
    if ms = 1767398400000 then some "2026-01-03T00:00:00.000Z"
    else if ms = 1767571200000 then some "2026-01-05T00:00:00.000Z"
    else none
  sha256Hex text := text
  printFloat q := toString q
  floats := .binary64

def midnight : EnqueueClock where
  nowIso := "2026-01-01T00:00:00.000Z"
  eventMs := 1767225600000
  expiryIso := "2026-01-01T00:00:00.000Z"
  pruneMs := 1767225600000
  dedupeMs := 1767225600000

/-- The contract of an installation without a policy file. -/
def defaultContract : AttentionContract where
  enabled := true
  pushAttentionQueue := true
  queuePath := "local/state/attention/queue.jsonl"
  maxQueueDepth := 2048
  maxBatchSize := 64
  ttlHours := 48
  dedupeWindowHours := 24
  backpressureDropBelow := "critical"
  escalateLevels := ["critical"]
  priorityMap := [("critical", 100), ("info", 20), ("warn", 60)]
  consumerId := "cockpit"

def bareEvent : Json := Json.ofFields [("summary", .str "first")]

/-- An event whose severity puts it in front. -/
def criticalEvent : Json := Json.ofFields [("severity", .str "critical"), ("summary", .str "second")]

end Protheus.AttentionQueue
