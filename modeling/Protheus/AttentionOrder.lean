import Protheus.AttentionRows

/-!
Does a queued row keep its rating and its place?

Every admitting `enqueue` runs the layer-2 pass over the whole queue, and the
pass rates a row from the score it wrote before.  The order of the rows survives
this, the rating does not: a row keeps its score, band and priority exactly as
long as its score is zero when the next event is admitted (`priority_stable_iff`).

Scores are exact here.  A row of the queue is an object the pass wrote its decision into
and that has no metric of its own (`Queued`): its score comes to rest at zero, and one
more pass multiplies it by four fifths (`Queued.eventScore_eq`).
-/

namespace Protheus.AttentionQueue

open Protheus.Initiative hiding eventScore
open Protheus.Rank
open Protheus.Runs

/-- The score, band and priority a row shows. -/
def rating (event : Json) : Option Json × Option Json × Option Json :=
  (event.get? "score", event.get? "band", event.get? "priority")

/-- The rows queued in both states are rated alike in both. -/
def KeepsRatings (s s' : State) : Prop :=
  ∀ row ∈ s.queue, ∀ row' ∈ s'.queue, row'.tag = row.tag → rating row'.event = rating row.event

/-- Any two rows queued in both states stand in the same order in both. -/
def KeepsOrder (s s' : State) : Prop :=
  ∀ t u, [t, u].Sublist s'.tags → t ∈ s.tags → u ∈ s.tags → [t, u].Sublist s.tags

abbrev rowScore (row : Row ℕ) : ℚ := shownScore row.event

/-! ## Rows in exact arithmetic -/

/-- An object without metrics of its own. -/
structure Fresh (event : Json) : Prop where
  isObject : event.isObject = true
  noMetric : ∀ key ∈ metricKeys, topMetric event key = none

/-- A row the pass was run over. -/
structure Queued (event : Json) : Prop extends Fresh event where
  passed : ∃ event', event'.isObject = true ∧
    event = annotate (importanceFromEvent .exact event' (frontJumpThreshold .exact)) event'

theorem Queued.scored {event : Json} (h : Queued event) : Scored event (shownScore event) := by
  obtain ⟨event', hobj, heq⟩ := h.passed
  have hscored : Scored event (Initiative.eventScore .exact event') := by
    rw [heq]
    exact scored_annotate hobj (eventScore_nonneg _) (eventScore_le_one _)
  rwa [hscored.shownScore_eq]

/-- **Decay.**  One more pass takes a fifth of a queued row's score away. -/
theorem Queued.eventScore_eq {event : Json} (h : Queued event) :
    Initiative.eventScore .exact event = shownScore event * (8 / 10) := by
  have hm := h.noMetric
  simp only [metricKeys, List.forall_mem_cons] at hm
  obtain ⟨hc, hu, hi, hr, hf, hfloor, -⟩ := hm
  have h0 := h.scored.nonneg
  rw [h.scored.eventScore_eq]
  simp [weightedBy, hc, hu, hi, hr, hf, hfloor, weightedScore_none, floorValue, h0]

theorem Fresh.rescore {row : Row ℕ} (h : Fresh row.event) :
    Queued (rescore .exact (frontJumpThreshold .exact) row).event where
  isObject := by rw [Initiative.rescore, isObject_annotate, h.isObject]
  noMetric := fun key hkey => by rw [Initiative.rescore, topMetric_annotate _ _ hkey, h.noMetric key hkey]
  passed := ⟨row.event, h.isObject, rfl⟩

/-- A normalised event is a row the pass may be run over, however it was written. -/
theorem fresh_normalizeEvent (env : Env) (contract : AttentionContract) (clock : EnqueueClock)
    (event : Json) : Fresh (normalizeEvent env contract clock event) where
  isObject := rfl
  noMetric := by
    intro key hkey
    have hkeys : ∀ key ∈ metricKeys, key ≠ "receipt_hash" ∧
        key ∉ (rowFields env contract (eventParts env contract clock event) event).map Prod.fst := by
      rw [rowFields_keys]
      decide
    obtain ⟨hne, hnot⟩ := hkeys key hkey
    have hget : (normalizeEvent env contract clock event).get? key = none :=
      (Json.lookup_insertField_ne hne).trans (Json.lookup_insertFields_of_notMem hnot)
    rw [topMetric, hget]
    rfl

section Exact

variable {env : Env} (hexact : env.floats = .exact)
include hexact

theorem rereadRow_exact (row : Row ℕ) : rereadRow env.floats row = row := by
  rw [hexact, rereadRow, Floats.reread_exact]

theorem rerated_exact (row : Row ℕ) :
    rerated env row = rescore .exact (frontJumpThreshold .exact) row := by
  rw [rerated, rereadRow_exact hexact, rereadRow_exact hexact, hexact]

theorem layer2Score_exact (event : Json) :
    layer2Score env event = Initiative.eventScore .exact event := by
  rw [layer2Score, hexact, Floats.reread_exact]

theorem live_exact (nowMs : ℤ) (s : State) :
    live env nowMs s = s.queue.filter fun row => !expired env nowMs row.event := by
  rw [live, List.map_congr_left fun row _ => rereadRow_exact hexact row, List.map_id']

end Exact

/-- The rows are queued rows in the order of their scores. -/
structure Standing (s : State) : Prop extends Good s where
  queued : ∀ row ∈ s.queue, Queued row.event
  ranked : Ranked rowScore s.queue

theorem Standing.init : Standing State.init where
  toGood := Good.init
  queued := by simp [State.init]
  ranked := .nil

/-- The rating a score stands for. -/
theorem Queued.rating_eq {event : Json} (h : Queued event) : rating event =
    (some (Json.ofRat (shownScore event)), some (.str (bandForScore .exact (shownScore event))),
      some (Json.ofInt (priorityForScore .exact (shownScore event)))) := by
  obtain ⟨event', hobj, heq⟩ := h.passed
  generalize hthreshold : frontJumpThreshold .exact = threshold at heq
  have hscore := (scored_annotate (d := importanceFromEvent .exact event' threshold) hobj
    (eventScore_nonneg _) (eventScore_le_one _)).shownScore_eq
  have hget : ∀ f ∈ decisionFields (importanceFromEvent .exact event' threshold),
      (annotate (importanceFromEvent .exact event' threshold) event').get? f.1 = some f.2 :=
    fun f hf => get?_annotate_of_mem hobj hf
  rw [heq, hscore]
  simp only [decisionFields, List.forall_mem_cons] at hget
  obtain ⟨hs, hp, hb, -⟩ := hget
  rw [rating, hs, hp, hb]
  rfl

theorem Queued.rating_eq_iff {event event' : Json} (h : Queued event) (h' : Queued event') :
    rating event' = rating event ↔ shownScore event' = shownScore event := by
  rw [h.rating_eq, h'.rating_eq]
  constructor
  · intro heq
    simpa [Json.ofRat] using congrArg Prod.fst heq
  · intro heq
    rw [heq]

section Step

variable {env : Env} {contract : AttentionContract} {s : State} {clock : EnqueueClock} {event : Json}

/-- What an admitting `enqueue` leaves in the queue: the live rows and the new one, rerated. -/
theorem mem_enqueue_iff (h : Good s) (hadmits : Admits env contract s clock event)
    (hdepth : event.depth < rowDepth) {row' : Row ℕ} :
    row' ∈ (enqueue env contract clock event s).queue ↔
      (∃ row ∈ live env clock.pruneMs s, rerated env row = row') ∨
        row' = rerated env ⟨normalizeEvent env contract clock event, s.admitted⟩ := by
  rw [enqueue_eq h hadmits hdepth, List.mem_map]
  simp only [mem_rank, List.mem_append, List.mem_singleton]
  constructor
  · rintro ⟨row, hrow | rfl, rfl⟩
    · exact .inl ⟨row, hrow, rfl⟩
    · exact .inr rfl
  · rintro (⟨row, hrow, rfl⟩ | rfl)
    · exact ⟨row, .inl hrow, rfl⟩
    · exact ⟨_, .inr rfl, rfl⟩

/-- A row that was queued before was live, and is there rerated. -/
theorem exists_live_of_mem_enqueue (h : Good s) (hadmits : Admits env contract s clock event)
    (hdepth : event.depth < rowDepth) {row' : Row ℕ}
    (hrow' : row' ∈ (enqueue env contract clock event s).queue) (hold : row'.tag < s.admitted) :
    ∃ row ∈ live env clock.pruneMs s, rerated env row = row' := by
  rcases (mem_enqueue_iff h hadmits hdepth).mp hrow' with hlive | rfl
  · exact hlive
  · exact absurd hold (lt_irrefl _)

/-- Rows under one tag are one row. -/
theorem Good.eq_of_tag_eq (h : Good s) {row row' : Row ℕ} (hrow : row ∈ s.queue)
    (hrow' : row' ∈ s.queue) (htag : row'.tag = row.tag) : row' = row :=
  List.inj_on_of_nodup_map h.nodup hrow' hrow htag

theorem admitted_le_enqueue : s.admitted ≤ (enqueue env contract clock event s).admitted := by
  rw [enqueue]
  split <;> simp

section Exact

variable (hexact : env.floats = .exact)
include hexact

/-- The live rows of a standing queue come back in the order they stand in. -/
theorem Standing.ranked_live (h : Standing s) (nowMs : ℤ) : Ranked (nextScore env) (live env nowMs s) := by
  rw [live_exact hexact]
  refine (h.ranked.sublist List.filter_sublist).imp_of_mem fun {a b} ha hb hab => ?_
  have ha := h.queued a (List.mem_of_mem_filter ha)
  have hb := h.queued b (List.mem_of_mem_filter hb)
  rw [nextScore, nextScore, layer2Score_exact hexact, layer2Score_exact hexact, ha.eventScore_eq,
    hb.eventScore_eq]
  simp only [rowScore] at hab
  linarith

theorem Standing.enqueue (h : Standing s) (hdepth : event.depth < rowDepth) :
    Standing (enqueue env contract clock event s) := by
  by_cases hadmits : Admits env contract s clock event
  · have hshown : (fun row : Row ℕ => rowScore (rerated env row)) = nextScore env := funext fun row => by
      rw [rowScore, rerated_exact hexact, shownScore_rescore, nextScore, layer2Score_exact hexact]
    refine ⟨h.toGood.enqueue hdepth, fun row' hrow' => ?_, ?_⟩
    · rcases (mem_enqueue_iff h.toGood hadmits hdepth).mp hrow' with ⟨row, hrow, rfl⟩ | rfl
      · rw [live_exact hexact] at hrow
        rw [rerated_exact hexact]
        exact (h.queued row (List.mem_of_mem_filter hrow)).toFresh.rescore
      · rw [rerated_exact hexact]
        exact Fresh.rescore (fresh_normalizeEvent env contract clock event)
    · rw [enqueue_eq h.toGood hadmits hdepth, Ranked, List.pairwise_map, ← Ranked, hshown]
      exact ranked_rank
  · rwa [enqueue_of_not_admits hadmits]

/-- **One enqueue keeps the order.**  The live rows stand in the new queue in their order,
and whoever was queued before is one of them. -/
theorem keepsOrder_enqueue (h : Standing s) (hdepth : event.depth < rowDepth) :
    KeepsOrder s (enqueue env contract clock event s) := by
  intro t u hsub ht hu
  by_cases hadmits : Admits env contract s clock event
  · have hnodup : (enqueue env contract clock event s).tags.Nodup :=
      (h.toGood.enqueue hdepth).nodup
    have hlive : ((live env clock.pruneMs s).map Row.tag).Sublist
        (enqueue env contract clock event s).tags := by
      rw [State.tags, enqueue_eq h.toGood hadmits hdepth, map_tag_rerated]
      exact (sublist_rank (h.ranked_live hexact _) (List.sublist_append_left _ _)).map Row.tag
    have hmem : ∀ a ∈ [t, u], a ∈ (live env clock.pruneMs s).map Row.tag := by
      intro a ha
      obtain ⟨row', hrow', rfl⟩ := List.mem_map.mp (hsub.subset ha)
      have hold : row'.tag < s.admitted := by
        have hin : row'.tag ∈ s.tags := by
          rcases List.mem_pair.mp ha with heq | heq <;> rw [heq] <;> assumption
        obtain ⟨row, hrow, htag⟩ := List.mem_map.mp hin
        exact htag ▸ h.tag_lt row hrow
      obtain ⟨row, hrow, rfl⟩ := exists_live_of_mem_enqueue h.toGood hadmits hdepth hrow' hold
      exact List.mem_map.mpr ⟨row, hrow, rfl⟩
    exact (sublist_of_forall_mem hnodup hlive hsub hmem).trans (live_sublist env _ s)
  · rwa [enqueue_of_not_admits hadmits] at hsub

/-- **One enqueue keeps the ratings** exactly when it admits nothing or every live row
has come to rest at zero. -/
theorem keepsRatings_enqueue_iff (h : Standing s) (hdepth : event.depth < rowDepth) :
    KeepsRatings s (enqueue env contract clock event s) ↔
      (Admits env contract s clock event → ∀ row ∈ live env clock.pruneMs s, rowScore row = 0) := by
  by_cases hadmits : Admits env contract s clock event
  · have hin : ∀ row ∈ live env clock.pruneMs s, row ∈ s.queue := by
      rw [live_exact hexact]
      exact fun row hrow => List.mem_of_mem_filter hrow
    have hrated : ∀ row ∈ live env clock.pruneMs s,
        (rating (rerated env row).event = rating row.event ↔ rowScore row = 0) := by
      intro row hrow
      have hq := h.queued row (hin row hrow)
      rw [rerated_exact hexact, hq.rating_eq_iff hq.toFresh.rescore, shownScore_rescore, hq.eventScore_eq,
        rowScore]
      constructor <;> intro heq <;> linarith
    simp only [hadmits, forall_const]
    constructor
    · intro hkeeps row hrow
      exact (hrated row hrow).mp (hkeeps row (hin row hrow) _
        ((mem_enqueue_iff h.toGood hadmits hdepth).mpr (.inl ⟨row, hrow, rfl⟩)) rfl)
    · intro hzero row hrow row' hrow' htag
      obtain ⟨row₀, hrow₀, rfl⟩ := exists_live_of_mem_enqueue h.toGood hadmits hdepth hrow'
        (htag ▸ h.tag_lt row hrow)
      have heq : row₀ = row := h.toGood.eq_of_tag_eq hrow (hin row₀ hrow₀) htag
      exact heq ▸ (hrated row₀ hrow₀).mpr (hzero row₀ hrow₀)
  · rw [enqueue_of_not_admits hadmits]
    refine iff_of_true (fun row hrow row' hrow' htag => ?_) fun hin => absurd hin hadmits
    rw [h.toGood.eq_of_tag_eq hrow hrow' htag]

end Exact

end Step

/-! ## Runs of enqueues -/

section Run

variable (env : Env) (contract : AttentionContract)

/-- An `enqueue` as the input of a run. -/
def enqueueStep (s : State) (input : EnqueueClock × Json) : State :=
  enqueue env contract input.1 input.2 s

variable {env contract} {inputs : List (EnqueueClock × Json)}

/-- The state before the `n`-th enqueue. -/
abbrev enqueued (env : Env) (contract : AttentionContract) (inputs : List (EnqueueClock × Json))
    (n : ℕ) : State :=
  before (enqueueStep env contract) State.init inputs n

/-- No row admitted later takes the tag of one queued before. -/
theorem tag_lt_enqueued (hdepth : ∀ input ∈ inputs, input.2.depth < rowDepth) {i j : ℕ}
    (hij : i ≤ j) : ∀ t ∈ (enqueued env contract inputs i).tags,
      t < (enqueued env contract inputs j).admitted := by
  have hmeets : Meets (enqueueStep env contract) (fun _ input => input.2.depth < rowDepth)
      State.init inputs := Meets.of_forall fun input hinput _ => hdepth input hinput
  refine before_induction _ (P := fun s : State => ∀ t ∈ (enqueued env contract inputs i).tags,
    t < s.admitted) hij ?_ ?_
  · intro t ht
    obtain ⟨row, hrow, rfl⟩ := List.mem_map.mp ht
    exact (hmeets.before (fun s input h hdepth => h.enqueue hdepth) Good.init i).tag_lt row hrow
  · intro k input _ _ ih t ht
    exact (ih t ht).trans_le admitted_le_enqueue

/-- A row queued before and after an enqueue was queued just before it as well. -/
theorem tag_mem_of_enqueue {s : State} (h : Good s) {input : EnqueueClock × Json}
    (hdepth : input.2.depth < rowDepth) {t : ℕ} (ht : t ∈ (enqueueStep env contract s input).tags)
    (hlt : t < s.admitted) : t ∈ s.tags := by
  by_cases hadmits : Admits env contract s input.1 input.2
  · obtain ⟨row', hrow', rfl⟩ := List.mem_map.mp ht
    obtain ⟨row, hrow, rfl⟩ := exists_live_of_mem_enqueue h hadmits hdepth hrow' hlt
    rw [(carries_rerated env row).tag_eq]
    exact (live_sublist env _ s).subset (List.mem_map_of_mem hrow)
  · rwa [enqueueStep, enqueue_of_not_admits hadmits] at ht

section Exact

variable (hexact : env.floats = .exact)
include hexact

variable (env contract) in
theorem standing_enqueued (hdepth : ∀ input ∈ inputs, input.2.depth < rowDepth) (n : ℕ) :
    Standing (enqueued env contract inputs n) := by
  have hmeets : Meets (enqueueStep env contract) (fun _ input => input.2.depth < rowDepth)
      State.init inputs := Meets.of_forall fun input hinput _ => hdepth input hinput
  exact hmeets.before (fun s input h hdepth => h.enqueue hexact hdepth) Standing.init n

/-- **Runs of enqueues keep the order.** -/
theorem keepsOrder_enqueued (hdepth : ∀ input ∈ inputs, input.2.depth < rowDepth) {i j : ℕ}
    (hij : i ≤ j) : KeepsOrder (enqueued env contract inputs i) (enqueued env contract inputs j) := by
  refine before_induction _ (P := KeepsOrder (enqueued env contract inputs i)) hij
    (fun t u hsub _ _ => hsub) ?_
  intro k input hik hinput ih t u hsub ht hu
  have hstanding := standing_enqueued env contract hexact hdepth k
  have hshallow := hdepth input (List.mem_of_getElem? hinput)
  have hmem : ∀ a ∈ [t, u], a ∈ (enqueued env contract inputs k).tags := by
    intro a ha
    refine tag_mem_of_enqueue hstanding.toGood hshallow (hsub.subset ha) (tag_lt_enqueued hdepth hik a ?_)
    rcases List.mem_pair.mp ha with heq | heq <;> rw [heq] <;> assumption
  exact ih t u (keepsOrder_enqueue hexact hstanding hshallow t u hsub (hmem t (by simp)) (hmem u (by simp))) ht hu

/-- **Runs of enqueues keep the ratings** exactly when every event is admitted to a queue
whose live rows have come to rest at zero. -/
theorem keepsRatings_enqueued_iff (hdepth : ∀ input ∈ inputs, input.2.depth < rowDepth) :
    (∀ i j, i ≤ j → KeepsRatings (enqueued env contract inputs i) (enqueued env contract inputs j)) ↔
      ∀ n input, inputs[n]? = some input →
        Admits env contract (enqueued env contract inputs n) input.1 input.2 →
          ∀ row ∈ live env input.1.pruneMs (enqueued env contract inputs n), rowScore row = 0 := by
  have hstanding := fun n => standing_enqueued env contract hexact hdepth n
  constructor
  · intro hkeeps n input hinput
    have hstep := hkeeps n (n + 1) n.le_succ
    rw [enqueued, enqueued, before_succ_of_some _ hinput] at hstep
    exact (keepsRatings_enqueue_iff hexact (hstanding n) (hdepth input (List.mem_of_getElem? hinput))).mp hstep
  · intro hzero i j hij
    refine before_induction _ (P := KeepsRatings (enqueued env contract inputs i)) hij
      (fun row hrow row' hrow' htag => by rw [(hstanding i).toGood.eq_of_tag_eq hrow hrow' htag]) ?_
    intro k input hik hinput ih row hrow row'' hrow'' htag
    have hshallow := hdepth input (List.mem_of_getElem? hinput)
    have hmem : row''.tag ∈ (enqueued env contract inputs k).tags :=
      tag_mem_of_enqueue (hstanding k).toGood hshallow (List.mem_map_of_mem hrow'')
        (htag ▸ tag_lt_enqueued hdepth hik _ (List.mem_map_of_mem hrow))
    obtain ⟨row', hrow', htag'⟩ := List.mem_map.mp hmem
    have hstep := (keepsRatings_enqueue_iff hexact (hstanding k) hshallow).mpr (hzero k input hinput)
    exact (hstep row' hrow' row'' hrow'' htag'.symm).trans (ih row hrow row' hrow' (htag'.trans htag))

end Exact

/-- **Stable priority.**  In exact arithmetic a second priority pass returns its input unchanged exactly when
every event is settled; and in a run of enqueues of events that are not nested to the
limit, two queued rows always keep their order, and the rows keep their ratings exactly
when every event is admitted to a queue whose live rows have come to rest at zero. -/
theorem priority_stable_iff (env : Env) (hexact : env.floats = .exact) (contract : AttentionContract)
    (inputs : List (EnqueueClock × Json)) (hdepth : ∀ input ∈ inputs, input.2.depth < rowDepth)
    (payload : AttentionPriorityInput) :
    (prioritizeAttentionJson .exact ((prioritizeAttentionJson .exact payload).asInput .exact) =
        prioritizeAttentionJson .exact payload ↔ ∀ event ∈ payload.events, Settled event) ∧
    (∀ i j, i ≤ j →
      KeepsOrder (enqueued env contract inputs i) (enqueued env contract inputs j)) ∧
    ((∀ i j, i ≤ j →
        KeepsRatings (enqueued env contract inputs i) (enqueued env contract inputs j)) ↔
      ∀ n input, inputs[n]? = some input →
        Admits env contract (enqueued env contract inputs n) input.1 input.2 →
          ∀ row ∈ live env input.1.pruneMs (enqueued env contract inputs n), rowScore row = 0) :=
  ⟨prioritizeAttentionJson_fixed_iff payload, fun _ _ => keepsOrder_enqueued hexact hdepth,
    keepsRatings_enqueued_iff hexact hdepth⟩

end Run

instance (s s' : State) : Decidable (KeepsRatings s s') :=
  inferInstanceAs (Decidable (∀ row ∈ s.queue, ∀ row' ∈ s'.queue,
    row'.tag = row.tag → rating row'.event = rating row.event))

/-- Scores in exact arithmetic. -/
def exactEnv : Env := { newYearEnv with floats := .exact }

def twoEnqueues : List (EnqueueClock × Json) := [(midnight, bareEvent), (midnight, criticalEvent)]

/-- An event that carries the highest score and nothing else. -/
def boldPayload : AttentionPriorityInput where
  events := [Json.ofFields [("score", Json.ofRat 1)]]
  frontJumpThreshold := none

theorem twoEnqueues_stable_iff :
    (prioritizeAttentionJson .exact ((prioritizeAttentionJson .exact boldPayload).asInput .exact) =
        prioritizeAttentionJson .exact boldPayload ↔ ∀ event ∈ boldPayload.events, Settled event) ∧
    (∀ i j, i ≤ j → KeepsOrder (enqueued exactEnv defaultContract twoEnqueues i)
      (enqueued exactEnv defaultContract twoEnqueues j)) ∧
    ((∀ i j, i ≤ j → KeepsRatings (enqueued exactEnv defaultContract twoEnqueues i)
        (enqueued exactEnv defaultContract twoEnqueues j)) ↔
      ∀ n input, twoEnqueues[n]? = some input →
        Admits exactEnv defaultContract (enqueued exactEnv defaultContract twoEnqueues n)
          input.1 input.2 →
          ∀ row ∈ live exactEnv input.1.pruneMs
            (enqueued exactEnv defaultContract twoEnqueues n), rowScore row = 0) :=
  priority_stable_iff exactEnv rfl defaultContract twoEnqueues (by decide) boldPayload

/-- The second enqueue lowers the score of the row the first one admitted, and a second
pass lowers the score of an event that carries one. -/
theorem twoEnqueues_rating_decays :
    ¬ KeepsRatings (enqueued exactEnv defaultContract twoEnqueues 1)
        (enqueued exactEnv defaultContract twoEnqueues 2) ∧
      prioritizeAttentionJson .exact ((prioritizeAttentionJson .exact boldPayload).asInput .exact) ≠
        prioritizeAttentionJson .exact boldPayload := by
  constructor <;> decide +kernel

end Protheus.AttentionQueue
