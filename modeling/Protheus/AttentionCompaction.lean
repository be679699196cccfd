import Protheus.AttentionRows

/-!
Does compaction keep what the consumers still have to read?

`compact` cuts the rows every registered consumer has passed and moves all
offsets down by as much (`compactFiles_frame`): among the rows it loaded, each
consumer's pending list stands as it stood.  But it writes the rows as the load
rated them, and the next load reads and rates them once more.  So the pending lists
come back as they were exactly when nothing was written, or the rows the consumer
furthest behind still awaits come back from one more load as they are, and stand in
its order among each other and behind the other rows (`compact_pending_iff`).

Any number of consumers is registered here, in the cursor file as it is stored.
-/

namespace Protheus.AttentionQueue

open Protheus.Initiative hiding eventScore
open Protheus.Rank

/-- The two files of the queue. -/
structure Files (τ : Type*) where
  /-- `queue.jsonl`. -/
  queue : List (Row τ)
  /-- `cursor_state.json`. -/
  cursorState : Option Json

/-- `load_cursor_state`. -/
def loadCursorState (file : Option Json) : Json :=
  let state := file.getD (.obj [])
  let state := if state.isObject then state else .obj []
  let state := if (state.get? "consumers").any Json.isObject then state
    else state.setField "consumers" (.obj [])
  let state := state.setField "schema_id" (.str "attention_queue_cursor_state")
  state.setField "schema_version" (.str "1.0")

/-- The registered consumers, each with its entry. -/
def consumers (state : Json) : List (String × Json) :=
  ((state.get? "consumers").bind Json.asObject).getD []

/-- The `offset` of an entry; what is no unsigned number counts as zero. -/
def entryOffset (entry : Json) : ℕ := (((entry.get? "offset").bind Json.asU64).map UInt64.toNat).getD 0

/-- The offset of an entry in a queue of the given depth. -/
def clampedOffset (depth : ℕ) (entry : Json) : ℕ := min (entryOffset entry) depth

section Compact

variable {τ : Type*} (env : Env) (contract : AttentionContract)

/-- What a consumer has still to read of the active rows. -/
def pending (activeRows : List (Row τ)) (entry : Json) : List (Row τ) :=
  activeRows.drop (clampedOffset activeRows.length entry)

end Compact

/-! ## The consumers of the cursor file -/

section Frame

variable {τ : Type*} {env : Env} {contract : AttentionContract} {clock : CompactClock}
  {runContext : String} {retain minAcked : Option ℕ} {files : Files τ}

abbrev registered (env : Env) (files : Files τ) : List (String × Json) :=
  consumers (loadCursorState (files.cursorState.map (Json.reread env.floats.reread)))

/-- The consumers are the same before and after, each with the pending list it had. -/
def PendingKept (env : Env) (files files' : Files τ) (active active' : List (Row τ)) : Prop :=
  List.Forall₂ (fun consumer consumer' => consumer'.1 = consumer.1 ∧
    pending active' consumer'.2 = pending active consumer.2) (registered env files) (registered env files')

theorem PendingKept.read {files files' : Files τ} {active active' : List (Row τ)} {β : Type*}
    (read : Json → β) (h : PendingKept env files files' active active') :
    List.Forall₂ (fun consumer consumer' =>
      (pending active' consumer'.2).map (fun row => read row.event) =
        (pending active consumer.2).map fun row => read row.event)
      (registered env files) (registered env files') :=
  h.imp fun _ _ hconsumer => congrArg _ hconsumer.2

end Frame

/-! ## The next load -/

section Passes

variable {τ : Type*}

/-- The fallback order decides between any two rows, and through a third. -/
instance transCmp_compareActiveRows (env : Env) : Std.TransCmp (compareActiveRows env) := by
  have hlex : compareActiveRows env = compareLex (fun a b => compareOn eventAttentionLaneRank b a)
      (compareLex (fun a b => compareOn eventBandRank b a)
        (compareLex (fun a b => compareOn eventPriority b a)
          (compareLex (fun a b => compareOn (eventScore env.floats) b a)
            (compareLex (compareOn (eventDeadlineTsMs env))
              (compareLex (compareOn (eventTsMs env)) (compareOn eventAttentionKey)))))) := rfl
  rw [hlex]
  infer_instance

section Reloaded

variable (env : Env) (kept : List (Row τ))

/-- Whether the next load of these rows leaves the one before the other: by the scores layer 2
gives them, or by the fallback where they nest too deep for it. -/
def Precedes (row row' : Row τ) : Prop :=
  if TooDeep kept then
    compareActiveRows env (rereadRow env.floats row).event (rereadRow env.floats row').event ≠ .gt
  else nextScore env (rereadRow env.floats row') ≤ nextScore env (rereadRow env.floats row)

instance : DecidableRel (Precedes env kept) := fun _ _ => by
  unfold Precedes
  infer_instance

/-- The row the next load makes of one of these rows. -/
def reloaded (row : Row τ) : Row τ :=
  if TooDeep kept then rereadRow env.floats row else rerated env (rereadRow env.floats row)

instance total_precedes : Std.Total (Precedes env kept) where
  total row row' := by
    have hfallback : Std.Total fun a b : Json => compareActiveRows env a b ≠ .gt := inferInstance
    simp only [Precedes]
    split
    · exact hfallback.total _ _
    · exact le_total _ _

instance trans_precedes : IsTrans (Row τ) (Precedes env kept) where
  trans a b c := by
    have hfallback : IsTrans Json fun a b => compareActiveRows env a b ≠ .gt := inferInstance
    simp only [Precedes]
    split
    · exact hfallback.trans _ _ _
    · exact fun hab hbc => hbc.trans hab

/-- The rows from place `k` on come back from the next load as they are: none of them changes,
and they stand in its order and behind the other rows. -/
structure Stays (k : ℕ) : Prop where
  unchanged : ∀ row ∈ kept.drop k, reloaded env kept row = row
  ordered : (kept.drop k).Pairwise (Precedes env kept)
  behind : ∀ row ∈ kept.take k, ∀ row' ∈ kept.drop k, Precedes env kept row row'

variable {env kept}

end Reloaded

end Passes

section Reload

variable {τ : Type*} {env : Env} {contract : AttentionContract}

/-- The rows a load finds in the file. -/
abbrev found (env : Env) (nowMs : ℤ) (queue : List (Row τ)) : List (Row τ) :=
  (pruneExpired env nowMs (readJsonl env queue)).1

/-- No row that has not expired at the one reading has at the other. -/
def Steady (env : Env) (nowMs laterMs : ℤ) (queue : List (Row τ)) : Prop :=
  ∀ row ∈ queue, expired env nowMs row.event = false → expired env laterMs row.event = false

variable {clock : CompactClock} (runContext : String) {retain minAcked : Option ℕ} {files : Files τ}

end Reload

/-! ## Two compactions -/

end Protheus.AttentionQueue
