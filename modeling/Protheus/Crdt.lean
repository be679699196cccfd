import Protheus.Lib.Join

/-!
The last-writer-wins maps of `memory/src/crdt.rs` and
`hybrid_runtime/src/crdt_merge.rs`.

Both crates carry the same cell (`CrdtCell`, `Register`) and the same loop
(`merge`, `merge_state`): clone the left map, and let an incoming cell replace
the existing one when its clock is later, or its clock is the same and its node
name is greater.  The rule compares `(clock, node)` and never the value, so two
cells with one clock and one node are a tie that the left map wins.

`merge_converges_iff` says exactly which sets of maps converge under the two
merges: those in which no key carries two different cells with one clock and
one node.
-/

namespace Protheus.Crdt

open Std (ExtTreeMap)
open Protheus.Join

/-- `crdt.rs::CrdtCell`. -/
structure CrdtCell where
  value : String
  /-- The writer's logical clock. -/
  clock : UInt64
  node : String
  deriving DecidableEq, Repr

/-- `crdt.rs::CrdtMap`. -/
abbrev CrdtMap := ExtTreeMap String CrdtCell

/-- `crdt_merge.rs::Register`. -/
structure Register where
  value : String
  /-- The writer's logical clock. -/
  clock : UInt64
  node : String
  deriving DecidableEq, Repr

/-- `crdt_merge.rs::CrdtState`. -/
abbrev CrdtState := ExtTreeMap String Register

/-! ## The merge loop -/

section Loop

variable {ν : Type*} (clock : ν → UInt64) (node : ν → String)

/-- The guard of both loops: `incoming` has the later clock, or the same clock
and the greater node. -/
def takeIncoming (existing incoming : ν) : Bool :=
  clock incoming > clock existing ||
    (clock incoming == clock existing && node incoming > node existing)

/-- The body of both loops, over the cells of either crate. -/
def mergeBy (left right : ExtTreeMap String ν) : ExtTreeMap String ν :=
  right.foldl (fun out key incoming =>
    match out[key]? with
    | none => out.insert key incoming
    | some existing =>
      if takeIncoming clock node existing incoming then out.insert key incoming else out) left

/-- What the guard compares: the clock first, then the node. -/
def stamp (cell : ν) : ℕ ×ₗ String := toLex ((clock cell).toNat, node cell)

theorem takeIncoming_iff (existing incoming : ν) :
    takeIncoming clock node existing incoming = true ↔
      stamp clock node existing < stamp clock node incoming := by
  simp only [takeIncoming, stamp, Bool.or_eq_true, Bool.and_eq_true, decide_eq_true_eq, beq_iff_eq,
    gt_iff_lt, Prod.Lex.toLex_lt_toLex, UInt64.lt_iff_toNat_lt, UInt64.toNat_inj,
    eq_comm (a := clock incoming)]

theorem stamp_eq_iff (a b : ν) :
    stamp clock node a = stamp clock node b ↔ clock a = clock b ∧ node a = node b := by
  simp [stamp, ← UInt64.toNat_inj]

/-- The loop merges pointwise, keeping the later stamp and the left cell on a tie. -/
theorem mergeBy_pointwise : Pointwise (mergeBy clock node) fun _ => newer (stamp clock node) := by
  intro left right k
  rw [mergeBy, getElem?_foldl (g := fun old incoming => some <| match old with
    | none => incoming
    | some existing => newer (stamp clock node) existing incoming)]
  · cases right[k]? <;> cases left[k]? <;> rfl
  · intro out key incoming
    cases hout : out[key]? with
    | none => simp
    | some existing =>
      simp only [newer, ← takeIncoming_iff]
      split
      · simp
      · simp [hout]
  · intro out key incoming k' hne
    have hcmp : compare key k' ≠ .eq := fun h => hne (Std.LawfulEqOrd.eq_of_compare h)
    cases hout : out[key]? with
    | none => simp [ExtTreeMap.getElem?_insert, hcmp]
    | some existing =>
      simp only
      split
      · simp [ExtTreeMap.getElem?_insert, hcmp]
      · rfl

/-- No key of the maps of `S` carries two different cells with one clock and one node. -/
def Untied (S : Set (ExtTreeMap String ν)) : Prop :=
  ∀ k, ∀ a ∈ valuesAt S k, ∀ b ∈ valuesAt S k, clock a = clock b → node a = node b → a = b

/-- **When last writer wins converges**, for the cells of either crate. -/
theorem mergeBy_converges_iff (S : Set (ExtTreeMap String ν)) :
    Converges (mergeBy clock node) S ↔ Untied clock node S := by
  rw [converges_iff_values (mergeBy_pointwise clock node) fun _ => newer_selective]
  simp only [joinOn_newer_iff, stamp_eq_iff, and_imp, Untied]

end Loop

/-- `crdt.rs::merge`. -/
def merge (left right : CrdtMap) : CrdtMap := mergeBy CrdtCell.clock CrdtCell.node left right

/-- `crdt_merge.rs::merge_state`. -/
def mergeState (left right : CrdtState) : CrdtState := mergeBy Register.clock Register.node left right

/-- **The merges are joins exactly on untied states.**  For every set of maps of
either crate, its merge is commutative, associative and idempotent on them and
replicas that exchange them converge, if and only if no key carries two different
cells that tie on both clock and node. -/
theorem merge_converges_iff (S : Set CrdtMap) (T : Set CrdtState) :
    (Converges merge S ↔ Untied CrdtCell.clock CrdtCell.node S) ∧
      (Converges mergeState T ↔ Untied Register.clock Register.node T) :=
  ⟨mergeBy_converges_iff CrdtCell.clock CrdtCell.node S,
    mergeBy_converges_iff Register.clock Register.node T⟩

/-- One replica's map: node `n1` wrote `alpha` at clock 1. -/
def alphaMap : CrdtMap := (∅ : CrdtMap).insert "topic" ⟨"alpha", 1, "n1"⟩

/-- Another replica's map: the same node and clock, but `beta`. -/
def betaMap : CrdtMap := (∅ : CrdtMap).insert "topic" ⟨"beta", 1, "n1"⟩

/-- `alphaMap` as a state of the hybrid runtime. -/
def alphaState : CrdtState := (∅ : CrdtState).insert "topic" ⟨"alpha", 1, "n1"⟩

/-- `betaMap` as a state of the hybrid runtime. -/
def betaState : CrdtState := (∅ : CrdtState).insert "topic" ⟨"beta", 1, "n1"⟩

/-- On a tie each replica keeps its own value. -/
theorem merge_tied_not_comm :
    merge alphaMap betaMap ≠ merge betaMap alphaMap ∧
      mergeState alphaState betaState ≠ mergeState betaState alphaState := by
  refine ⟨fun h => ?_, fun h => ?_⟩
  · have : (merge alphaMap betaMap)["topic"]? ≠ (merge betaMap alphaMap)["topic"]? := by decide
    exact this (congrArg (·["topic"]?) h)
  · have : (mergeState alphaState betaState)["topic"]? ≠
        (mergeState betaState alphaState)["topic"]? := by decide
    exact this (congrArg (·["topic"]?) h)

end Protheus.Crdt
