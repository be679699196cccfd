import Protheus.Lib.Approach
import Protheus.RustStd

/-!
`plan_scaling` of `swarm_router/src/lib.rs`: how many workers a queue asks for.

The plan clamps the workers and the ceiling of the queue depth over its target, and
moves the first a step towards the second.  Arithmetic is checked: a sum that does not
fit and a division by zero end the process, which is `none` here.  `recommend_eq` says
what is left: one step of `approach`, wherever there is a plan.  `safe_and_converges_iff`
says when the plan is safe and repeated plans converge.
-/

namespace Protheus.SwarmRouter

open Approach

/-- `+` on `usize`, checked. -/
def checkedAdd (a b : UInt64) : Option UInt64 := if a.toNat + b.toNat < 2 ^ 64 then some (a + b) else none

/-- `/` on `usize`, checked. -/
def checkedDiv (a b : UInt64) : Option UInt64 := if b = 0 then none else some (a / b)

/-- `ScalingPolicy`, with its defaults. -/
structure ScalingPolicy where
  minWorkers : UInt64 := 1
  maxWorkers : UInt64 := 32
  /-- How long a queue one worker is there for. -/
  targetQueuePerWorker : UInt64 := 4
  /-- How many workers are started or stopped at a time. -/
  scaleStep : UInt64 := 1

/-- `ScalingDecision`. -/
structure ScalingDecision where
  /-- The workers there are, clamped. -/
  previousWorkers : UInt64
  recommendedWorkers : UInt64
  action : String
  reason : String
  deriving DecidableEq

/-- A number of workers, clamped to the policy's bounds. -/
def ScalingPolicy.clamp (policy : ScalingPolicy) (workers : UInt64) : UInt64 :=
  min (max workers policy.minWorkers) policy.maxWorkers

/-- `plan_scaling`. -/
def planScaling (queueDepth activeWorkers : UInt64) (policy : ScalingPolicy) : Option ScalingDecision := do
  let safeWorkers := policy.clamp activeWorkers
  let filled ← checkedAdd queueDepth (RustStd.satSub policy.targetQueuePerWorker 1)
  let quotient ← checkedDiv filled policy.targetQueuePerWorker
  let desired := policy.clamp quotient
  let why (compared : String) : String :=
    "queue_depth=" ++ toString queueDepth.toNat ++ compared ++
      toString policy.targetQueuePerWorker.toNat ++ " for workers=" ++ toString safeWorkers.toNat
  if desired > safeWorkers then
    let bumped ← checkedAdd safeWorkers policy.scaleStep
    pure {
      previousWorkers := safeWorkers
      recommendedWorkers := min (min bumped desired) policy.maxWorkers
      action := "scale_up"
      reason := why " exceeds target_per_worker=" }
  else if desired < safeWorkers then
    pure {
      previousWorkers := safeWorkers
      recommendedWorkers :=
        max (max (RustStd.satSub safeWorkers policy.scaleStep) desired) policy.minWorkers
      action := "scale_down"
      reason := why " below target_per_worker=" }
  else
    pure {
      previousWorkers := safeWorkers
      recommendedWorkers := safeWorkers
      action := "hold"
      reason := "queue pressure balanced" }

/-- The workers recommended, if there is a plan. -/
def recommend (queueDepth : UInt64) (policy : ScalingPolicy) (activeWorkers : UInt64) : Option UInt64 :=
  (planScaling queueDepth activeWorkers policy).map (·.recommendedWorkers)

/-! ## Numbers -/

/-- `clamp`, on numbers. -/
def ScalingPolicy.bounded (policy : ScalingPolicy) (n : ℕ) : ℕ :=
  min (max n policy.minWorkers.toNat) policy.maxWorkers.toNat

/-- The workers a queue asks for: the clamped ceiling of its depth over the target. -/
def ScalingPolicy.wanted (policy : ScalingPolicy) (queueDepth : UInt64) : ℕ :=
  policy.bounded ((queueDepth.toNat + (policy.targetQueuePerWorker.toNat - 1)) /
    policy.targetQueuePerWorker.toNat)

structure Planned (queueDepth : UInt64) (policy : ScalingPolicy) (workers : ℕ) : Prop where
  /-- The target is not zero. -/
  target : 1 ≤ policy.targetQueuePerWorker.toNat
  /-- The depth and the target fit a number together. -/
  filled : queueDepth.toNat + (policy.targetQueuePerWorker.toNat - 1) < 2 ^ 64
  /-- A step up from the clamped workers fits one. -/
  bumped : policy.bounded workers < policy.wanted queueDepth →
    policy.bounded workers + policy.scaleStep.toNat < 2 ^ 64

section Plan

variable {queueDepth activeWorkers : UInt64} {policy : ScalingPolicy}

theorem toNat_clamp (workers : UInt64) : (policy.clamp workers).toNat = policy.bounded workers.toNat := by
  rw [ScalingPolicy.clamp, UInt64.toNat_min, UInt64.toNat_max, ScalingPolicy.bounded]

theorem toNat_add_of_lt {a b : UInt64} (h : a.toNat + b.toNat < 2 ^ 64) :
    (a + b).toNat = a.toNat + b.toNat := by
  rw [UInt64.toNat_add, Nat.mod_eq_of_lt h]

theorem bounded_le_max (n : ℕ) : policy.bounded n ≤ policy.maxWorkers.toNat := Nat.min_le_right _ _

/-- Where two clamped numbers differ, the bounds are in order. -/
theorem min_le_max_of_ne {m n : ℕ} (h : policy.bounded m ≠ policy.bounded n) :
    policy.minWorkers.toNat ≤ policy.maxWorkers.toNat := by
  unfold ScalingPolicy.bounded at h
  omega

/-- What the plan moves to. -/
theorem toNat_desired (hfilled : queueDepth.toNat + (policy.targetQueuePerWorker.toNat - 1) < 2 ^ 64) :
    (policy.clamp ((queueDepth + RustStd.satSub policy.targetQueuePerWorker 1) /
      policy.targetQueuePerWorker)).toNat = policy.wanted queueDepth := by
  have hpred : (RustStd.satSub policy.targetQueuePerWorker 1).toNat =
      policy.targetQueuePerWorker.toNat - 1 := RustStd.toNat_satSub _ _
  rw [toNat_clamp, UInt64.toNat_div, toNat_add_of_lt (by rwa [hpred]), hpred, ScalingPolicy.wanted]

/-- Without a target, or with a depth too large for it, there is no plan. -/
theorem recommend_eq_none (h : ¬ (1 ≤ policy.targetQueuePerWorker.toNat ∧
    queueDepth.toNat + (policy.targetQueuePerWorker.toNat - 1) < 2 ^ 64)) :
    recommend queueDepth policy activeWorkers = none := by
  have hpred : (RustStd.satSub policy.targetQueuePerWorker 1).toNat =
      policy.targetQueuePerWorker.toNat - 1 := RustStd.toNat_satSub _ _
  unfold recommend planScaling checkedAdd
  rw [hpred]
  by_cases hfilled : queueDepth.toNat + (policy.targetQueuePerWorker.toNat - 1) < 2 ^ 64
  · have hzero : policy.targetQueuePerWorker = 0 := by
      refine UInt64.toNat_inj.mp ?_
      rw [UInt64.toNat_zero]
      omega
    simp [hzero, checkedDiv]
  · rw [if_neg hfilled]
    rfl

/-- With both there is one, unless a step up does not fit. -/
theorem recommend_of_filled (htarget : 1 ≤ policy.targetQueuePerWorker.toNat)
    (hfilled : queueDepth.toNat + (policy.targetQueuePerWorker.toNat - 1) < 2 ^ 64) :
    (recommend queueDepth policy activeWorkers).map UInt64.toNat =
      if policy.bounded activeWorkers.toNat < policy.wanted queueDepth ∧
          2 ^ 64 ≤ policy.bounded activeWorkers.toNat + policy.scaleStep.toNat then none
      else some (approach policy.scaleStep.toNat (policy.wanted queueDepth)
        (policy.bounded activeWorkers.toNat)) := by
  have hpred : (RustStd.satSub policy.targetQueuePerWorker 1).toNat =
      policy.targetQueuePerWorker.toNat - 1 := RustStd.toNat_satSub _ _
  have htarget' : policy.targetQueuePerWorker ≠ 0 := by
    rintro h
    rw [h] at htarget
    exact absurd htarget (by decide)
  have hdesired := toNat_desired hfilled
  have hsafe := @toNat_clamp policy activeWorkers
  have hmax := @bounded_le_max policy ((queueDepth.toNat + (policy.targetQueuePerWorker.toNat - 1)) /
    policy.targetQueuePerWorker.toNat)
  rw [← ScalingPolicy.wanted] at hmax
  unfold recommend planScaling
  simp only [checkedAdd, checkedDiv, hpred, hfilled, htarget', if_true, if_false, Option.bind_eq_bind,
    Option.bind_some]
  generalize policy.clamp ((queueDepth + RustStd.satSub policy.targetQueuePerWorker 1) /
    policy.targetQueuePerWorker) = desired at hdesired
  generalize policy.clamp activeWorkers = safe at hsafe
  have hne := @min_le_max_of_ne policy activeWorkers.toNat
    ((queueDepth.toNat + (policy.targetQueuePerWorker.toNat - 1)) / policy.targetQueuePerWorker.toNat)
  have hmin : policy.minWorkers.toNat ≤ policy.maxWorkers.toNat →
      policy.minWorkers.toNat ≤ policy.wanted queueDepth := by
    intro h
    unfold ScalingPolicy.wanted ScalingPolicy.bounded
    omega
  rw [← ScalingPolicy.wanted] at hne
  rw [← hdesired] at hmax hmin hne ⊢
  rw [← hsafe] at hne ⊢
  unfold approach
  by_cases hup : desired > safe
  · have hlt := UInt64.lt_iff_toNat_lt.mp hup
    rw [if_pos hup]
    by_cases hfit : safe.toNat + policy.scaleStep.toNat < 2 ^ 64
    · rw [if_pos hfit, if_neg (by omega), if_pos hlt]
      simp only [Option.bind_some, Option.pure_def, Option.map_some, UInt64.toNat_min, toNat_add_of_lt hfit]
      congr 1
      omega
    · rw [if_neg hfit, if_pos ⟨hlt, Nat.le_of_not_lt hfit⟩]
      rfl
  · have hle := UInt64.le_iff_toNat_le.mp (UInt64.not_lt.mp hup)
    have hnot : ¬ safe.toNat < desired.toNat := Nat.not_lt.mpr hle
    have hstays : ¬ (safe.toNat < desired.toNat ∧ 2 ^ 64 ≤ safe.toNat + policy.scaleStep.toNat) :=
      fun h => hnot h.1
    rw [if_neg hup, if_neg hstays, if_neg hnot]
    by_cases hdown : desired < safe
    · have hlt := UInt64.lt_iff_toNat_lt.mp hdown
      have hmin' := hmin (hne (by omega))
      rw [if_pos hdown]
      simp only [Option.pure_def, Option.map_some, UInt64.toNat_max, RustStd.toNat_satSub]
      congr 1
      omega
    · have heq : desired = safe :=
        UInt64.le_antisymm (UInt64.not_lt.mp hup) (UInt64.not_lt.mp hdown)
      rw [if_neg hdown, heq]
      simp only [Option.pure_def, Option.map_some]
      congr 1
      omega

/-- **What a plan recommends.**  There is one exactly where the arithmetic fits, and then the workers it
recommends are the clamped ones, a step nearer to those the queue asks for. -/
theorem recommend_eq {workers : UInt64} : recommend queueDepth policy activeWorkers = some workers ↔
    Planned queueDepth policy activeWorkers.toNat ∧
      workers.toNat = approach policy.scaleStep.toNat (policy.wanted queueDepth)
        (policy.bounded activeWorkers.toNat) := by
  by_cases hfits : 1 ≤ policy.targetQueuePerWorker.toNat ∧
      queueDepth.toNat + (policy.targetQueuePerWorker.toNat - 1) < 2 ^ 64
  · have hnat := @recommend_of_filled queueDepth activeWorkers policy hfits.1 hfits.2
    by_cases hover : policy.bounded activeWorkers.toNat < policy.wanted queueDepth ∧
        2 ^ 64 ≤ policy.bounded activeWorkers.toNat + policy.scaleStep.toNat
    · rw [if_pos hover, Option.map_eq_none_iff] at hnat
      rw [hnat]
      refine ⟨fun h => (by cases h), fun h => ?_⟩
      have := h.1.bumped hover.1
      omega
    · rw [if_neg hover] at hnat
      obtain ⟨found, hfound, hfoundNat⟩ := Option.map_eq_some_iff.mp hnat
      rw [hfound, ← hfoundNat]
      constructor
      · rintro h
        cases h
        exact ⟨⟨hfits.1, hfits.2, fun hlt => Nat.lt_of_not_le fun hle => hover ⟨hlt, hle⟩⟩, rfl⟩
      · rintro ⟨-, h⟩
        rw [UInt64.toNat_inj.mp h]
  · rw [recommend_eq_none hfits]
    exact ⟨fun h => (by cases h), fun h => absurd ⟨h.1.target, h.1.filled⟩ hfits⟩

end Plan

/-! ## Plans fed back -/

/-- Recommendations fed back as the worker count stay within the bounds, go one way, never pass the
workers the queue asks for, and come to them. -/
def Settles (queueDepth activeWorkers : UInt64) (policy : ScalingPolicy) : Prop :=
  ∃ workers : ℕ → UInt64, workers 0 = activeWorkers ∧
    (∀ n, recommend queueDepth policy (workers n) = some (workers (n + 1))) ∧
    (∀ n, policy.minWorkers ≤ workers (n + 1) ∧ workers (n + 1) ≤ policy.maxWorkers) ∧
    ((∀ n, workers n ≤ workers (n + 1) ∧ (workers (n + 1)).toNat ≤ policy.wanted queueDepth) ∨
      (∀ n, workers (n + 1) ≤ workers n ∧ policy.wanted queueDepth ≤ (workers (n + 1)).toNat)) ∧
    ∃ reached, ∀ n ≥ reached, (workers n).toNat = policy.wanted queueDepth

/-- The plan is safe, and under bounds in order and a step of one or more it settles. -/
def SafeAndConverges (queueDepth activeWorkers : UInt64) (policy : ScalingPolicy) : Prop :=
  (planScaling queueDepth activeWorkers policy).isSome = true ∧
    (policy.minWorkers ≤ policy.maxWorkers → 1 ≤ policy.scaleStep →
      Settles queueDepth activeWorkers policy)

/-- What the arithmetic needs: a target, a depth that fits with it, and room for the last step up. -/
structure Fits (queueDepth activeWorkers : UInt64) (policy : ScalingPolicy) : Prop where
  /-- The target is not zero. -/
  target : 1 ≤ policy.targetQueuePerWorker.toNat
  /-- The depth and the target fit a number together. -/
  filled : queueDepth.toNat + (policy.targetQueuePerWorker.toNat - 1) < 2 ^ 64
  /-- The step up that meets the target fits one. -/
  bumped : policy.bounded activeWorkers.toNat < policy.wanted queueDepth →
    policy.bounded activeWorkers.toNat + policy.scaleStep.toNat *
      ((policy.wanted queueDepth - policy.bounded activeWorkers.toNat + (policy.scaleStep.toNat - 1)) /
        policy.scaleStep.toNat) < 2 ^ 64

section Feedback

variable {queueDepth activeWorkers : UInt64} {policy : ScalingPolicy}

theorem wanted_le_max : policy.wanted queueDepth ≤ policy.maxWorkers.toNat := bounded_le_max _

theorem bounded_mem (hbounds : policy.minWorkers ≤ policy.maxWorkers) (n : ℕ) :
    policy.minWorkers.toNat ≤ policy.bounded n ∧ policy.bounded n ≤ policy.maxWorkers.toNat := by
  rw [UInt64.le_iff_toNat_le] at hbounds
  unfold ScalingPolicy.bounded
  omega

theorem wanted_mem (hbounds : policy.minWorkers ≤ policy.maxWorkers) :
    policy.minWorkers.toNat ≤ policy.wanted queueDepth ∧
      policy.wanted queueDepth ≤ policy.maxWorkers.toNat := bounded_mem hbounds _

theorem bounded_of_mem {n : ℕ} (h : policy.minWorkers.toNat ≤ n ∧ n ≤ policy.maxWorkers.toNat) :
    policy.bounded n = n := by
  unfold ScalingPolicy.bounded
  omega

theorem toNat_ofNat_of_le_max {n : ℕ} (h : n ≤ policy.maxWorkers.toNat) : (UInt64.ofNat n).toNat = n :=
  UInt64.toNat_ofNat_of_lt' (Nat.lt_of_le_of_lt h policy.maxWorkers.toNat_lt)

theorem planScaling_isSome : (planScaling queueDepth activeWorkers policy).isSome = true ↔
    Planned queueDepth policy activeWorkers.toNat := by
  have hmap : (recommend queueDepth policy activeWorkers).isSome =
      (planScaling queueDepth activeWorkers policy).isSome := Option.isSome_map
  rw [← hmap, Option.isSome_iff_exists]
  constructor
  · rintro ⟨workers, h⟩
    exact (recommend_eq.mp h).1
  · intro h
    have hle : approach policy.scaleStep.toNat (policy.wanted queueDepth)
        (policy.bounded activeWorkers.toNat) ≤ policy.maxWorkers.toNat :=
      (approach_mem ⟨Nat.zero_le _, bounded_le_max _⟩ ⟨Nat.zero_le _, wanted_le_max⟩).2
    exact ⟨_, recommend_eq.mpr ⟨h, toNat_ofNat_of_le_max hle⟩⟩

/-- The steps before the target is met are those that fall short of the gap. -/
theorem lt_steps_iff {gap step n : ℕ} (hstep : 1 ≤ step) : n < (gap + (step - 1)) / step ↔ n * step < gap := by
  rw [Nat.lt_iff_add_one_le, Nat.le_div_iff_mul_le hstep, Nat.succ_mul]
  omega

/-- The clamped workers of a run of plans. -/
theorem bounded_run {workers : ℕ → UInt64} (hbounds : policy.minWorkers ≤ policy.maxWorkers)
    (hrun : ∀ n, recommend queueDepth policy (workers n) = some (workers (n + 1))) : ∀ n,
    policy.bounded (workers n).toNat = (approach policy.scaleStep.toNat (policy.wanted queueDepth))^[n]
      (policy.bounded (workers 0).toNat)
  | 0 => rfl
  | n + 1 => by
    have hnext := (recommend_eq.mp (hrun n)).2
    rw [bounded_run hbounds hrun n,
      ← Function.iterate_succ_apply' (approach policy.scaleStep.toNat (policy.wanted queueDepth))] at hnext
    rw [hnext]
    exact bounded_of_mem (iterate_approach_mem (bounded_mem hbounds _) (wanted_mem hbounds) _)

/-- In a run of plans every step up fits, the one that meets the target with them. -/
theorem fits_of_settles (hplanned : Planned queueDepth policy activeWorkers.toNat)
    (hsettles : policy.minWorkers ≤ policy.maxWorkers → 1 ≤ policy.scaleStep →
      Settles queueDepth activeWorkers policy) : Fits queueDepth activeWorkers policy := by
  refine ⟨hplanned.target, hplanned.filled, fun hup => ?_⟩
  have hbounds : policy.minWorkers ≤ policy.maxWorkers :=
    UInt64.le_iff_toNat_le.mpr (min_le_max_of_ne (Nat.ne_of_lt hup))
  rcases Nat.eq_zero_or_pos policy.scaleStep.toNat with hzero | hstep
  · rw [hzero, Nat.zero_mul, Nat.add_zero]
    exact Nat.lt_of_le_of_lt (bounded_le_max _) policy.maxWorkers.toNat_lt
  · obtain ⟨workers, hstart, hrun, -⟩ := hsettles hbounds (UInt64.le_iff_toNat_le.mpr hstep)
    -- The last plan before the target is met.
    obtain ⟨last, hlast⟩ : ∃ last, last + 1 = (policy.wanted queueDepth -
        policy.bounded activeWorkers.toNat + (policy.scaleStep.toNat - 1)) / policy.scaleStep.toNat := by
      have hpos := (@lt_steps_iff (policy.wanted queueDepth - policy.bounded activeWorkers.toNat) _ 0
        hstep).mpr (by omega)
      exact ⟨_, Nat.sub_add_cancel hpos⟩
    have hshort := (lt_steps_iff hstep).mp (Nat.lt_of_succ_le (Nat.le_of_eq hlast))
    have hat := bounded_run hbounds hrun last
    rw [hstart, iterate_approach_of_le (Nat.le_of_lt hup)] at hat
    have hfit := (recommend_eq.mp (hrun last)).1.bumped (by omega)
    rw [← hlast, Nat.mul_succ, Nat.mul_comm]
    omega

/-- Where the arithmetic fits, it does at every step. -/
theorem planned_of_fits (hfits : Fits queueDepth activeWorkers policy) {workers n : ℕ}
    (hworkers : policy.bounded workers = (approach policy.scaleStep.toNat (policy.wanted queueDepth))^[n]
      (policy.bounded activeWorkers.toNat)) : Planned queueDepth policy workers := by
  refine ⟨hfits.target, hfits.filled, fun hup => ?_⟩
  rw [hworkers] at hup ⊢
  rcases Nat.le_total (policy.wanted queueDepth) (policy.bounded activeWorkers.toNat) with hge | hle
  · rw [iterate_approach_of_ge hge] at hup
    omega
  · rw [iterate_approach_of_le hle] at hup ⊢
    rcases Nat.eq_zero_or_pos policy.scaleStep.toNat with hzero | hstep
    · have hmax := @bounded_le_max policy activeWorkers.toNat
      have := policy.maxWorkers.toNat_lt
      rw [hzero, Nat.mul_zero] at hup ⊢
      omega
    · have hfit := hfits.bumped (by omega)
      have hshort := (lt_steps_iff hstep).mpr
        (show n * policy.scaleStep.toNat < policy.wanted queueDepth - policy.bounded activeWorkers.toNat by
          omega)
      have hmono := Nat.mul_le_mul_left policy.scaleStep.toNat (Nat.succ_le_of_lt hshort)
      rw [Nat.mul_succ, Nat.mul_comm _ n] at hmono
      omega

/-- The workers of a run of plans: those there are, and then the recommended ones. -/
def fedBack (queueDepth activeWorkers : UInt64) (policy : ScalingPolicy) : ℕ → UInt64
  | 0 => activeWorkers
  | n + 1 => UInt64.ofNat ((approach policy.scaleStep.toNat (policy.wanted queueDepth))^[n + 1]
      (policy.bounded activeWorkers.toNat))

theorem toNat_fedBack_succ (n : ℕ) : (fedBack queueDepth activeWorkers policy (n + 1)).toNat =
    (approach policy.scaleStep.toNat (policy.wanted queueDepth))^[n + 1]
      (policy.bounded activeWorkers.toNat) :=
  toNat_ofNat_of_le_max (iterate_approach_mem ⟨Nat.zero_le _, bounded_le_max _⟩
    ⟨Nat.zero_le _, wanted_le_max⟩ (n + 1)).2

/-- Where the arithmetic fits, repeated plans settle. -/
theorem settles_of_fits (hfits : Fits queueDepth activeWorkers policy)
    (hbounds : policy.minWorkers ≤ policy.maxWorkers) (hstep : 1 ≤ policy.scaleStep) :
    Settles queueDepth activeWorkers policy := by
  have hmem := @iterate_approach_mem policy.scaleStep.toNat (policy.wanted queueDepth) _ _ _
    (bounded_mem hbounds activeWorkers.toNat) (wanted_mem hbounds)
  have hclamped : ∀ n, policy.bounded (fedBack queueDepth activeWorkers policy n).toNat =
      (approach policy.scaleStep.toNat (policy.wanted queueDepth))^[n]
        (policy.bounded activeWorkers.toNat) := by
    rintro (_ | n)
    · rfl
    · rw [toNat_fedBack_succ, bounded_of_mem (hmem (n + 1))]
  refine ⟨fedBack queueDepth activeWorkers policy, rfl, fun n => ?_, fun n => ?_, ?_, ?_⟩
  · refine recommend_eq.mpr ⟨planned_of_fits hfits (hclamped n), ?_⟩
    rw [toNat_fedBack_succ, hclamped n, Function.iterate_succ_apply']
  · rw [UInt64.le_iff_toNat_le, UInt64.le_iff_toNat_le, toNat_fedBack_succ]
    exact hmem (n + 1)
  · -- The clamped workers are on the same side of the wanted ones as the workers are.
    have hsafe : (activeWorkers.toNat ≤ policy.wanted queueDepth →
          activeWorkers.toNat ≤ policy.bounded activeWorkers.toNat ∧
            policy.bounded activeWorkers.toNat ≤ policy.wanted queueDepth) ∧
        (policy.wanted queueDepth ≤ activeWorkers.toNat →
          policy.bounded activeWorkers.toNat ≤ activeWorkers.toNat ∧
            policy.wanted queueDepth ≤ policy.bounded activeWorkers.toNat) := by
      have hwanted := @wanted_mem queueDepth policy hbounds
      unfold ScalingPolicy.bounded
      omega
    simp only [UInt64.le_iff_toNat_le]
    rcases Nat.le_total activeWorkers.toNat (policy.wanted queueDepth) with hle | hge
    · refine .inl fun n => ?_
      obtain ⟨hle', hsafe'⟩ := hsafe.1 hle
      have hmono := @iterate_approach_mono policy.scaleStep.toNat _ _ hsafe' n
      cases n with
      | zero => exact ⟨hle'.trans (toNat_fedBack_succ 0 ▸ hmono.1), toNat_fedBack_succ 0 ▸ hmono.2⟩
      | succ n =>
        rw [toNat_fedBack_succ, toNat_fedBack_succ]
        exact hmono
    · refine .inr fun n => ?_
      obtain ⟨hge', hsafe'⟩ := hsafe.2 hge
      have hanti := @iterate_approach_anti policy.scaleStep.toNat _ _ hsafe' n
      cases n with
      | zero => exact ⟨le_trans (toNat_fedBack_succ 0 ▸ hanti.1) hge', toNat_fedBack_succ 0 ▸ hanti.2⟩
      | succ n =>
        rw [toNat_fedBack_succ, toNat_fedBack_succ]
        exact hanti
  · refine ⟨policy.wanted queueDepth - policy.bounded activeWorkers.toNat +
      (policy.bounded activeWorkers.toNat - policy.wanted queueDepth) + 1, fun n hn => ?_⟩
    obtain ⟨m, rfl⟩ : ∃ m, n = m + 1 := ⟨n - 1, by omega⟩
    rw [toNat_fedBack_succ]
    exact iterate_approach_eq_target (UInt64.le_iff_toNat_le.mp hstep) (by omega)

/-- **When autoscaling is safe and converges.**  A plan neither divides by zero nor overflows, and
under bounds in order and a step of one or more its recommendations, fed back, stay within them, go one
way, never pass the clamped ceiling of the depth over the target and come to it, exactly where the
target is not zero, the depth and the target fit a number together, and so does the step up that meets
the target. -/
theorem safe_and_converges_iff (queueDepth activeWorkers : UInt64) (policy : ScalingPolicy) :
    SafeAndConverges queueDepth activeWorkers policy ↔ Fits queueDepth activeWorkers policy := by
  constructor
  · rintro ⟨hsome, hsettles⟩
    exact fits_of_settles (planScaling_isSome.mp hsome) hsettles
  · exact fun hfits => ⟨planScaling_isSome.mpr (@planned_of_fits _ _ _ hfits _ 0 rfl),
      settles_of_fits hfits⟩

end Feedback

/-- Under the default policy a depth of ten asks for three workers. -/
theorem safe_and_converges_guard : SafeAndConverges 10 7 {} :=
  (safe_and_converges_iff 10 7 {}).mpr ⟨by decide, by decide, by decide⟩

/-- A target of zero divides by zero, and a depth near the largest number overflows. -/
theorem plan_fails : planScaling 0 1 { targetQueuePerWorker := 0 } = none ∧
    planScaling (-1) 1 {} = none := by
  decide

end Protheus.SwarmRouter
