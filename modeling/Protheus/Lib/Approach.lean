import Mathlib.Data.Nat.Basic
import Mathlib.Logic.Function.Iterate
import Mathlib.Order.Lattice
import Mathlib.Order.MinMax

/-!
Steps towards a target.

`approach` moves a number by a step towards a target and not past it.  Repeated, it goes
one way, stays on its side of the target, and is there after as many steps as the gap
takes (`iterate_approach_of_le`, `iterate_approach_of_ge`).
-/

namespace Protheus.Approach

/-- One step towards the target. -/
def approach (step target x : ℕ) : ℕ :=
  if x < target then min (x + step) target else max (x - step) target

variable {step target x : ℕ}

theorem approach_of_le (h : x ≤ target) : approach step target x = min (x + step) target := by
  unfold approach
  split <;> omega

theorem approach_of_ge (h : target ≤ x) : approach step target x = max (x - step) target := by
  rw [approach, if_neg (Nat.not_lt.mpr h)]

/-- From below, the steps add up until the target is met. -/
theorem iterate_approach_of_le (h : x ≤ target) : ∀ n : ℕ,
    (approach step target)^[n] x = min (x + n * step) target
  | 0 => by simp [h]
  | n + 1 => by
    rw [Function.iterate_succ_apply', iterate_approach_of_le h n,
      approach_of_le (Nat.min_le_right _ _), Nat.succ_mul]
    omega

/-- From above, they are taken off until it is. -/
theorem iterate_approach_of_ge (h : target ≤ x) : ∀ n : ℕ,
    (approach step target)^[n] x = max (x - n * step) target
  | 0 => by simp [h]
  | n + 1 => by
    rw [Function.iterate_succ_apply', iterate_approach_of_ge h n,
      approach_of_ge (Nat.le_max_right _ _), Nat.succ_mul]
    omega

/-- A step of one or more gets to the target. -/
theorem iterate_approach_eq_target (hstep : 1 ≤ step) {n : ℕ} (hn : target - x + (x - target) ≤ n) :
    (approach step target)^[n] x = target := by
  have hfar : n ≤ n * step := Nat.le_mul_of_pos_right n hstep
  rcases Nat.le_total x target with h | h
  · rw [iterate_approach_of_le h]
    omega
  · rw [iterate_approach_of_ge h]
    omega

/-- A step stays between two bounds that the target and the number lie between. -/
theorem approach_mem {lo hi : ℕ} (hx : lo ≤ x ∧ x ≤ hi) (ht : lo ≤ target ∧ target ≤ hi) :
    lo ≤ approach step target x ∧ approach step target x ≤ hi := by
  unfold approach
  split <;> omega

theorem iterate_approach_mem {lo hi : ℕ} (hx : lo ≤ x ∧ x ≤ hi) (ht : lo ≤ target ∧ target ≤ hi) :
    ∀ n : ℕ, lo ≤ (approach step target)^[n] x ∧ (approach step target)^[n] x ≤ hi
  | 0 => hx
  | n + 1 => by
    rw [Function.iterate_succ_apply']
    exact approach_mem (iterate_approach_mem hx ht n) ht

/-- From below it never falls and never passes the target. -/
theorem iterate_approach_mono (h : x ≤ target) (n : ℕ) :
    (approach step target)^[n] x ≤ (approach step target)^[n + 1] x ∧
      (approach step target)^[n + 1] x ≤ target := by
  rw [iterate_approach_of_le h, iterate_approach_of_le h, Nat.succ_mul]
  omega

/-- From above it never rises and never passes the target. -/
theorem iterate_approach_anti (h : target ≤ x) (n : ℕ) :
    (approach step target)^[n + 1] x ≤ (approach step target)^[n] x ∧
      target ≤ (approach step target)^[n + 1] x := by
  rw [iterate_approach_of_ge h, iterate_approach_of_ge h, Nat.succ_mul]
  omega

end Protheus.Approach
