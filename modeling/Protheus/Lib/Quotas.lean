import Mathlib.Algebra.Order.Floor.Ring
import Mathlib.Tactic.Linarith

/-!
Two shares that compete for one slot a turn, the first one served before the second.

After `n` turns the first share is owed `⌈n * s₁⌉` slots and the second `⌊n * s₂⌋`.
Whenever a share would fall short of its ceiling after the next turn the turn is
its own, the first share's before the second's.  The second share can so fall
behind its ceiling, but only while every turn goes to one of the two and the first
holds no more than its ceiling: what is carried along a run (`Served`) is that the
two together then hold at least `n * (s₁ + s₂)`.
-/

namespace Protheus.Quotas

variable {K : Type*} [Field K] [LinearOrder K] [IsStrictOrderedRing K] [FloorRing K]
  {s s₁ s₂ : K} {n first second first' second' : ℕ}

/-- What a share is owed after `n` turns, rounded up. -/
def owed (n : ℕ) (s : K) : ℤ := ⌈(n : K) * s⌉

theorem owed_le_succ (h : 0 ≤ s) : owed n s ≤ owed (n + 1) s := by
  refine Int.ceil_le_ceil ?_
  push_cast
  linarith [mul_comm (n : K) s]

theorem owed_succ_le (h : s ≤ 1) : owed (n + 1) s ≤ owed n s + 1 := by
  rw [owed, Int.ceil_le]
  have hceil := Int.le_ceil ((n : K) * s)
  rw [owed]
  push_cast
  linarith

omit [IsStrictOrderedRing K] in
theorem mul_le_of_owed_le {count : ℕ} (h : owed n s ≤ count) : (n : K) * s ≤ count := by
  have hle := Int.ceil_le.mp h
  rwa [Int.cast_natCast] at hle

/-- Both shares have what they are owed, or the first has just that and the two together
hold what the turns make. -/
structure Served (s₁ s₂ : K) (n first second : ℕ) : Prop where
  first_le : owed n s₁ ≤ first
  balance : owed n s₂ ≤ second ∨ (first : ℤ) = owed n s₁ ∧ (n : K) * (s₁ + s₂) ≤ first + second

theorem Served.zero : Served s₁ s₂ 0 0 0 := by
  constructor <;> simp [owed]

/-- The second share is never more than its fraction of a slot behind. -/
theorem Served.floor_le (h : Served s₁ s₂ n first second) : ⌊(n : K) * s₂⌋ ≤ second := by
  rcases h.balance with hle | ⟨heq, hsum⟩
  · exact (Int.floor_le_ceil _).trans hle
  · rw [← Int.lt_add_one_iff, Int.floor_lt]
    have hlt := Int.ceil_lt_add_one ((n : K) * s₁)
    have hfirst : (first : K) = (⌈(n : K) * s₁⌉ : ℤ) := by
      rw [← Int.cast_natCast, heq, owed]
    push_cast
    linarith

/-- A turn of the first share, which would fall short without it. -/
theorem Served.serve_first (h : Served s₁ s₂ n first second) (h₁ : s₁ ≤ 1) (hsum : s₁ + s₂ ≤ 1)
    (hshort : (first : ℤ) < owed (n + 1) s₁) : Served s₁ s₂ (n + 1) (first + 1) second := by
  have hsucc := owed_succ_le (n := n) h₁
  have hle := h.first_le
  have hfirst : ((first + 1 : ℕ) : ℤ) = owed (n + 1) s₁ := by
    push_cast
    omega
  refine ⟨hfirst.ge, .inr ⟨hfirst, ?_⟩⟩
  have hbefore : (n : K) * (s₁ + s₂) ≤ first + second := by
    rcases h.balance with hsecond | ⟨-, hboth⟩
    · linarith [mul_le_of_owed_le hle, mul_le_of_owed_le hsecond]
    · exact hboth
  push_cast
  linarith

/-- A turn of the second share, which the first can do without. -/
theorem Served.serve_second (h : Served s₁ s₂ n first second) (h₁ : 0 ≤ s₁) (h₂ : s₂ ≤ 1)
    (hsum : s₁ + s₂ ≤ 1) (henough : owed (n + 1) s₁ ≤ first) :
    Served s₁ s₂ (n + 1) first (second + 1) := by
  refine ⟨henough, ?_⟩
  rcases h.balance with hsecond | ⟨heq, hboth⟩
  · have hsucc := owed_succ_le (n := n) h₂
    refine .inl ?_
    push_cast
    omega
  · have hmono := owed_le_succ (n := n) h₁
    refine .inr ⟨by omega, ?_⟩
    push_cast
    linarith

omit [IsStrictOrderedRing K] in
/-- A turn of anyone's, which both shares can do without. -/
theorem Served.serve_any (hfirst : owed (n + 1) s₁ ≤ first) (hsecond : owed (n + 1) s₂ ≤ second)
    (hfirst' : first ≤ first') (hsecond' : second ≤ second') :
    Served s₁ s₂ (n + 1) first' second' :=
  ⟨hfirst.trans (Int.ofNat_le.mpr hfirst'), .inl (hsecond.trans (Int.ofNat_le.mpr hsecond'))⟩

end Protheus.Quotas
