import Mathlib.Data.List.Chain
import Mathlib.Order.Interval.Finset.Nat

/-!
Windows of a fixed size moved over a row of places, each starting a lap before the end of
the one before it; the last one is cut off at the end of the row.

`Sweep` is how such windows come one after the other.  With a lap shorter than the size
there is a sweep from every place (`exists_sweep`), it starts further on each time, and it
leaves no place out.
-/

namespace Protheus

/-- The windows from a place to the end of the row. -/
inductive Sweep (n size lap : ℕ) : ℕ → List (ℕ × ℕ) → Prop
  | last {start : ℕ} (hstart : start < n) (hend : n ≤ start + size) :
      Sweep n size lap start [(start, n)]
  | next {start : ℕ} {rest : List (ℕ × ℕ)} (hmore : start + size < n)
      (hrest : Sweep n size lap (start + size - lap) rest) :
      Sweep n size lap start ((start, start + size) :: rest)

section Sweep

variable {n size lap start : ℕ} {windows : List (ℕ × ℕ)}

/-- There are windows from every place. -/
theorem exists_sweep (hlap : lap < size) (h : start < n) : ∃ windows, Sweep n size lap start windows := by
  induction hleft : n - start using Nat.strong_induction_on generalizing start with
  | _ left ih =>
    by_cases hmore : start + size < n
    · obtain ⟨rest, hrest⟩ :=
        @ih (n - (start + size - lap)) (by omega) (start + size - lap) (by omega) rfl
      exact ⟨_, .next hmore hrest⟩
    · exact ⟨_, .last h (by omega)⟩

namespace Sweep

/-- The first window. -/
theorem eq_cons (h : Sweep n size lap start windows) :
    ∃ rest, windows = (start, min (start + size) n) :: rest := by
  cases h with
  | last hstart hend => exact ⟨[], by rw [min_eq_right hend]⟩
  | next hmore hrest => exact ⟨_, by rw [min_eq_left hmore.le]⟩

/-- The last window reaches the end. -/
theorem getLast?_eq (h : Sweep n size lap start windows) : ∃ w, windows.getLast? = some w ∧ w.2 = n := by
  induction h with
  | last => exact ⟨_, rfl, rfl⟩
  | next hmore hrest ih =>
    obtain ⟨w, hw, hend⟩ := ih
    refine ⟨w, ?_, hend⟩
    rw [List.getLast?_cons, hw]
    rfl

/-- Every window lies in the row. -/
theorem within (hlap : lap < size) (h : Sweep n size lap start windows) :
    ∀ w ∈ windows, w.1 < w.2 ∧ w.2 ≤ n ∧ w.2 ≤ w.1 + size := by
  induction h with
  | last hstart hend => exact List.forall_mem_singleton.mpr ⟨hstart, le_rfl, hend⟩
  | next hmore hrest ih =>
    exact List.forall_mem_cons.mpr ⟨⟨by dsimp only; omega, hmore.le, le_rfl⟩, ih⟩

theorem start_le (hlap : lap < size) (h : Sweep n size lap start windows) :
    ∀ w ∈ windows, start ≤ w.1 := by
  induction h with
  | last => exact List.forall_mem_singleton.mpr le_rfl
  | next hmore hrest ih =>
    refine List.forall_mem_cons.mpr ⟨le_rfl, fun w hw => ?_⟩
    have hw := ih w hw
    omega

/-- There are no more windows than places left. -/
theorem length_le (hlap : lap < size) (h : Sweep n size lap start windows) :
    windows.length ≤ n - start := by
  induction h with
  | last hstart hend =>
    rw [List.length_singleton]
    omega
  | next hmore hrest ih =>
    rw [List.length_cons]
    omega

/-- Each window starts further on. -/
theorem ascending (hlap : lap < size) (h : Sweep n size lap start windows) :
    windows.Pairwise fun a b => a.1 < b.1 := by
  induction h with
  | last => exact List.pairwise_singleton _ _
  | next hmore hrest ih =>
    refine List.pairwise_cons.mpr ⟨fun w hw => ?_, ih⟩
    have hw := hrest.start_le hlap w hw
    dsimp only
    omega

/-- **No place is left out.** -/
theorem covers (h : Sweep n size lap start windows) {i : ℕ} (hi : start ≤ i) (hn : i < n) :
    ∃ w ∈ windows, w.1 ≤ i ∧ i < w.2 := by
  induction h with
  | last => exact ⟨_, List.mem_singleton_self _, hi, hn⟩
  | @next start rest hmore hrest ih =>
    by_cases hfirst : i < start + size
    · exact ⟨_, List.mem_cons_self, hi, hfirst⟩
    · obtain ⟨w, hw, hcovers⟩ := ih (by omega)
      exact ⟨w, List.mem_cons_of_mem _ hw, hcovers⟩

/-- **Neighbours share a lap.** -/
theorem laps (hlap : lap < size) (h : Sweep n size lap start windows) :
    windows.IsChain fun a b => (Finset.Ico a.1 a.2 ∩ Finset.Ico b.1 b.2).card = lap := by
  induction h with
  | last => exact .singleton _
  | @next start rest hmore hrest ih =>
    obtain ⟨others, rfl⟩ := hrest.eq_cons
    refine .cons_cons ?_ ih
    rw [Finset.Ico_inter_Ico, Nat.card_Ico]
    omega

end Sweep

end Sweep

end Protheus
