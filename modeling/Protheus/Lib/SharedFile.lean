import Mathlib.Logic.Function.Basic
import Protheus.Lib.Runs

/-!
Processes that read and replace one file, each at its own pace.

A process has a place of its own; a step of it looks at the file, may replace it as a
whole and moves the process on.  Nothing keeps the steps of different processes apart,
so what a process has read may be out of date when it writes.  `file_good` is what can
still be had without a lock: where every step leaves the file good and the process with
nothing but good data in hand, the file is good after any interleaving, since a write
replaces all of it.
-/

namespace Protheus.SharedFile

structure State (ι φ κ : Type*) where
  file : φ
  place : ι → κ

variable {ι φ κ ρ : Type*} [DecidableEq ι]

/-- One step of a process, with what it reads from outside. -/
def step (act : ι → ρ → φ → κ → φ × κ) (s : State ι φ κ) (e : ι × ρ) : State ι φ κ :=
  let (file, place) := act e.1 e.2 s.file (s.place e.1)
  { file := file, place := Function.update s.place e.1 place }

/-- **No lock, but whole files.**  What every step keeps of the file and of the data in
hand stands in every state of every run. -/
theorem file_good {act : ι → ρ → φ → κ → φ × κ} {Good : φ → Prop} {Has : ι → κ → Prop}
    (hact : ∀ p reading file place, Good file → Has p place →
      Good (act p reading file place).1 ∧ Has p (act p reading file place).2)
    {s : State ι φ κ} (hfile : Good s.file) (hplace : ∀ p, Has p (s.place p))
    (events : List (ι × ρ)) (n : ℕ) : Good (Runs.before (step act) s events n).file := by
  let Inv (s : State ι φ κ) : Prop := Good s.file ∧ ∀ p, Has p (s.place p)
  have hstep (s : State ι φ κ) (e : ι × ρ) (hs : Inv s) : Inv (step act s e) := by
    obtain ⟨p, reading⟩ := e
    obtain ⟨hfile, hplace⟩ := hs
    obtain ⟨hfile', hplace'⟩ := hact p reading s.file (s.place p) hfile (hplace p)
    refine ⟨hfile', fun q => ?_⟩
    by_cases hq : q = p
    · subst hq
      simpa [step] using hplace'
    · simpa [step, hq] using hplace q
  exact (Runs.run_invariant hstep (events.take n) s ⟨hfile, hplace⟩).1

end Protheus.SharedFile
