import Mathlib.Data.List.Basic

/-!
Runs of a deterministic machine, and what holds in every state of a run whose
steps all meet a guard.

A machine is a step function on states and inputs.  `run` is the state after a
list of inputs and `before` the state its `n`-th input meets.  A guard is a
condition on the state before a step and its input; `Meets` says every step of a
run meets it.  `Meets.invariant` is the induction that every safety result of
this kind needs: a property that holds at the start and that every guarded step
keeps holds in every state of a guarded run.
-/

namespace Protheus.Runs

variable {σ ι : Type*} (step : σ → ι → σ)

/-- The state after a list of inputs. -/
def run (s : σ) (inputs : List ι) : σ := inputs.foldl step s

@[simp] theorem run_nil (s : σ) : run step s [] = s := rfl

@[simp] theorem run_cons (s : σ) (i : ι) (inputs : List ι) :
    run step s (i :: inputs) = run step (step s i) inputs := rfl

theorem run_append (s : σ) (inputs inputs' : List ι) :
    run step s (inputs ++ inputs') = run step (run step s inputs) inputs' :=
  List.foldl_append

/-- The state the `n`-th input meets. -/
def before (s : σ) (inputs : List ι) (n : ℕ) : σ := run step s (inputs.take n)

@[simp] theorem before_zero (s : σ) (inputs : List ι) : before step s inputs 0 = s := by
  simp [before]

theorem before_take {s : σ} {inputs : List ι} {n m : ℕ} (h : m ≤ n) :
    before step s (inputs.take n) m = before step s inputs m := by
  rw [before, List.take_take, Nat.min_eq_left h, before]

/-- Past an input stands the state it leads to. -/
theorem before_succ_of_some {s : σ} {inputs : List ι} {n : ℕ} {i : ι} (h : inputs[n]? = some i) :
    before step s inputs (n + 1) = step (before step s inputs n) i := by
  rw [before, List.take_add_one, h, run_append]
  rfl

/-- Past the end of the run nothing moves. -/
theorem before_succ_of_none {s : σ} {inputs : List ι} {n : ℕ} (h : inputs[n]? = none) :
    before step s inputs (n + 1) = before step s inputs n := by
  rw [before, List.take_add_one, h, Option.toList_none, List.append_nil, before]

/-- What holds at one point of a run and is kept by the steps from there on holds at
every later point. -/
theorem before_induction {P : σ → Prop} {s : σ} {inputs : List ι} {n m : ℕ} (hnm : n ≤ m)
    (hbase : P (before step s inputs n))
    (hstep : ∀ k i, n ≤ k → inputs[k]? = some i → P (before step s inputs k) →
      P (step (before step s inputs k) i)) : P (before step s inputs m) := by
  induction hnm with
  | refl => exact hbase
  | @step k hnk ih =>
    cases hi : inputs[k]? with
    | none => rwa [before_succ_of_none step hi]
    | some i =>
      rw [before_succ_of_some step hi]
      exact hstep k i hnk hi ih

/-- Every step of the run meets the guard. -/
def Meets (guard : σ → ι → Prop) : σ → List ι → Prop
  | _, [] => True
  | s, i :: inputs => guard s i ∧ Meets guard (step s i) inputs

instance decidableMeets (guard : σ → ι → Prop) [∀ s i, Decidable (guard s i)] :
    ∀ (s : σ) (inputs : List ι), Decidable (Meets step guard s inputs)
  | _, [] => isTrue trivial
  | s, i :: inputs => @instDecidableAnd _ _ _ (decidableMeets guard (step s i) inputs)

variable {step} {guard : σ → ι → Prop}

theorem Meets.append_iff {s : σ} {inputs inputs' : List ι} :
    Meets step guard s (inputs ++ inputs') ↔
      Meets step guard s inputs ∧ Meets step guard (run step s inputs) inputs' := by
  induction inputs generalizing s with
  | nil => simp [Meets]
  | cons i inputs ih => simp [Meets, ih, and_assoc]

/-- A run that meets two guards meets both at once. -/
theorem Meets.and {guard' : σ → ι → Prop} : ∀ {inputs : List ι} {s : σ},
    Meets step guard s inputs → Meets step guard' s inputs →
      Meets step (fun s i => guard s i ∧ guard' s i) s inputs
  | [], _, _, _ => trivial
  | _ :: _, _, h, h' => ⟨⟨h.1, h'.1⟩, Meets.and h.2 h'.2⟩

/-- A weaker guard is met as well. -/
theorem Meets.imp {guard' : σ → ι → Prop} (himp : ∀ s i, guard s i → guard' s i) :
    ∀ {inputs : List ι} {s : σ}, Meets step guard s inputs → Meets step guard' s inputs
  | [], _, _ => trivial
  | i :: _, s, h => ⟨himp s i h.1, Meets.imp himp h.2⟩

/-- Inputs that meet the guard in every state make a guarded run. -/
theorem Meets.of_forall : ∀ {inputs : List ι} {s : σ}, (∀ i ∈ inputs, ∀ s, guard s i) →
    Meets step guard s inputs
  | [], _, _ => trivial
  | i :: _, s, h => ⟨h i (by simp) s, Meets.of_forall fun j hj => h j (by simp [hj])⟩

/-- **Invariants of guarded runs.**  What holds at the start and is kept by every
step that meets the guard holds after every run whose steps all meet it. -/
theorem Meets.invariant {Inv : σ → Prop} (hstep : ∀ s i, Inv s → guard s i → Inv (step s i)) :
    ∀ {inputs : List ι} {s : σ}, Inv s → Meets step guard s inputs → Inv (run step s inputs)
  | [], _, hs, _ => hs
  | i :: inputs, s, hs, h => by
    rw [run_cons]
    exact Meets.invariant hstep (hstep s i hs h.1) h.2

/-- A prefix of a guarded run is one. -/
theorem Meets.take {s : σ} {inputs : List ι} (h : Meets step guard s inputs) (n : ℕ) :
    Meets step guard s (inputs.take n) := by
  rw [← List.take_append_drop n inputs, Meets.append_iff] at h
  exact h.1

/-- The invariant stands before every step of the run. -/
theorem Meets.before {Inv : σ → Prop} (hstep : ∀ s i, Inv s → guard s i → Inv (step s i))
    {inputs : List ι} {s : σ} (hs : Inv s) (h : Meets step guard s inputs) (n : ℕ) :
    Inv (before step s inputs n) :=
  Meets.invariant hstep hs (h.take n)

theorem Meets.guard_before {s : σ} {inputs : List ι} {n : ℕ} {i : ι}
    (h : Meets step guard s inputs) (hi : inputs[n]? = some i) :
    guard (Runs.before step s inputs n) i := by
  have htake : inputs.take (n + 1) = inputs.take n ++ [i] := by
    rw [List.take_add_one, hi]
    rfl
  have hlast := h.take (n + 1)
  rw [htake, Meets.append_iff] at hlast
  exact hlast.2.1

/-- A run is guarded where every one of its steps meets the guard. -/
theorem Meets.iff_forall : ∀ {inputs : List ι} {s : σ}, Meets step guard s inputs ↔
    ∀ n i, inputs[n]? = some i → guard (Runs.before step s inputs n) i
  | [], _ => by simp [Meets]
  | i :: inputs, s => by
    rw [Meets, Meets.iff_forall]
    constructor
    · rintro ⟨hhead, htail⟩ (_ | n) j hj
      · obtain rfl : i = j := by simpa using hj
        simpa using hhead
      · exact htail n j hj
    · intro h
      exact ⟨h 0 i rfl, fun n j hj => h (n + 1) j hj⟩

/-- Where a step keeps the invariant exactly when it meets the guard, the invariant
stands throughout a run exactly when all its steps meet the guard. -/
theorem Meets.iff_before {Inv : σ → Prop} (hstep : ∀ s i, Inv s → (Inv (step s i) ↔ guard s i)) :
    ∀ {inputs : List ι} {s : σ}, Inv s →
      ((∀ n, Inv (Runs.before step s inputs n)) ↔ Meets step guard s inputs)
  | [], s, hs => ⟨fun _ => trivial, fun _ n => by simpa [Runs.before] using hs⟩
  | i :: inputs, s, hs => by
    constructor
    · intro h
      have hnext : Inv (step s i) := h 1
      exact ⟨(hstep s i hs).mp hnext, (Meets.iff_before hstep hnext).mp fun n => h (n + 1)⟩
    · exact fun h n => Meets.before (fun s i hs hg => (hstep s i hs).mpr hg) hs h n

/-- An invariant that every step keeps holds after every run. -/
theorem run_invariant {Inv : σ → Prop} (hstep : ∀ s i, Inv s → Inv (step s i)) :
    ∀ (inputs : List ι) (s : σ), Inv s → Inv (run step s inputs)
  | [], _, hs => hs
  | i :: inputs, s, hs => run_invariant hstep inputs (step s i) (hstep s i hs)

/-! ## What a run logs -/

variable (step) in
/-- What the steps of a run log, in order. -/
def logs {ε : Type*} (log : σ → ι → List ε) : σ → List ι → List ε
  | _, [] => []
  | s, i :: inputs => log s i ++ logs log (step s i) inputs

/-- A relation between the state and the log that every guarded step keeps holds after every
guarded run. -/
theorem Meets.logs_invariant {ε : Type*} {log : σ → ι → List ε} {Inv : σ → List ε → Prop}
    (hstep : ∀ s es i, Inv s es → guard s i → Inv (step s i) (es ++ log s i)) :
    ∀ {inputs : List ι} {s : σ} {es : List ε}, Inv s es → Meets step guard s inputs →
      Inv (run step s inputs) (es ++ logs step log s inputs)
  | [], s, es, h, _ => by simpa [logs] using h
  | i :: inputs, s, es, h, hmeets => by
    have hrest := Meets.logs_invariant hstep (hstep s es i h hmeets.1) hmeets.2
    rwa [List.append_assoc] at hrest

/-- A relation between the state and the log that every step keeps holds after every run. -/
theorem logs_invariant {ε : Type*} {log : σ → ι → List ε} {Inv : σ → List ε → Prop}
    (hstep : ∀ s es i, Inv s es → Inv (step s i) (es ++ log s i)) (inputs : List ι) (s : σ)
    (es : List ε) (h : Inv s es) : Inv (run step s inputs) (es ++ logs step log s inputs) :=
  @Meets.logs_invariant _ _ step (fun _ _ => True) _ _ _ (fun s es i h _ => hstep s es i h) _ _ _ h
    (Meets.of_forall fun _ _ _ => trivial)

/-- What a run logs, some step of it logs. -/
theorem mem_logs {ε : Type*} {log : σ → ι → List ε} {e : ε} :
    ∀ {inputs : List ι} {s : σ}, e ∈ logs step log s inputs ↔
      ∃ n i, inputs[n]? = some i ∧ e ∈ log (before step s inputs n) i
  | [], _ => by simp [logs]
  | i :: inputs, s => by
    rw [logs, List.mem_append, mem_logs]
    constructor
    · rintro (hhead | ⟨n, j, hj, htail⟩)
      · exact ⟨0, i, rfl, hhead⟩
      · exact ⟨n + 1, j, hj, htail⟩
    · rintro ⟨_ | n, j, hj, hmem⟩
      · obtain rfl : i = j := by simpa using hj
        exact .inl hmem
      · exact .inr ⟨n, j, hj, hmem⟩

/-- **Unwinding.**  Two machines in related states log the same of what `seen` keeps, where an input
of the first that `kept` drops leaves it related to the second and logs nothing that is seen, and an
input that is kept moves both to related states and logs in the second what is seen of the first. -/
theorem filter_logs_of_unwinding {ε : Type*} {log : σ → ι → List ε} {R : σ → σ → Prop}
    {valid : ι → Prop} {kept : ι → Bool} {seen : ε → Bool}
    (hdrop : ∀ s t i, R s t → valid i → kept i = false →
      R (step s i) t ∧ (log s i).filter seen = [])
    (hkeep : ∀ s t i, R s t → valid i → kept i = true →
      R (step s i) (step t i) ∧ (log s i).filter seen = log t i) :
    ∀ (inputs : List ι) (s t : σ), R s t → (∀ i ∈ inputs, valid i) →
      (logs step log s inputs).filter seen = logs step log t (inputs.filter kept)
  | [], _, _, _, _ => rfl
  | i :: inputs, s, t, hR, hvalid => by
    have hrest : ∀ j ∈ inputs, valid j := fun j hj => hvalid j (.tail _ hj)
    rw [logs, List.filter_append]
    cases hi : kept i with
    | false =>
      obtain ⟨hnext, hnone⟩ := hdrop s t i hR (hvalid i List.mem_cons_self) hi
      rw [List.filter_cons_of_neg (by simp [hi]), hnone, List.nil_append]
      exact filter_logs_of_unwinding hdrop hkeep inputs _ _ hnext hrest
    | true =>
      obtain ⟨hnext, hsame⟩ := hkeep s t i hR (hvalid i List.mem_cons_self) hi
      rw [List.filter_cons_of_pos hi, hsame, logs,
        filter_logs_of_unwinding hdrop hkeep inputs _ _ hnext hrest]

/-! ## Accounting along a run -/

variable (step) in
/-- A weight summed over the steps of a run. -/
def tally (weight : σ → ι → ℕ) : σ → List ι → ℕ
  | _, [] => 0
  | s, i :: inputs => weight s i + tally weight (step s i) inputs

/-- **The potential argument.**  Where every step pays for its weight out of a
potential and a cost, the weights of a run are bounded by the potential it
starts with and the costs of its steps. -/
theorem tally_le_of_potential {Inv : σ → Prop} {weight cost : σ → ι → ℕ} (φ : σ → ℕ)
    (hinv : ∀ s i, Inv s → Inv (step s i))
    (hpay : ∀ s i, Inv s → weight s i + φ (step s i) ≤ φ s + cost s i) :
    ∀ (inputs : List ι) (s : σ), Inv s →
      tally step weight s inputs ≤ φ s + tally step cost s inputs
  | [], _, _ => by simp [tally]
  | i :: inputs, s, hs => by
    have hhead := hpay s i hs
    have htail := tally_le_of_potential φ hinv hpay inputs (step s i) (hinv s i hs)
    simp only [tally]
    omega

@[simp] theorem tally_zero : ∀ (inputs : List ι) (s : σ), tally step (fun _ _ => 0) s inputs = 0
  | [], _ => rfl
  | i :: inputs, s => by rw [tally, tally_zero inputs, Nat.zero_add]

/-- Where every step pays for its weight out of a potential alone, the weights of a run
are bounded by the potential it starts with. -/
theorem tally_le_potential {weight : σ → ι → ℕ} (φ : σ → ℕ)
    (hpay : ∀ s i, weight s i + φ (step s i) ≤ φ s) (inputs : List ι) (s : σ) :
    tally step weight s inputs ≤ φ s := by
  have h := @tally_le_of_potential _ _ step (fun _ => True) weight (fun _ _ => 0) φ
    (fun _ _ _ => trivial) (fun s i _ => hpay s i) inputs s trivial
  simpa using h

/-- The entries of a log that a test admits, counted step by step. -/
theorem countP_logs {ε : Type*} {log : σ → ι → List ε} (p : ε → Bool) :
    ∀ (inputs : List ι) (s : σ), (logs step log s inputs).countP p =
      tally step (fun s i => (log s i).countP p) s inputs
  | [], _ => rfl
  | i :: inputs, s => by rw [logs, List.countP_append, countP_logs p inputs, tally]

section Window

variable {Inv : σ → Prop} {weight : σ → ι → ℕ} {time : ι → ℕ} {lo hi : ℕ}

/-- A weight that counts only while the clock of the inputs is in `[lo, hi)`. -/
def within (weight : σ → ι → ℕ) (time : ι → ℕ) (lo hi : ℕ) (s : σ) (i : ι) : ℕ :=
  if lo ≤ time i ∧ time i < hi then weight s i else 0

/-- Nothing counts once the clock is past the window. -/
theorem tally_within_eq_zero : ∀ (inputs : List ι) (s : σ), (∀ i ∈ inputs, hi ≤ time i) →
    tally step (within weight time lo hi) s inputs = 0
  | [], _, _ => rfl
  | i :: inputs, s, h => by
    have hhere := h i List.mem_cons_self
    rw [tally, tally_within_eq_zero inputs _ fun j hj => h j (.tail _ hj), within, if_neg (by omega)]

/-- Once the clock has reached the window, what is still counted is paid out of the potential. -/
theorem tally_within_le_of_reached (φ : σ → ℕ) (hinv : ∀ s i, Inv s → Inv (step s i))
    (hpay : ∀ s i, Inv s → lo ≤ time i → time i < hi → weight s i + φ (step s i) ≤ φ s) :
    ∀ (inputs : List ι) (s : σ), Inv s → inputs.Pairwise (fun i j => time i ≤ time j) →
      (∀ i ∈ inputs, lo ≤ time i) → tally step (within weight time lo hi) s inputs ≤ φ s
  | [], _, _, _, _ => Nat.zero_le _
  | i :: inputs, s, hs, hclock, hlo => by
    obtain ⟨hle, hclock'⟩ := List.pairwise_cons.mp hclock
    have hhere := hlo i List.mem_cons_self
    by_cases hin : time i < hi
    · have hrest := tally_within_le_of_reached φ hinv hpay inputs (step s i) (hinv s i hs) hclock'
        fun j hj => hlo j (.tail _ hj)
      have hstep := hpay s i hs hhere hin
      rw [tally, within, if_pos ⟨hhere, hin⟩]
      omega
    · rw [tally_within_eq_zero (i :: inputs) s]
      · exact Nat.zero_le _
      · intro j hj
        rcases List.mem_cons.mp hj with rfl | hj
        · omega
        · have := hle j hj
          omega

/-- **The potential argument in a window of time.**  Where the clock of the inputs never goes back
and every step in a window pays for its weight out of a potential that stays under a bound, the
weights in the window are bounded by it. -/
theorem tally_within_le (φ : σ → ℕ) {bound : ℕ} (hinv : ∀ s i, Inv s → Inv (step s i))
    (hpay : ∀ s i, Inv s → lo ≤ time i → time i < hi → weight s i + φ (step s i) ≤ φ s)
    (hbound : ∀ s, Inv s → φ s ≤ bound) :
    ∀ (inputs : List ι) (s : σ), Inv s → inputs.Pairwise (fun i j => time i ≤ time j) →
      tally step (within weight time lo hi) s inputs ≤ bound
  | [], _, _, _ => Nat.zero_le _
  | i :: inputs, s, hs, hclock => by
    obtain ⟨hle, hclock'⟩ := List.pairwise_cons.mp hclock
    by_cases hlo : lo ≤ time i
    · refine Nat.le_trans (tally_within_le_of_reached φ hinv hpay (i :: inputs) s hs hclock ?_)
        (hbound s hs)
      intro j hj
      rcases List.mem_cons.mp hj with rfl | hj
      · exact hlo
      · exact Nat.le_trans hlo (hle j hj)
    · rw [tally, within, if_neg (by omega), Nat.zero_add]
      exact tally_within_le φ hinv hpay hbound inputs (step s i) (hinv s i hs) hclock'

end Window

theorem tally_le_tally {weight weight' : σ → ι → ℕ} (h : ∀ s i, weight s i ≤ weight' s i) :
    ∀ (inputs : List ι) (s : σ), tally step weight s inputs ≤ tally step weight' s inputs
  | [], _ => Nat.le_refl _
  | i :: inputs, s => Nat.add_le_add (h s i) (tally_le_tally h inputs (step s i))

end Protheus.Runs
