import Protheus.Lib.Runs

/-!
Programs over a machine whose operations may fail and keep what they did.

A machine executes calls: `exec i s` is what the call `i` answers in the state `s`
and the state it leaves, an error included.  A program makes calls, looks at
their answers and may stop with an error of its own; it has no other way to
change the state.  So what a program leaves is what its calls leave, one after
the other, and `Outcome` carries that as a field: a property that every call keeps
is kept by every program, whatever its loops and error exits are
(`Outcome.invariant`).

Two judgements say which calls a program makes: `Makes`, whatever the states, and
`Safe`, from a precondition to a postcondition, for a guard that looks at the state.
-/

namespace Protheus

open Runs

variable {ε σ ι ρ α β : Type}

/-- The state a call leaves. -/
def effect (exec : ι → σ → Except ε ρ × σ) (s : σ) (i : ι) : σ := (exec i s).2

/-- What a program started in `s` leaves: a value or an error, a state, and the calls
that led to it. -/
structure Outcome (exec : ι → σ → Except ε ρ × σ) (s : σ) (α : Type) where
  result : Except ε α
  state : σ
  calls : List ι
  traced : state = run (effect exec) s calls

/-- A property every guarded call keeps is kept by a program whose calls all meet the
guard. -/
theorem Outcome.invariant {exec : ι → σ → Except ε ρ × σ} {s : σ} (o : Outcome exec s α)
    {Inv : σ → Prop} {guard : σ → ι → Prop}
    (hstep : ∀ s i, Inv s → guard s i → Inv (effect exec s i)) (hs : Inv s)
    (hmeets : Meets (effect exec) guard s o.calls) : Inv o.state := by
  rw [o.traced]
  exact Meets.invariant hstep hs hmeets

/-- A program over a machine. -/
def Program (exec : ι → σ → Except ε ρ × σ) (α : Type) := (s : σ) → Outcome exec s α

namespace Program

variable {exec : ι → σ → Except ε ρ × σ}

protected def pure (a : α) : Program exec α := fun s =>
  { result := .ok a, state := s, calls := [], traced := rfl }

/-- Stops with an error. -/
def throw (e : ε) : Program exec α := fun s =>
  { result := .error e, state := s, calls := [], traced := rfl }

protected def bind (m : Program exec α) (f : α → Program exec β) : Program exec β := fun s =>
  let first := m s
  match first.result with
  | .error e => { result := .error e, state := first.state, calls := first.calls,
                  traced := first.traced }
  | .ok a =>
    let second := f a first.state
    { result := second.result
      state := second.state
      calls := first.calls ++ second.calls
      traced := by rw [run_append, ← first.traced]; exact second.traced }

instance : Monad (Program exec) where
  pure := Program.pure
  bind := Program.bind

/-- The current state. -/
def get : Program exec σ := fun s => { result := .ok s, state := s, calls := [], traced := rfl }

/-- Makes a call and answers what it answers. -/
def call (i : ι) : Program exec ρ := fun s =>
  { result := (exec i s).1, state := (exec i s).2, calls := [i], traced := rfl }

/-- Stops with `e` unless the condition holds. -/
def require (c : Bool) (e : ε) : Program exec Unit := if c then pure () else throw e

/-- A value that may be missing. -/
def ofOption (e : ε) : Option α → Program exec α
  | some a => pure a
  | none => throw e

/-- Runs a program and ignores its error, but not what it did. -/
def attempt (m : Program exec α) : Program exec Unit := fun s =>
  { m s with result := .ok () }

/-- A program for each item in turn; the first error ends the loop. -/
def forEach {κ : Type} (f : κ → Program exec Unit) : List κ → Program exec Unit
  | [] => pure ()
  | k :: items => do
    f k
    forEach f items

/-- At most `n` rounds of a program that says whether to go on. -/
def rounds (m : Program exec Bool) : ℕ → Program exec Unit
  | 0 => pure ()
  | n + 1 => do
    if ← m then rounds m n

/-- A bind leaves what its second program leaves, unless the first stops. -/
theorem state_bind (m : Program exec α) (f : α → Program exec β) (s : σ) :
    ((m >>= f) s).state = match (m s).result with
      | .error _ => (m s).state
      | .ok a => (f a (m s).state).state := by
  change (Program.bind m f s).state = _
  unfold Program.bind
  dsimp only
  split <;> rfl

theorem result_bind (m : Program exec α) (f : α → Program exec β) (s : σ) :
    ((m >>= f) s).result = match (m s).result with
      | .error e => .error e
      | .ok a => (f a (m s).state).result := by
  change (Program.bind m f s).result = _
  unfold Program.bind
  dsimp only
  split <;> rfl

theorem calls_bind (m : Program exec α) (f : α → Program exec β) (s : σ) :
    ((m >>= f) s).calls = match (m s).result with
      | .error _ => (m s).calls
      | .ok a => (m s).calls ++ (f a (m s).state).calls := by
  change (Program.bind m f s).calls = _
  unfold Program.bind
  dsimp only
  split <;> rfl

/-! ## What a program comes to -/

/-- What a program answers from a state, the state it leaves, and its calls. -/
structure ComesTo (m : Program exec α) (s : σ) (result : Except ε α) (s' : σ) (calls : List ι) :
    Prop where
  result : (m s).result = result
  state : (m s).state = s'
  calls : (m s).calls = calls

namespace ComesTo

variable {m : Program exec α} {f : α → Program exec β} {s s' s'' : σ} {a : α} {e : ε}
  {calls calls' : List ι}

theorem pure (a : α) (s : σ) : ComesTo (Pure.pure a : Program exec α) s (.ok a) s [] := ⟨rfl, rfl, rfl⟩

theorem call (i : ι) (s : σ) :
    ComesTo (Program.call i : Program exec ρ) s (exec i s).1 (exec i s).2 [i] := ⟨rfl, rfl, rfl⟩

theorem bind {result : Except ε β} (hm : ComesTo m s (.ok a) s' calls)
    (hf : ComesTo (f a) s' result s'' calls') :
    ComesTo (m >>= f) s result s'' (calls ++ calls') := by
  obtain ⟨hresult, rfl, rfl⟩ := hm
  obtain ⟨rfl, rfl, rfl⟩ := hf
  constructor
  · rw [result_bind, hresult]
  · rw [state_bind, hresult]
  · rw [calls_bind, hresult]

/-- An error ends the program. -/
theorem bind_error (f : α → Program exec β) (hm : ComesTo m s (.error e) s' calls) :
    ComesTo (m >>= f) s (.error e) s' calls := by
  obtain ⟨hresult, rfl, rfl⟩ := hm
  constructor
  · rw [result_bind, hresult]
  · rw [state_bind, hresult]
  · rw [calls_bind, hresult]

variable {more : Program exec Bool} {n : ℕ}

end ComesTo

/-! ## The calls a program makes -/

/-- Every call the program makes is of the kind. -/
structure Makes (kind : ι → Prop) (m : Program exec α) : Prop where
  calls : ∀ s, ∀ i ∈ (m s).calls, kind i

namespace Makes

variable {kind : ι → Prop}

theorem pure (a : α) : Makes kind (Pure.pure a : Program exec α) := ⟨fun _ _ h => nomatch h⟩

theorem throw (e : ε) : Makes kind (Program.throw e : Program exec α) := ⟨fun _ _ h => nomatch h⟩

theorem get : Makes kind (Program.get : Program exec σ) := ⟨fun _ _ h => nomatch h⟩

theorem call {i : ι} (h : kind i) : Makes kind (Program.call i : Program exec ρ) := by
  constructor
  intro s j hj
  rw [List.mem_singleton.mp hj]
  exact h

theorem bind {m : Program exec α} {f : α → Program exec β} (hm : Makes kind m)
    (hf : ∀ a, Makes kind (f a)) : Makes kind (m >>= f) := by
  constructor
  intro s i hi
  change i ∈ (Program.bind m f s).calls at hi
  unfold Program.bind at hi
  dsimp only at hi
  split at hi
  · exact hm.calls s i hi
  · rcases List.mem_append.mp hi with hi | hi
    · exact hm.calls s i hi
    · exact (hf _).calls _ i hi

theorem require (c : Bool) (e : ε) : Makes kind (Program.require c e : Program exec Unit) := by
  unfold Program.require
  split
  · exact pure ()
  · exact throw e

theorem ofOption (e : ε) : ∀ a : Option α, Makes kind (Program.ofOption e a : Program exec α)
  | some a => pure a
  | none => throw e

theorem attempt {m : Program exec α} (h : Makes kind m) : Makes kind (Program.attempt m) := ⟨h.calls⟩

theorem forEach {κ : Type} {f : κ → Program exec Unit} (h : ∀ k, Makes kind (f k)) :
    ∀ items, Makes kind (Program.forEach f items)
  | [] => pure ()
  | k :: items => bind (h k) fun _ => forEach h items

end Makes

/-- From a state with the precondition the program makes guarded calls alone, and with
a value it leaves the postcondition. -/
def Safe (guard : σ → ι → Prop) (pre : σ → Prop) (m : Program exec α) (post : α → σ → Prop) :
    Prop :=
  ∀ s, pre s → Meets (effect exec) guard s (m s).calls ∧
    ∀ a, (m s).result = .ok a → post a (m s).state

namespace Safe

variable {guard : σ → ι → Prop} {pre : σ → Prop}

/-- Calls that meet the guard in every state. -/
theorem of_makes {m : Program exec α} (h : Makes (fun i => ∀ s, guard s i) m) :
    Safe guard pre m fun _ _ => True :=
  fun s _ => ⟨Meets.of_forall (h.calls s), fun _ _ => trivial⟩

theorem weaken {m : Program exec α} {pre' : σ → Prop} {post post' : α → σ → Prop}
    (h : Safe guard pre m post) (hpre : ∀ s, pre' s → pre s)
    (hpost : ∀ a s, post a s → post' a s) : Safe guard pre' m post' :=
  fun s hs => ⟨(h s (hpre s hs)).1, fun a ha => hpost a _ ((h s (hpre s hs)).2 a ha)⟩

theorem pure (a : α) {post : α → σ → Prop} (h : ∀ s, pre s → post a s) :
    Safe guard pre (Pure.pure a : Program exec α) post :=
  fun s hs => ⟨trivial, fun _ ha => Except.ok.inj ha ▸ h s hs⟩

theorem get : Safe guard pre (Program.get : Program exec σ) fun s s' => s' = s ∧ pre s' :=
  fun _ hs => ⟨trivial, fun _ ha => Except.ok.inj ha ▸ ⟨rfl, hs⟩⟩

theorem call {i : ι} {post : ρ → σ → Prop} (hguard : ∀ s, pre s → guard s i)
    (hpost : ∀ s, pre s → ∀ a, (exec i s).1 = .ok a → post a (exec i s).2) :
    Safe guard pre (Program.call i : Program exec ρ) post :=
  fun s hs => ⟨⟨hguard s hs, trivial⟩, hpost s hs⟩

theorem bind {m : Program exec α} {f : α → Program exec β} {mid : α → σ → Prop}
    {post : β → σ → Prop} (hm : Safe guard pre m mid) (hf : ∀ a, Safe guard (mid a) (f a) post) :
    Safe guard pre (m >>= f) post := by
  intro s hs
  obtain ⟨hcalls, hvalue⟩ := hm s hs
  change Meets _ guard s (Program.bind m f s).calls ∧
    ∀ b, (Program.bind m f s).result = .ok b → post b (Program.bind m f s).state
  unfold Program.bind
  dsimp only
  split
  case h_1 e he => exact ⟨hcalls, nofun⟩
  case h_2 a ha =>
    obtain ⟨hcalls', hvalue'⟩ := hf a (m s).state (hvalue a ha)
    rw [Meets.append_iff, ← (m s).traced]
    exact ⟨⟨hcalls, hcalls'⟩, hvalue'⟩

theorem attempt {m : Program exec α} {post : α → σ → Prop} (h : Safe guard pre m post) :
    Safe guard pre (Program.attempt m) fun _ _ => True :=
  fun s hs => ⟨(h s hs).1, fun _ _ => trivial⟩

/-- A loop whose invariant says what is still to do. -/
theorem forEach {κ : Type} {f : κ → Program exec Unit} {todo : List κ → σ → Prop}
    (h : ∀ k items, Safe guard (todo (k :: items)) (f k) fun _ => todo items) :
    ∀ items, Safe guard (todo items) (Program.forEach f items) fun _ => todo []
  | [] => pure () fun _ hs => hs
  | k :: items => bind (h k items) fun _ => forEach h items

/-- Rounds that keep `pre` while they go on and end in `post`. -/
theorem rounds {m : Program exec Bool} {post : σ → Prop}
    (h : Safe guard pre m fun more s => if more then pre s else post s)
    (hend : ∀ s, pre s → post s) :
    ∀ n, Safe guard pre (Program.rounds m n) fun _ => post
  | 0 => pure () hend
  | n + 1 => by
    refine bind h fun more => ?_
    cases more with
    | true => exact rounds h hend n
    | false => exact pure () fun _ hs => hs

end Safe

end Program

end Protheus
