import Mathlib.Data.Fintype.Basic
import Mathlib.Logic.Function.Basic
import Protheus.Lib.Runs

/-!
A lock file with takeover, and what it protects.

Processes guard a shared resource with a file: who creates it works on the resource
and then removes it.  A process that finds the file there looks at its age and, where
the file is older than a limit, removes it and tries again; a process may stop at any
point and leave the file behind.  Creating, looking, removing, each piece of work and
giving the lock up are separate steps, taken in any order by any number of processes.

Removing goes by the file's name, so a process may remove another file than the one it
looked at.  `Exact` says that it does not.  Then, as long as no running process holds
the lock longer than the limit (`Prompt`), at most one process is at work
(`Inv.alone`), and `result_of_meets` is the rule for the lock: what a process knows of
the resource while it is at work stays true until its next piece of work.
-/

namespace Protheus.LockFile

/-- The lock file: which one it is, and when it was last written. -/
structure Lock where
  inode : ℕ
  stamp : ℕ
  deriving DecidableEq

/-- What a process knows of the lock it took: which file, and since when. -/
structure Hold where
  inode : ℕ
  since : ℕ
  deriving DecidableEq

/-- Where a process is: `κ` is its place in the work, `ρ` what the work comes to. -/
inductive Phase (κ ρ : Type*) where
  | idle
  /-- About to create the file. -/
  | creating (started : ℕ)
  /-- The file was there: about to look at its age. -/
  | checking (started : ℕ)
  /-- About to remove the file it judged too old. -/
  | removing (started judged : ℕ)
  /-- Has created the file and is about to write into it. -/
  | stamping (hold : Hold)
  | working (hold : Hold) (place : κ)
  /-- About to remove its file. -/
  | releasing (hold : Hold) (result : ρ)
  | done (result : ρ)
  | timedOut
  | crashed
  deriving DecidableEq

/-- The lock a running process has taken and not given up. -/
def Phase.holding {κ ρ : Type*} : Phase κ ρ → Option Hold
  | stamping hold => some hold
  | working hold _ => some hold
  | releasing hold _ => some hold
  | _ => none

/-- The file a process has judged too old. -/
def Phase.judged {κ ρ : Type*} : Phase κ ρ → Option ℕ
  | removing _ judged => some judged
  | _ => none

/-- The place of a process that is about to do a piece of work. -/
def Phase.place {κ ρ : Type*} : Phase κ ρ → Option κ
  | working _ place => some place
  | _ => none

/-- The limits of the lock, where the work starts, and one piece of it on the resource. -/
structure Protocol (ι σ κ ρ : Type*) where
  staleMs : ℕ
  timeoutMs : ℕ
  first : κ
  work : ι → σ → κ → σ × (κ ⊕ ρ)

structure State (ι σ κ ρ : Type*) where
  shared : σ
  lock : Option Lock
  now : ℕ
  /-- How many lock files there have been. -/
  made : ℕ
  phase : ι → Phase κ ρ

inductive Event (ι : Type*) where
  | tick (ms : ℕ)
  | act (p : ι)
  | crash (p : ι)
  deriving DecidableEq

variable {ι σ κ ρ : Type*} [DecidableEq ι] (proto : Protocol ι σ κ ρ)

/-- The process goes on to another phase. -/
def State.goTo (s : State ι σ κ ρ) (p : ι) (phase : Phase κ ρ) : State ι σ κ ρ :=
  { s with phase := Function.update s.phase p phase }

/-- The file is older than the limit. -/
def Protocol.isStale (proto : Protocol ι σ κ ρ) (now : ℕ) (lock : Lock) : Bool :=
  lock.stamp ≤ now && now - lock.stamp > proto.staleMs

/-- What a process that waits does next. -/
def retry (s : State ι σ κ ρ) (p : ι) (started : ℕ) : State ι σ κ ρ :=
  if s.now - started ≥ proto.timeoutMs then s.goTo p .timedOut else s.goTo p (.creating started)

/-- The next step of a process. -/
def act (s : State ι σ κ ρ) (p : ι) : State ι σ κ ρ :=
  match s.phase p with
  | .idle => s.goTo p (.creating s.now)
  | .creating started =>
    match s.lock with
    | none =>
      { s.goTo p (.stamping ⟨s.made, s.now⟩) with
        lock := some ⟨s.made, s.now⟩, made := s.made + 1 }
    | some _ => s.goTo p (.checking started)
  | .checking started =>
    match s.lock with
    | none => retry proto s p started
    | some lock =>
      if proto.isStale s.now lock then s.goTo p (.removing started lock.inode)
      else retry proto s p started
  | .removing started _ => { s.goTo p (.creating started) with lock := none }
  | .stamping hold =>
    { s.goTo p (.working hold proto.first) with
      lock := s.lock.map fun lock =>
        if lock.inode = hold.inode then { lock with stamp := s.now } else lock }
  | .working hold place =>
    match proto.work p s.shared place with
    | (shared, .inl place) => { s.goTo p (.working hold place) with shared := shared }
    | (shared, .inr result) => { s.goTo p (.releasing hold result) with shared := shared }
  | .releasing _ result => { s.goTo p (.done result) with lock := none }
  | .done _ | .timedOut | .crashed => s

def step (s : State ι σ κ ρ) : Event ι → State ι σ κ ρ
  | .tick ms => { s with now := s.now + ms }
  | .act p => act proto s p
  | .crash p =>
    match s.phase p with
    | .done _ | .timedOut => s
    | _ => s.goTo p .crashed

/-- No running process holds the lock longer than the limit. -/
def Prompt (s : State ι σ κ ρ) : Prop :=
  ∀ p, ∀ hold ∈ (s.phase p).holding, s.now ≤ hold.since + proto.staleMs

instance [Fintype ι] (s : State ι σ κ ρ) : Decidable (Prompt proto s) :=
  inferInstanceAs (Decidable (∀ p, ∀ hold ∈ (s.phase p).holding, _))

/-- A process that removes a file as too old removes the one it looked at. -/
def Exact (s : State ι σ κ ρ) : Event ι → Prop
  | .act p => ∀ judged ∈ (s.phase p).judged, ∀ lock ∈ s.lock, lock.inode = judged
  | _ => True

instance (s : State ι σ κ ρ) : ∀ e : Event ι, Decidable (Exact s e)
  | .act p =>
    inferInstanceAs (Decidable (∀ judged ∈ (s.phase p).judged, ∀ lock ∈ s.lock, _))
  | .tick _ | .crash _ => isTrue trivial

/-! ## The invariant -/

/-- What stands when no process removes another file than the one it looked at: `know` is
what a process knows of the resource at its place in the work, `post` what it has made
sure of when it gives its result. -/
structure Inv (know : ι → σ → κ → Prop) (post : ι → ρ → Prop) (s : State ι σ κ ρ) : Prop where
  /-- A process at work has its own file in place. -/
  owned : ∀ p, ∀ hold ∈ (s.phase p).holding,
    ∃ lock ∈ s.lock, lock.inode = hold.inode ∧ hold.since ≤ lock.stamp
  /-- No two processes took one file. -/
  alone : ∀ p q, ∀ hold ∈ (s.phase p).holding, ∀ hold' ∈ (s.phase q).holding,
    hold.inode = hold'.inode → p = q
  /-- Files are counted as they are made. -/
  counted : ∀ lock ∈ s.lock, lock.inode < s.made ∧ lock.stamp ≤ s.now
  /-- A file judged too old belongs to no process at work. -/
  abandoned : ∀ p, ∀ judged ∈ (s.phase p).judged,
    judged < s.made ∧ ∀ q, ∀ hold ∈ (s.phase q).holding, hold.inode ≠ judged
  known : ∀ p hold place, s.phase p = .working hold place → know p s.shared place
  posted : ∀ p hold result, s.phase p = .releasing hold result ∨ s.phase p = .done result →
    post p result

variable {proto} {know : ι → σ → κ → Prop} {post : ι → ρ → Prop} {s : State ι σ κ ρ}

omit [DecidableEq ι] in
/-- At most one process is at work. -/
theorem Inv.eq_of_holding (h : Inv know post s) {p q : ι} {hold hold' : Hold}
    (hp : hold ∈ (s.phase p).holding) (hq : hold' ∈ (s.phase q).holding) : p = q := by
  obtain ⟨lock, hlock, hinode, -⟩ := h.owned p hold hp
  obtain ⟨lock', hlock', hinode', -⟩ := h.owned q hold' hq
  obtain rfl : lock = lock' := Option.some.inj (hlock.symm.trans hlock')
  exact h.alone p q hold hp hold' hq (hinode.symm.trans hinode')

/-- A step that only moves one process on, to a phase that claims nothing new. -/
theorem Inv.goTo (h : Inv know post s) (p : ι) {phase : Phase κ ρ}
    (hholding : phase.holding = none)
    (hjudged : ∀ judged ∈ phase.judged,
      judged < s.made ∧ ∀ q, ∀ hold ∈ (s.phase q).holding, hold.inode ≠ judged)
    (hdone : ∀ result, phase = .done result → post p result) :
    Inv know post (s.goTo p phase) := by
  have hother {q : ι} {hold : Hold} (hq : hold ∈ ((s.goTo p phase).phase q).holding) :
      hold ∈ (s.phase q).holding := by
    by_cases hqp : q = p
    · subst hqp
      simp [State.goTo, hholding] at hq
    · simpa [State.goTo, hqp] using hq
  refine ⟨fun q hold hq => h.owned q hold (hother hq),
    fun q r hold hq hold' hr => h.alone q r hold (hother hq) hold' (hother hr), h.counted,
    fun q judged hq => ?_, fun q hold place hq => ?_, fun q hold result hq => ?_⟩
  · by_cases hqp : q = p
    · subst hqp
      have hq' : judged ∈ phase.judged := by simpa [State.goTo] using hq
      exact ⟨(hjudged judged hq').1, fun r hold hr => (hjudged judged hq').2 r hold (hother hr)⟩
    · have hq' : judged ∈ (s.phase q).judged := by simpa [State.goTo, hqp] using hq
      exact ⟨(h.abandoned q judged hq').1, fun r hold hr => (h.abandoned q judged hq').2 r hold
        (hother hr)⟩
  · by_cases hqp : q = p
    · subst hqp
      have hphase : phase = .working hold place := by simpa [State.goTo] using hq
      rw [hphase] at hholding
      cases hholding
    · exact h.known q hold place (by simpa [State.goTo, hqp] using hq)
  · by_cases hqp : q = p
    · subst hqp
      have hphase : phase = .releasing hold result ∨ phase = .done result := by
        simpa [State.goTo] using hq
      cases hphase with
      | inl hphase =>
        rw [hphase] at hholding
        cases hholding
      | inr hphase => exact hdone result hphase
    · exact h.posted q hold result (by simpa [State.goTo, hqp] using hq)

/-- A step of a process while no other one is at work. -/
theorem Inv.sole (h : Inv know post s) (p : ι)
    (hsole : ∀ q, q ≠ p → (s.phase q).holding = none) {s' : State ι σ κ ρ} {phase : Phase κ ρ}
    (hphase : s'.phase = Function.update s.phase p phase) (hmade : s.made ≤ s'.made)
    (hcounted : ∀ lock ∈ s'.lock, lock.inode < s'.made ∧ lock.stamp ≤ s'.now)
    (howned : ∀ hold ∈ phase.holding,
      ∃ lock ∈ s'.lock, lock.inode = hold.inode ∧ hold.since ≤ lock.stamp)
    (hjudged : phase.judged = none)
    (hfresh : ∀ hold ∈ phase.holding, ∀ q, ∀ judged ∈ (s.phase q).judged, hold.inode ≠ judged)
    (hknown : ∀ hold place, phase = .working hold place → know p s'.shared place)
    (hposted : ∀ hold result, phase = .releasing hold result ∨ phase = .done result →
      post p result) : Inv know post s' := by
  have hself : s'.phase p = phase := by rw [hphase, Function.update_self]
  have hother {q : ι} (hq : q ≠ p) : s'.phase q = s.phase q := by
    rw [hphase, Function.update_of_ne hq]
  -- Whoever is at work afterwards is the process that took the step.
  have hp {q : ι} {hold : Hold} (hq : hold ∈ (s'.phase q).holding) :
      q = p ∧ hold ∈ phase.holding := by
    by_cases hqp : q = p
    · subst hqp
      exact ⟨rfl, hself ▸ hq⟩
    · rw [hother hqp, hsole q hqp] at hq
      cases hq
  refine ⟨fun q hold hq => howned hold (hp hq).2,
    fun q r hold hq hold' hr _ => (hp hq).1.trans (hp hr).1.symm, hcounted, ?_, ?_, ?_⟩
  · intro q judged hq
    by_cases hqp : q = p
    · subst hqp
      rw [hself, hjudged] at hq
      cases hq
    · rw [hother hqp] at hq
      exact ⟨Nat.lt_of_lt_of_le (h.abandoned q judged hq).1 hmade,
        fun r hold hr => hfresh hold (hp hr).2 q judged hq⟩
  · intro q hold place hq
    obtain ⟨rfl, -⟩ := @hp q hold (by rw [hq]; rfl)
    exact hknown hold place (hself.symm.trans hq)
  · intro q hold result hq
    by_cases hqp : q = p
    · subst hqp
      exact hposted hold result (hself ▸ hq)
    · rw [hother hqp] at hq
      exact h.posted q hold result hq

omit [DecidableEq ι] in
theorem Inv.tick (h : Inv know post s) (ms : ℕ) :
    Inv know post { s with now := s.now + ms } :=
  { h with counted := fun lock hlock =>
      ⟨(h.counted lock hlock).1, Nat.le_add_right_of_le (h.counted lock hlock).2⟩ }

/-- A process that finds the file too old has found one nobody works with. -/
theorem Inv.judge (h : Inv know post s) (hprompt : Prompt proto s) {lock : Lock}
    (hlock : lock ∈ s.lock) (hstale : proto.isStale s.now lock = true) (p : ι) (started : ℕ) :
    Inv know post (s.goTo p (.removing started lock.inode)) := by
  have hnobody (q : ι) (hold : Hold) (hq : hold ∈ (s.phase q).holding) :
      hold.inode ≠ lock.inode := by
    intro hinode
    obtain ⟨lock', hlock', -, hsince⟩ := h.owned q hold hq
    obtain rfl : lock = lock' := Option.some.inj (hlock.symm.trans hlock')
    have hnow := hprompt q hold hq
    obtain ⟨-, hage⟩ : lock.stamp ≤ s.now ∧ s.now - lock.stamp > proto.staleMs := by
      simpa [Protocol.isStale] using hstale
    omega
  refine h.goTo p rfl (fun judged hjudged => ?_) nofun
  obtain rfl : lock.inode = judged := Option.some.inj hjudged
  exact ⟨(h.counted lock hlock).1, hnobody⟩

theorem Inv.retry (h : Inv know post s) (p : ι) (started : ℕ) :
    Inv know post (retry proto s p started) := by
  unfold LockFile.retry
  split
  · exact h.goTo p rfl nofun nofun
  · exact h.goTo p rfl nofun nofun

/-- A piece of work that starts from what is known comes to something known, or makes
sure of what the result is to promise. -/
def Works (proto : Protocol ι σ κ ρ) (know : ι → σ → κ → Prop) (post : ι → ρ → Prop) (p : ι)
    (shared : σ) (place : κ) : Prop :=
  match proto.work p shared place with
  | (shared, .inl place) => know p shared place
  | (_, .inr result) => post p result

/-- **One step of a process** keeps the invariant where it removes no other file than the
one it looked at. -/
theorem Inv.act (h : Inv know post s) (hprompt : Prompt proto s) (p : ι)
    (hexact : Exact s (.act p)) (hfirst : ∀ shared, know p shared proto.first)
    (hwork : ∀ hold place, s.phase p = .working hold place → know p s.shared place →
      Works proto know post p s.shared place) : Inv know post (act proto s p) := by
  unfold LockFile.act
  -- Where the process is at work itself, no other one is.
  have hsole {hold : Hold} (hp : hold ∈ (s.phase p).holding) (q : ι) (hq : q ≠ p) :
      (s.phase q).holding = none := by
    rw [Option.eq_none_iff_forall_not_mem]
    exact fun hold' hold'_mem => hq (h.eq_of_holding hold'_mem hp)
  cases hphase : s.phase p with
  | idle => exact h.goTo p rfl nofun nofun
  | creating started =>
    dsimp only
    cases hlock : s.lock with
    | some lock => exact h.goTo p rfl nofun nofun
    | none =>
      have hnobody (q : ι) : (s.phase q).holding = none := by
        rw [Option.eq_none_iff_forall_not_mem]
        intro hold hq
        obtain ⟨lock, hmem, -⟩ := h.owned q hold hq
        rw [hlock] at hmem
        cases hmem
      refine h.sole p (fun q _ => hnobody q) rfl (Nat.le_succ _) ?_ ?_ rfl ?_ nofun nofun
      · rintro lock ⟨⟩
        exact ⟨Nat.lt_succ_self _, Nat.le_refl _⟩
      · rintro hold ⟨⟩
        exact ⟨_, rfl, rfl, Nat.le_refl _⟩
      · rintro hold ⟨⟩ q judged hq
        exact (Nat.ne_of_lt (h.abandoned q judged hq).1).symm
  | checking started =>
    dsimp only
    cases hlock : s.lock with
    | none => exact h.retry p started
    | some lock =>
      dsimp only
      split
      · exact h.judge hprompt hlock ‹_› p started
      · exact h.retry p started
  | removing started judged =>
    have hmem : judged ∈ (s.phase p).judged := by rw [hphase]; rfl
    have hnobody (q : ι) : (s.phase q).holding = none := by
      rw [Option.eq_none_iff_forall_not_mem]
      intro hold hq
      obtain ⟨lock, hlock, hinode, -⟩ := h.owned q hold hq
      exact (h.abandoned p judged hmem).2 q hold hq (hinode ▸ hexact judged hmem lock hlock)
    exact h.sole p (fun q _ => hnobody q) rfl (Nat.le_refl _) nofun nofun rfl nofun nofun nofun
  | stamping hold =>
    have hp : hold ∈ (s.phase p).holding := by rw [hphase]; rfl
    obtain ⟨lock, hlock, hinode, hsince⟩ := h.owned p hold hp
    have hcount := h.counted lock hlock
    refine h.sole p (hsole hp) rfl (Nat.le_refl _) ?_ ?_ rfl ?_ ?_ nofun
    · dsimp only [State.goTo]
      rw [Option.mem_def.mp hlock, Option.map_some, if_pos hinode]
      rintro stamped ⟨⟩
      exact ⟨hcount.1, Nat.le_refl _⟩
    · rintro hold' ⟨⟩
      dsimp only [State.goTo]
      rw [Option.mem_def.mp hlock, Option.map_some, if_pos hinode]
      exact ⟨_, rfl, hinode, Nat.le_trans hsince hcount.2⟩
    · rintro hold' ⟨⟩ q judged hq
      exact (h.abandoned q judged hq).2 p hold hp
    · rintro hold' place ⟨⟩
      exact hfirst _
  | working hold place =>
    have hp : hold ∈ (s.phase p).holding := by rw [hphase]; rfl
    have hcame := hwork hold place hphase (h.known p hold place hphase)
    have howned {hold' : Hold} (hmem : hold' ∈ some hold) :
        ∃ lock ∈ s.lock, lock.inode = hold'.inode ∧ hold'.since ≤ lock.stamp :=
      h.owned p hold' (Option.some.inj hmem ▸ hp)
    have hfresh {hold' : Hold} (hmem : hold' ∈ some hold) (q : ι) (judged : ℕ)
        (hq : judged ∈ (s.phase q).judged) : hold'.inode ≠ judged :=
      (h.abandoned q judged hq).2 p hold' (Option.some.inj hmem ▸ hp)
    unfold Works at hcame
    dsimp only
    cases hnext : proto.work p s.shared place with
    | mk shared next =>
      rw [hnext] at hcame
      cases next with
      | inl place' =>
        refine h.sole p (hsole hp) rfl (Nat.le_refl _) h.counted (fun _ => howned) rfl
          (fun _ => hfresh) ?_ nofun
        intro hold' place'' hplace
        rw [← (Phase.working.inj hplace).2]
        exact hcame
      | inr result =>
        refine h.sole p (hsole hp) rfl (Nat.le_refl _) h.counted (fun _ => howned) rfl
          (fun _ => hfresh) nofun ?_
        intro hold' result' hresult
        cases hresult with
        | inl hresult =>
          rw [← (Phase.releasing.inj hresult).2]
          exact hcame
        | inr hresult => cases hresult
  | releasing hold result =>
    have hp : hold ∈ (s.phase p).holding := by rw [hphase]; rfl
    refine h.sole p (hsole hp) rfl (Nat.le_refl _) nofun nofun rfl nofun nofun ?_
    intro hold' result' hresult
    cases hresult with
    | inl hresult => cases hresult
    | inr hresult =>
      rw [← Phase.done.inj hresult]
      exact h.posted p hold result (.inl hphase)
  | done result => exact h
  | timedOut => exact h
  | crashed => exact h

/-- The steps after which the invariant stands: no process removes another file than the
one it looked at, and the piece of work that is done may be done. -/
def Orderly (may : ι → σ → κ → Prop) (s : State ι σ κ ρ) : Event ι → Prop
  | .act p => Exact s (.act p) ∧ ∀ place ∈ (s.phase p).place, may p s.shared place
  | _ => True

instance (may : ι → σ → κ → Prop) [∀ p shared place, Decidable (may p shared place)]
    (s : State ι σ κ ρ) : ∀ e : Event ι, Decidable (Orderly may s e)
  | .act p =>
    inferInstanceAs (Decidable (Exact s (.act p) ∧ ∀ place ∈ (s.phase p).place, _))
  | .tick _ | .crash _ => isTrue trivial

theorem Inv.step (h : Inv know post s) (hprompt : Prompt proto s) {may : ι → σ → κ → Prop}
    (hfirst : ∀ p shared, know p shared proto.first)
    (hwork : ∀ p shared place, know p shared place → may p shared place →
      Works proto know post p shared place)
    {e : Event ι} (horderly : Orderly may s e) : Inv know post (step proto s e) := by
  cases e with
  | tick ms => exact h.tick ms
  | act p =>
    refine h.act hprompt p horderly.1 (hfirst p) fun hold place hphase hknow => ?_
    exact hwork p s.shared place hknow (horderly.2 place (by rw [hphase]; rfl))
  | crash p =>
    have hcrash : LockFile.step proto s (.crash p) = s ∨
        LockFile.step proto s (.crash p) = s.goTo p .crashed := by
      simp only [LockFile.step]
      split
      · exact .inl rfl
      · exact .inl rfl
      · exact .inr rfl
    cases hcrash with
    | inl hsame => rwa [hsame]
    | inr hstop =>
      rw [hstop]
      exact h.goTo p rfl nofun nofun

/-- A system in which no process has started; a lock file may have been left behind. -/
structure Starts (s : State ι σ κ ρ) : Prop where
  idle : ∀ p, s.phase p = .idle
  counted : ∀ lock ∈ s.lock, lock.inode < s.made ∧ lock.stamp ≤ s.now

omit [DecidableEq ι] in
theorem Starts.inv (h : Starts s) : Inv know post s := by
  refine ⟨fun p hold hp => ?_, fun p q hold hp => ?_, h.counted, fun p judged hp => ?_,
    fun p hold place hp => ?_, fun p hold result hp => ?_⟩
  all_goals rw [h.idle p] at hp
  · cases hp
  · cases hp
  · cases hp
  · cases hp
  · cases hp with
    | inl hp => cases hp
    | inr hp => cases hp

/-- **The rule of the lock.**  Where a process knows what it needs when it starts its work,
and each piece of work that may be done comes from what is known to what is known or
promised, every result given in an orderly run is as promised. -/
theorem result_of_meets {may : ι → σ → κ → Prop} (hs : Starts s)
    (hfirst : ∀ p shared, know p shared proto.first)
    (hwork : ∀ p shared place, know p shared place → may p shared place →
      Works proto know post p shared place)
    {events : List (Event ι)}
    (hprompt : Runs.Meets (LockFile.step proto) (fun s _ => Prompt proto s) s events)
    (hmeets : Runs.Meets (LockFile.step proto) (Orderly may) s events) {p : ι} {result : ρ}
    (hdone : (Runs.run (LockFile.step proto) s events).phase p = .done result) :
    post p result := by
  have hinv : Inv know post (Runs.run (LockFile.step proto) s events) :=
    Runs.Meets.invariant (fun s e hinv hguard => hinv.step hguard.1 hfirst hwork hguard.2)
      hs.inv (hprompt.and hmeets)
  exact hinv.posted p ⟨0, 0⟩ result (.inr hdone)

end Protheus.LockFile
