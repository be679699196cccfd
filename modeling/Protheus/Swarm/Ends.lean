import Protheus.Swarm.Quarantine

/-!
The end of a session: once it is terminated, completed or shut down, nothing brings it
back (`ends_are_final`), in every run that from then on neither resumes it nor releases
a thorn cell of it.  `restore_quarantined_target` puts back the status from before the
quarantine, and `sessions_resume` makes reachable whatever it finds.
-/

namespace Protheus.Swarm

open Runs

/-- A session that has ended: `terminated_at_ms` is set, or `force_shutdown` came. -/
def SessionMetadata.isOver (session : SessionMetadata) : Bool :=
  (session.persistent.bind (·.terminatedAtMs)).isSome || session.status == .shutdownT0

/-- The later state has brought the session back: to a running status, within reach, or
among the services that are discovered. -/
def Revived (state state' : SwarmState) (id : String) : Prop :=
  ∃ session session' : SessionMetadata, state.sessions[id]? = some session ∧
    state'.sessions[id]? = some session' ∧
    (session.status.isRunning = false ∧ session'.status.isRunning = true ∨
      session.reachable = false ∧ session'.reachable = true ∨
      ¬state.Discoverable id ∧ state'.Discoverable id)

/-- An operation that resumes no session under the identifier, but for one that has ended
within reach, and releases no thorn cell of it. -/
def LetsRest (id : String) (_ : Host) (_ : List ℕ) (state : SwarmState) (op : Op) : Prop :=
  match op with
  | .resume sessionId _ => sessionId = id → ∀ session ∈ state.sessions[id]?,
      session.persistent.isSome = true →
        session.reachable = true ∧ (session.persistent.bind (·.terminatedAtMs)).isSome = true
  | .releaseThorn targetId _ _ => targetId = id → thornIdsFor state id = []
  | _ => True

instance (id : String) (host : Host) (readings : List ℕ) (state : SwarmState) (op : Op) :
    Decidable (LetsRest id host readings state op) := by
  unfold LetsRest
  cases op <;> exact inferInstance

/-- A life that is no nearer to running, or to being reached, than the one it is compared
with, and that recovery after a reload leaves alone. -/
structure AtRest (life life' : Life) : Prop where
  running : life'.status.isRunning = true → life.status.isRunning = true
  reachable : life'.reachable = true → life.reachable = true
  unrecovered : life'.ended = some none → life'.status.isRunning = false

theorem AtRest.change {op : Op} {id : String} {life₀ life life' : Life} (h : AtRest life₀ life)
    (hchange : Change op id life life')
    (hresume : ∀ nowMs, op = .resume id nowMs → life.ended.isSome = true →
      life.reachable = true ∧ life.ended ≠ some none)
    (hrelease : ∀ reason nowMs, op ≠ .releaseThorn id reason nowMs) : AtRest life₀ life' := by
  have hdown {status : SessionStatus} {ended : Option (Option ℕ)} {reachable : Bool}
      {previous : Option SessionStatus} (hstatus : status.isRunning = false)
      (hreach : reachable = true → life₀.reachable = true) :
      AtRest life₀ { life with
        status, ended, reachable, quarantinePreviousStatus := previous } :=
    ⟨fun hrunning => by simp [hstatus] at hrunning, hreach, fun _ => hstatus⟩
  cases hchange with
  | same => exact h
  | refused => exact hdown rfl h.reachable
  | finished _ status hstatus => exact hdown hstatus h.reachable
  | resumed nowMs hop hended =>
    obtain ⟨hreach, hover⟩ := hresume nowMs hop hended
    unfold Life.resume
    split
    case h_1 hnone => exact absurd hnone hover
    case h_2 => exact ⟨h.running, fun _ => h.reachable hreach, h.unrecovered⟩
  | recovered =>
    unfold Life.recover
    split
    case isTrue hrecovers =>
      have hnot := h.unrecovered hrecovers.1
      simp [hrecovers.2] at hnot
    case isFalse => exact h
  | quarantined => exact hdown rfl nofun
  | destroyed => exact hdown rfl nofun
  | restored reason nowMs hop => exact absurd hop (hrelease reason nowMs)
  | shutDown => exact hdown rfl nofun

/-- The session is at rest, compared with the first state. -/
structure Resting (first state : SwarmState) (id : String) : Prop where
  life : ∀ life₀, first.lives id = some life₀ → ∃ life, state.lives id = some life ∧ AtRest life₀ life
  healthy : state.Healthy id → first.Healthy id

theorem releaseThorn_of_nil {state : SwarmState} {targetId : String} (reason : String) (nowMs : ℕ)
    (h : thornIdsFor state targetId = []) :
    (releaseThornCellsForTarget state targetId reason nowMs).2 = state := by
  unfold releaseThornCellsForTarget
  rw [h]
  rfl

theorem exec_resting {host : Host} {first : SwarmState} {id : String} {life₀ : Life}
    (hfirst : first.lives id = some life₀) (readings : List ℕ) (state : SwarmState) (op : Op)
    (h : Resting first state id) (hrest : LetsRest id host readings state op) :
    Resting first (exec host readings op state).2 id := by
  by_cases hrelease : ∃ reason nowMs, op = .releaseThorn id reason nowMs
  · obtain ⟨reason, nowMs, rfl⟩ := hrelease
    have hsame : (exec host readings (.releaseThorn id reason nowMs) state).2 = state :=
      releaseThorn_of_nil reason nowMs (hrest rfl)
    rwa [hsame]
  · obtain ⟨life, hlife, hat⟩ := h.life life₀ hfirst
    constructor
    case life =>
      intro life₁ hlife₁
      rw [hfirst] at hlife₁
      cases hlife₁
      have hstep := exec_step host readings op state id
      rw [hlife] at hstep
      generalize hafter : (exec host readings op state).2.lives id = after at hstep
      cases hstep with
      | kept _ life' hchange =>
        refine ⟨life', rfl, hat.change hchange ?_ ?_⟩
        · intro nowMs hop hended
          subst hop
          obtain ⟨session, hsession, rfl⟩ := Option.map_eq_some_iff.mp hlife
          have hpersistent : session.persistent.isSome = true := by
            rwa [SessionMetadata.life, Option.isSome_map] at hended
          obtain ⟨hreach, hover⟩ := hrest rfl session hsession hpersistent
          refine ⟨hreach, fun hnone => ?_⟩
          obtain ⟨runtime, hruntime, hended⟩ := Option.map_eq_some_iff.mp hnone
          rw [hruntime, Option.bind_some, hended] at hover
          cases hover
        · exact fun reason nowMs hop => hrelease ⟨reason, nowMs, hop⟩
    case healthy =>
      intro hhealthy
      rcases exec_healthy host readings op state id hhealthy with hwas | hnone | ⟨reason, nowMs, hop, -⟩
      · exact h.healthy hwas
      · rw [hlife] at hnone
        cases hnone
      · exact absurd ⟨reason, nowMs, hop⟩ hrelease

theorem SessionMetadata.isOver_life {session : SessionMetadata} (h : session.isOver = true) :
    AtRest session.life session.life := by
  refine ⟨fun hrunning => hrunning, fun hreach => hreach, fun hended => ?_⟩
  rcases Bool.or_eq_true_iff.mp h with hover | hdown
  · obtain ⟨runtime, hruntime, hnone⟩ := Option.map_eq_some_iff.mp hended
    rw [hruntime, Option.bind_some, hnone] at hover
    cases hover
  · have hstatus : session.status = .shutdownT0 := by simpa using hdown
    rw [SessionMetadata.life, hstatus]
    rfl

/-- **Ends are final**: what has ended is not brought back by a run that lets it rest. -/
theorem ends_are_final (host : Host) (requests later : List Request) (id : String)
    (session : SessionMetadata)
    (hsession : (run (step host) {} requests).sessions[id]? = some session)
    (hover : session.isOver = true)
    (h : Meets (step host) (Heeds host (LetsRest id)) (run (step host) {} requests) later) (n : ℕ) :
    ¬Revived (run (step host) {} requests)
      (before (step host) (run (step host) {} requests) later n) id := by
  generalize run (step host) {} requests = first at hsession h ⊢
  have hfirst := SwarmState.lives_eq_some hsession
  have hstart : Resting first first id :=
    ⟨fun life₀ hlife₀ => by
      rw [hfirst] at hlife₀
      cases hlife₀
      exact ⟨_, hfirst, session.isOver_life hover⟩, fun hhealthy => hhealthy⟩
  have hstep (state : SwarmState) (request : Request) (hin : Resting first state id)
      (hheeds : Heeds host (LetsRest id) state request) : Resting first (step host state request) id :=
    @step_invariant host (fun state => Resting first state id) (LetsRest id) (exec_resting hfirst)
      state request hin hheeds
  have hat := Meets.before hstep hstart h n
  generalize before (step host) first later n = state at hat
  obtain ⟨life, hlife, hrest⟩ := hat.life _ hfirst
  rintro ⟨session₀, session', hsession₀, hsession', hback⟩
  rw [hsession] at hsession₀
  cases hsession₀
  rw [SwarmState.lives_eq_some hsession'] at hlife
  cases hlife
  rcases hback with ⟨hnot, hrunning⟩ | ⟨hnot, hreach⟩ | ⟨hnot, hfound⟩
  · exact absurd (hrest.running hrunning) (by simp [SessionMetadata.life, hnot])
  · exact absurd (hrest.reachable hreach) (by simp [SessionMetadata.life, hnot])
  · obtain ⟨hhealthy, life', hlife', hreach⟩ := (state.discoverable_iff id).mp hfound
    rw [SwarmState.lives_eq_some hsession'] at hlife'
    cases hlife'
    exact hnot ((first.discoverable_iff id).mpr
      ⟨hat.healthy hhealthy, _, hfirst, hrest.reachable hreach⟩)

/-! ### A watch that is terminated -/

def terminateWatch : Request := (Command.sessionsTerminate (some watchId) false).at 3

def releaseWatch' : Request := (Command.thornRelease (some watchId) none).at 4

theorem ends_are_final_watch : ¬Revived
    (run (step watchHost) {} [spawnWatch, terminateWatch])
    (before (step watchHost) (run (step watchHost) {} [spawnWatch, terminateWatch])
      [resumeWatch, releaseWatch'] 2) watchId := by
  have hover : ∃ session ∈ (run (step watchHost) {} [spawnWatch, terminateWatch]).sessions[watchId]?,
      session.isOver = true := by
    decide
  obtain ⟨session, hsession, hover⟩ := hover
  exact ends_are_final watchHost [spawnWatch, terminateWatch] [resumeWatch, releaseWatch'] watchId
    session hsession hover (by decide) 2

/-- A watch that was quarantined and then terminated runs again when its thorn cell is
released. -/
theorem released_after_end : ∃ session : SessionMetadata,
    (run (step watchHost) {} [spawnWatch, quarantineWatch, terminateWatch]).sessions[watchId]? =
        some session ∧ session.isOver = true ∧
      Revived (run (step watchHost) {} [spawnWatch, quarantineWatch, terminateWatch])
        (run (step watchHost) {} [spawnWatch, quarantineWatch, terminateWatch, releaseWatch'])
        watchId := by
  have hbefore : ∃ session ∈ (run (step watchHost) {} [spawnWatch, quarantineWatch,
      terminateWatch]).sessions[watchId]?, session.isOver = true ∧ session.status.isRunning = false := by
    decide
  have hafter : ∃ session ∈ (run (step watchHost) {} [spawnWatch, quarantineWatch, terminateWatch,
      releaseWatch']).sessions[watchId]?, session.status.isRunning = true := by
    decide
  obtain ⟨session, hsession, hover, hstopped⟩ := hbefore
  obtain ⟨session', hsession', hrunning⟩ := hafter
  exact ⟨session, hsession, hover, session, session', hsession, hsession',
    .inl ⟨hstopped, hrunning⟩⟩

end Protheus.Swarm
