import Protheus.Swarm.Services
import Protheus.Swarm.Ticks

/-!
The isolation of quarantined sessions: as long as an active thorn cell targets a
session, it is out of reach (`quarantine_isolates`), in every run that neither resumes
nor terminates such a session.  `sessions_resume` and `sessions_terminate` write status
and reachability without a look at the thorn cells.
-/

namespace Protheus.Swarm

open Runs

/-- No active thorn cell targets a session that can be reached. -/
def QuarantineIsolates (state : SwarmState) : Prop :=
  ∀ (thornId targetId : String) (thorn : SessionMetadata), state.sessions[thornId]? = some thorn →
    thorn.isThornFor targetId = true → ∃ target, state.sessions[targetId]? = some target ∧
      target.reachable = false ∧ target.status = .quarantinedThorn ∧ ¬state.Healthy targetId

/-- The session an operation resumes or terminates. -/
def Op.overrides : Op → Option String
  | .resume id _ | .terminate id _ _ => some id
  | _ => none

/-- An operation that resumes or terminates no persistent session behind a thorn cell. -/
def SparesQuarantined (_ : Host) (_ : List ℕ) (state : SwarmState) (op : Op) : Prop :=
  ∀ id ∈ op.overrides, ∀ session ∈ state.sessions[id]?, session.persistent.isSome = true →
    thornIdsFor state id = []

instance (host : Host) (readings : List ℕ) (state : SwarmState) (op : Op) :
    Decidable (SparesQuarantined host readings state op) :=
  inferInstanceAs (Decidable (∀ id ∈ op.overrides, ∀ session ∈ state.sessions[id]?,
    session.persistent.isSome = true → thornIdsFor state id = []))

/-! ## Lives -/

/-- A thorn cell never ran and was never quarantined itself. -/
structure Life.IsCell (life : Life) : Prop where
  ended : life.ended = none
  previous : life.quarantinePreviousStatus = none
  inactive : life.status.isActive = false

section Change

variable {op : Op} {id : String} {life life' : Life}

/-- The sessions a check-in comes to. -/
theorem ChecksIn.cases (h : ChecksIn id life op)
    (htick : ∀ nowMs, op = .tickRound nowMs id → life.status.isActive = true) :
    life.status.isActive = true ∨ life.ended.isSome = true ∧ id ∈ op.overrides := by
  cases h with
  | tick nowMs => exact .inl (htick nowMs rfl)
  | wake nowMs h => exact .inl h
  | terminate graceful nowMs h => exact .inr ⟨h, rfl⟩

theorem Life.IsCell.not_checksIn (hcell : life.IsCell)
    (htick : ∀ nowMs, op = .tickRound nowMs id → life.status.isActive = true) :
    ¬ChecksIn id life op := by
  intro h
  rcases h.cases htick with hactive | ⟨hended, -⟩
  · simp [hcell.inactive] at hactive
  · simp [hcell.ended] at hended

theorem Life.IsCell.recover (hcell : life.IsCell) : life.recover = life := by
  unfold Life.recover
  rw [if_neg (by simp [hcell.ended])]

theorem Life.IsCell.change (hcell : life.IsCell) (hthorn : life.thornCell = true)
    (htick : ∀ nowMs, op = .tickRound nowMs id → life.status.isActive = true)
    (h : Change op id life life') : life'.IsCell := by
  cases h with
  | same => exact hcell
  | refused hchecks => exact absurd hchecks (hcell.not_checksIn htick)
  | finished hchecks => exact absurd hchecks (hcell.not_checksIn htick)
  | resumed nowMs hop hended => simp [hcell.ended] at hended
  | recovered => rwa [hcell.recover]
  | quarantined _ _ _ _ hnot => simp [hthorn] at hnot
  | destroyed => exact ⟨hcell.ended, hcell.previous, rfl⟩
  | restored => exact ⟨hcell.ended, rfl, by simp [Life.restore, hcell.previous, SessionStatus.isActive]⟩
  | shutDown => exact ⟨hcell.ended, hcell.previous, rfl⟩

/-- An active thorn cell was one before, and nothing has released it. -/
theorem Life.IsCell.isThornFor (hcell : life.thornCell = true → life.IsCell) {targetId : String}
    (htick : ∀ nowMs, op = .tickRound nowMs id → life.status.isActive = true)
    (h : Change op id life life') (hfor : life'.IsThornFor targetId) :
    life.IsThornFor targetId ∧ op ≠ .forceShutdown ∧
      ∀ reason nowMs, op ≠ .releaseThorn targetId reason nowMs := by
  have hcell := hcell (h.sameKin.thornCell ▸ hfor.1)
  cases h with
  | same hdown hthorn =>
    exact ⟨hfor, hdown, fun reason nowMs hop => hthorn targetId reason nowMs hop hfor⟩
  | refused hchecks => exact absurd hchecks (hcell.not_checksIn htick)
  | finished hchecks => exact absurd hchecks (hcell.not_checksIn htick)
  | resumed nowMs hop hended => simp [hcell.ended] at hended
  | recovered nowMs hop =>
    rw [hcell.recover] at hfor
    exact ⟨hfor, by rw [hop]; nofun, by rw [hop]; nofun⟩
  | quarantined => cases hfor.2.1
  | destroyed => cases hfor.2.1
  | restored =>
    have hstatus := hfor.2.1
    simp [Life.restore, hcell.previous] at hstatus
  | shutDown => cases hfor.2.1

/-- What is quarantined stays so, unless it is resumed, terminated or released. -/
theorem Change.stays_quarantined (h : Change op id life life') (hreach : life.reachable = false)
    (hstatus : life.status = .quarantinedThorn) (hdown : op ≠ .forceShutdown)
    (hrelease : ∀ reason nowMs, op ≠ .releaseThorn id reason nowMs)
    (htick : ∀ nowMs, op = .tickRound nowMs id → life.status.isActive = true)
    (hspared : id ∈ op.overrides → life.ended.isSome = false) :
    life'.reachable = false ∧ life'.status = .quarantinedThorn := by
  have hchecks : ¬ChecksIn id life op := by
    intro h
    rcases h.cases htick with hactive | ⟨hended, hoverrides⟩
    · simp [hstatus, SessionStatus.isActive] at hactive
    · simp [hspared hoverrides] at hended
  cases h with
  | same => exact ⟨hreach, hstatus⟩
  | refused h => exact absurd h hchecks
  | finished h => exact absurd h hchecks
  | resumed nowMs hop hended =>
    have hnot := hspared (by rw [hop]; rfl)
    simp [hnot] at hended
  | recovered =>
    unfold Life.recover
    rw [if_neg (by simp [hstatus, SessionStatus.isRunning])]
    exact ⟨hreach, hstatus⟩
  | quarantined _ _ _ _ _ hnot => exact absurd hstatus hnot
  | destroyed _ _ _ _ hfor =>
    have hactive := hstatus.symm.trans hfor.2.1
    cases hactive
  | restored reason nowMs hop => exact absurd hop (hrelease reason nowMs)
  | shutDown hop => exact absurd hop hdown

end Change

/-! ## Runs -/

structure Quarantined (state : SwarmState) : Prop where
  cells : ∀ id life, state.lives id = some life → life.thornCell = true → life.IsCell
  isolated : ∀ thornId targetId thorn, state.lives thornId = some thorn →
    thorn.IsThornFor targetId → ∃ target, state.lives targetId = some target ∧
      target.reachable = false ∧ target.status = .quarantinedThorn ∧ ¬state.Healthy targetId

/-- A session that a quarantine adds is its thorn cell, and its target is out of the registry. -/
theorem quarantine_opens {host : Host} {readings : List ℕ} {state : SwarmState}
    {targetId anomalyType reason x : String} {nowMs : ℕ} {life : Life}
    (hbefore : state.lives x = none)
    (hafter : (quarantineIntoThorn host readings state targetId anomalyType reason nowMs).2.lives x =
      some life) : life = .opened targetId ∧
        ¬(quarantineIntoThorn host readings state targetId anomalyType reason nowMs).2.Healthy
          targetId := by
  have hcases := quarantine_cases host readings state targetId anomalyType reason nowMs
  generalize (quarantineIntoThorn host readings state targetId anomalyType reason nowMs).2 = state'
    at hcases hafter ⊢
  cases hcases with
  | refused =>
    rw [hbefore] at hafter
    cases hafter
  | opened thornId thorn target quarantined hfresh htarget _ _ hthorn hquarantined =>
    rw [lives_behindThorn state thornId hthorn hquarantined] at hafter
    have hne : targetId ≠ thornId := by
      rintro rfl
      rw [hfresh] at htarget
      cases htarget
    constructor
    · by_cases hx : x = thornId
      · subst hx
        rw [Function.update_self] at hafter
        exact (Option.some.inj hafter).symm
      · rw [Function.update_of_ne hx] at hafter
        by_cases hxt : x = targetId
        · subst hxt
          rw [SwarmState.lives_eq_some htarget] at hbefore
          cases hbefore
        · rw [Function.update_of_ne hxt, hbefore] at hafter
          cases hafter
    · intro hhealthy
      rcases SwarmState.healthy_registerServiceInstance hhealthy with h | h
      · have hmarked := SwarmState.healthy_setServiceHealth h
        rw [if_pos rfl] at hmarked
        cases hmarked
      · exact hne h

/-- **Quarantines stay in order** under an operation that spares them. -/
theorem exec_quarantined {host : Host} (readings : List ℕ) (state : SwarmState) (op : Op)
    (h : Quarantined state)
    (hguard : SparesQuarantined host readings state op ∧ TicksActive host readings state op) :
    Quarantined (exec host readings op state).2 := by
  obtain ⟨hspares, hticks⟩ := hguard
  have htick {id : String} {life : Life} (hlife : state.lives id = some life) (nowMs : ℕ)
      (hop : op = .tickRound nowMs id) : life.status.isActive = true := by
    obtain ⟨life', hlife', hactive⟩ := hticks nowMs id hop
    rw [hlife] at hlife'
    cases hlife'
    exact hactive
  constructor
  case cells =>
    intro id life' hafter hthorn
    have hstep := exec_step host readings op state id
    rw [hafter] at hstep
    generalize hbefore : state.lives id = before at hstep
    cases hstep with
    | spawned _ _ hnot => simp [hnot] at hthorn
    | opened targetId anomalyType reason nowMs _ target hop =>
      subst hop
      rw [(quarantine_opens hbefore hafter).1]
      exact ⟨rfl, rfl, rfl⟩
    | kept life _ hchange =>
      have hcell : life.thornCell = true := hchange.sameKin.thornCell ▸ hthorn
      exact (h.cells id life hbefore hcell).change hcell (htick hbefore) hchange
  case isolated =>
    intro thornId targetId thorn hafter hfor
    have hstep := exec_step host readings op state thornId
    rw [hafter] at hstep
    generalize hbefore : state.lives thornId = before at hstep
    cases hstep with
    | spawned _ _ hnot => simp [hfor.1] at hnot
    | opened targetId' anomalyType reason nowMs _ target hop hfor' _ _ _ _ htarget' =>
      have hsame : targetId' = targetId := Option.some.inj (hfor'.2.2.symm.trans hfor.2.2)
      subst hop hsame
      exact ⟨_, htarget', rfl, rfl, (quarantine_opens hbefore hafter).2⟩
    | kept life _ hchange =>
      obtain ⟨hwas, hdown, hrelease⟩ := Life.IsCell.isThornFor (h.cells thornId life hbefore)
        (htick hbefore) hchange hfor
      obtain ⟨target, htarget, hreach, hstatus, hunhealthy⟩ := h.isolated thornId targetId life hbefore hwas
      have hspared : targetId ∈ op.overrides → target.ended.isSome = false := by
        intro hoverrides
        obtain ⟨session, hsession, rfl⟩ := Option.map_eq_some_iff.mp htarget
        have hnone := hspares targetId hoverrides session hsession
        have hmem := (mem_thornIdsFor state targetId thornId).mpr ⟨life, hbefore, hwas⟩
        rw [SessionMetadata.life, Option.isSome_map]
        refine Bool.eq_false_iff.mpr fun hpersistent => ?_
        rw [hnone hpersistent] at hmem
        cases hmem
      have hstep := exec_step host readings op state targetId
      rw [htarget] at hstep
      generalize htarget' : (exec host readings op state).2.lives targetId = after at hstep
      cases hstep with
      | kept _ target' hchange' =>
        obtain ⟨hreach', hstatus'⟩ := hchange'.stays_quarantined hreach hstatus hdown hrelease
          (htick htarget) hspared
        refine ⟨target', rfl, hreach', hstatus', fun hhealthy => ?_⟩
        rcases exec_healthy host readings op state targetId hhealthy with h | h | ⟨reason, nowMs, hop, -⟩
        · exact hunhealthy h
        · rw [htarget] at h
          cases h
        · exact hrelease reason nowMs hop

theorem quarantined_empty : Quarantined {} := by
  constructor <;> intro id <;> simp [SwarmState.lives]

theorem Quarantined.isolates {state : SwarmState} (h : Quarantined state) :
    QuarantineIsolates state := by
  intro thornId targetId thorn hthorn hfor
  obtain ⟨target, htarget, hreach, hstatus, hunhealthy⟩ := h.isolated thornId targetId thorn.life
    (SwarmState.lives_eq_some hthorn) ((thorn.isThornFor_iff targetId).mp hfor)
  obtain ⟨session, hsession, rfl⟩ := Option.map_eq_some_iff.mp htarget
  exact ⟨session, hsession, hreach, hstatus, hunhealthy⟩

/-- **Quarantine isolates**, in every state of a run that resumes and terminates nothing
behind a thorn cell. -/
theorem quarantine_isolates (host : Host) (requests : List Request)
    (h : Meets (step host) (Heeds host SparesQuarantined) {} requests) (n : ℕ) :
    QuarantineIsolates (before (step host) {} requests n) := by
  have hstep (state : SwarmState) (request : Request) (hin : Quarantined state)
      (hheeds : Heeds host SparesQuarantined state request) :
      Quarantined (step host state request) := by
    have hboth : Heeds host (fun host readings state op =>
        SparesQuarantined host readings state op ∧ TicksActive host readings state op) state request :=
      hheeds.and (request_ticks_active host state request)
    exact step_invariant exec_quarantined hin hboth
  exact (Meets.before hstep quarantined_empty h n).isolates

/-! ### A quarantined watch -/

def watchId : String := "swarm-f5464b77a4c0"

def watchHost : Host := .ofDigests
  [(sessionSeed "watch" 0 1, "f5464b77a4c08b1dfa68706dd133fd67f692b7f61d39ae35bfce77035d32c47f"),
    (sessionSeed ("thorn:" ++ watchId) 1 2,
      "b67870486b4d013b2135b9940bf8683426295034597abb2e0853da2e5d69594f")]

def spawnWatch : Request :=
  (Command.spawn none "watch" false 8 none { executionMode := .persistent ⟨3600, 60⟩ }).at 1

def quarantineWatch : Request := (Command.thornQuarantine (some watchId) none none).at 2

def resumeWatch : Request := (Command.sessionsResume (some watchId)).at 3

def releaseWatch : Request := (Command.thornRelease (some watchId) none).at 3

theorem quarantine_isolates_watch : QuarantineIsolates
    (before (step watchHost) {} [spawnWatch, quarantineWatch, releaseWatch, resumeWatch] 4) :=
  quarantine_isolates watchHost _ (by decide) 4

/-- A quarantined session is resumed. -/
theorem resumed_in_quarantine : ¬QuarantineIsolates
    (run (step watchHost) {} [spawnWatch, quarantineWatch, resumeWatch]) := by
  intro h
  have hcell : ∃ thorn ∈ (run (step watchHost) {} [spawnWatch, quarantineWatch,
      resumeWatch]).sessions["swarm-b67870486b4d"]?, thorn.isThornFor watchId = true := by
    decide
  have hreach : ∃ target ∈ (run (step watchHost) {} [spawnWatch, quarantineWatch,
      resumeWatch]).sessions[watchId]?, target.reachable = true := by
    decide
  obtain ⟨thorn, hthorn, hfor⟩ := hcell
  obtain ⟨target, htarget, hreachable⟩ := hreach
  obtain ⟨target', htarget', hnot, -⟩ := h _ _ thorn hthorn hfor
  rw [Option.mem_def.mp htarget] at htarget'
  cases htarget'
  rw [hreachable] at hnot
  cases hnot

end Protheus.Swarm
