import Protheus.Swarm.Run

/-!
What the operations of the swarm runtime do to the life of a session: its status,
whether it is reachable, whether it has ended, and its part in a quarantine.

`exec_step` says it once for every operation and every session: a session is born,
is left as it was, or changes in one of the ways of `Change`, each of which names
the operations it comes from.
-/

namespace Protheus.Swarm

open Std (ExtTreeMap)
open Function (update)
open RustStd (u64Max addUpTo)

/-- The part of a session that its life is about. -/
structure Life where
  parentId : Option String
  budgetParentSessionId : Option String
  budgeted : Bool
  status : SessionStatus
  reachable : Bool
  /-- Of a persistent session, when it was terminated or completed. -/
  ended : Option (Option ℕ)
  backgroundWorker : Bool
  thornCell : Bool
  thornTargetSessionId : Option String
  quarantinePreviousStatus : Option SessionStatus

def SessionMetadata.life (session : SessionMetadata) : Life where
  parentId := session.parentId
  budgetParentSessionId := session.budgetParentSessionId
  budgeted := session.budgetTelemetry.isSome
  status := session.status
  reachable := session.reachable
  ended := session.persistent.map (·.terminatedAtMs)
  backgroundWorker := session.backgroundWorker
  thornCell := session.thornCell
  thornTargetSessionId := session.thornTargetSessionId
  quarantinePreviousStatus := session.quarantinePreviousStatus

/-- Whether it is an active thorn cell for the target. -/
def Life.IsThornFor (life : Life) (targetId : String) : Prop :=
  life.thornCell = true ∧ life.status = .thornActive ∧ life.thornTargetSessionId = some targetId

theorem SessionMetadata.isThornFor_iff (session : SessionMetadata) (targetId : String) :
    session.isThornFor targetId = true ↔ session.life.IsThornFor targetId := by
  simp [isThornFor, Life.IsThornFor, life, and_assoc]

namespace SwarmState

/-- The lives of the sessions of a state. -/
def lives (state : SwarmState) (id : String) : Option Life := state.sessions[id]?.map (·.life)

theorem lives_eq_some {state : SwarmState} {id : String} {session : SessionMetadata}
    (h : state.sessions[id]? = some session) : state.lives id = some session.life := by
  rw [lives, h, Option.map_some]

theorem lives_congr {state state' : SwarmState} (h : state'.sessions = state.sessions) :
    state'.lives = state.lives := by
  funext x
  rw [lives, lives, h]

theorem lives_insertSession (state : SwarmState) (id : String) (session : SessionMetadata) :
    (state.insertSession id session).lives = update state.lives id (some session.life) := by
  funext x
  rw [lives, getElem?_insertSession, Function.update_apply]
  split <;> rfl

/-- A change of one session that leaves its life alone. -/
theorem lives_insertSession_same {state : SwarmState} {id : String} {session session' : SessionMetadata}
    (h : state.sessions[id]? = some session) (hlife : session'.life = session.life) :
    (state.insertSession id session').lives = state.lives := by
  rw [lives_insertSession, hlife, ← lives_eq_some h, Function.update_eq_self]

theorem lives_modifySession (state : SwarmState) (id : String)
    {f : SessionMetadata → SessionMetadata} {g : Life → Life}
    (hf : ∀ session, (f session).life = g session.life) (x : String) :
    (state.modifySession id f).lives x = if x = id then (state.lives x).map g else state.lives x := by
  rw [lives, getElem?_modifySession]
  split
  · rw [lives, Option.map_map, Option.map_map]
    congr 1
    funext session
    exact hf session
  · rfl

theorem lives_modifySession_same {f : SessionMetadata → SessionMetadata}
    (hf : ∀ session, (f session).life = session.life) (state : SwarmState) (id : String) :
    (state.modifySession id f).lives = state.lives := by
  funext x
  have h := @lives_modifySession state id f (fun life => life) hf x
  simpa using h

theorem lives_map {f : SessionMetadata → SessionMetadata} {g : Life → Life}
    (hf : ∀ session, (f session).life = g session.life) (state : SwarmState)
    (services : ExtTreeMap String (List ServiceInstance)) (x : String) :
    ({ state with
        sessions := state.sessions.map fun _ session => f session
        serviceRegistry := services } : SwarmState).lives x = (state.lives x).map g := by
  rw [lives, lives, ExtTreeMap.getElem?_map, Option.map_map, Option.map_map]
  congr 1
  funext session
  exact hf session

end SwarmState

/-! ## What leaves every life alone -/

theorem lives_setServiceHealth (state : SwarmState) (id : String) (healthy : Bool) :
    (setServiceHealth state id healthy).lives = state.lives := SwarmState.lives_congr rfl

theorem lives_registerServiceInstance (state : SwarmState) (id : String) (role : Option String) :
    (registerServiceInstance state id role).lives = state.lives := by
  cases role <;> exact SwarmState.lives_congr rfl

theorem lives_addChild (state : SwarmState) (parentId : Option String) (id : String) :
    (state.addChild parentId id).lives = state.lives := by
  cases parentId with
  | none => rfl
  | some parentId =>
    refine SwarmState.lives_modifySession_same (fun session => ?_) state parentId
    split <;> rfl

theorem lives_settleBudgetReservation (state : SwarmState) (id : String) :
    (settleBudgetReservation state id).lives = state.lives := by
  unfold settleBudgetReservation
  split
  · rfl
  · split
    · rfl
    · split
      · rfl
      · have hsettled (session : SessionMetadata) :
            ({ session with budgetReservationSettled := true } : SessionMetadata).life = session.life :=
          rfl
        have hcharged (f : BudgetTelemetry → BudgetTelemetry) (session : SessionMetadata) :
            ({ session with budgetTelemetry := session.budgetTelemetry.map f } : SessionMetadata).life =
              session.life := by
          simp [SessionMetadata.life]
        dsimp only
        rw [SwarmState.lives_modifySession_same hsettled,
          SwarmState.lives_modifySession_same (hcharged _)]

theorem lives_reserveBudgetFromParent (state : SwarmState) (parentId : Option String)
    (childId : String) (requestedBudget : Option ℕ) :
    (reserveBudgetFromParent state parentId childId requestedBudget).2.lives = state.lives := by
  unfold reserveBudgetFromParent
  split
  · rfl
  · split
    · rfl
    · split
      · rfl
      · dsimp only
        split
        · rfl
        · split
          · rfl
          · refine SwarmState.lives_modifySession_same (fun session => ?_) state _
            simp [SessionMetadata.life]

/-! ## Changes of a life -/

namespace Life

def resume (life : Life) : Life :=
  match life.ended with
  | some none =>
    { life with
      reachable := true
      status := if life.backgroundWorker then .backgroundRunning else .persistentRunning }
  | _ => { life with reachable := true }

def recover (life : Life) : Life :=
  if life.ended = some none ∧ life.status.isRunning = true then { life with reachable := true }
  else life

def quarantine (life : Life) : Life :=
  { life with
    reachable := false
    status := .quarantinedThorn
    quarantinePreviousStatus := some life.status }

def destroy (life : Life) : Life := { life with status := .thornDestroyed, reachable := false }

def restore (life : Life) : Life :=
  { life with
    reachable := true
    status := life.quarantinePreviousStatus.getD .running
    quarantinePreviousStatus := none }

def shutDown (life : Life) : Life := { life with reachable := false, status := .shutdownT0 }

end Life

/-- A check-in of the session, of one that may have one. -/
inductive ChecksIn (id : String) (life : Life) : Op → Prop where
  | tick (nowMs : ℕ) : ChecksIn id life (.tickRound nowMs id)
  | wake (nowMs : ℕ) (h : life.status.isActive = true) : ChecksIn id life (.wake id nowMs)
  | terminate (graceful : Bool) (nowMs : ℕ) (h : life.ended.isSome = true) :
      ChecksIn id life (.terminate id graceful nowMs)

/-- How an operation changes the life of a session. -/
inductive Change (op : Op) (id : String) (life : Life) : Life → Prop where
  | same (hdown : op ≠ .forceShutdown)
      (hthorn : ∀ targetId reason nowMs, op = .releaseThorn targetId reason nowMs →
        ¬life.IsThornFor targetId) : Change op id life life
  | refused (h : ChecksIn id life op) : Change op id life { life with status := .failed }
  | finished (h : ChecksIn id life op) (status : SessionStatus) (hstatus : status.isRunning = false)
      (nowMs : ℕ) : Change op id life { life with status, ended := some (some nowMs) }
  | resumed (nowMs : ℕ) (hop : op = .resume id nowMs) (h : life.ended.isSome = true) :
      Change op id life life.resume
  | recovered (nowMs : ℕ) (hop : op = .recover nowMs) : Change op id life life.recover
  | quarantined (anomalyType reason : String) (nowMs : ℕ)
      (hop : op = .quarantine id anomalyType reason nowMs) (hcell : life.thornCell = false)
      (hstatus : life.status ≠ .quarantinedThorn) : Change op id life life.quarantine
  | destroyed (targetId reason : String) (nowMs : ℕ) (hop : op = .releaseThorn targetId reason nowMs)
      (h : life.IsThornFor targetId) : Change op id life life.destroy
  | restored (reason : String) (nowMs : ℕ) (hop : op = .releaseThorn id reason nowMs) :
      Change op id life life.restore
  | shutDown (hop : op = .forceShutdown) : Change op id life life.shutDown

/-- What no operation changes. -/
structure SameKin (life life' : Life) : Prop where
  parentId : life'.parentId = life.parentId
  backer : life'.budgetParentSessionId = life.budgetParentSessionId
  budgeted : life'.budgeted = life.budgeted
  thornCell : life'.thornCell = life.thornCell

theorem Change.sameKin {op : Op} {id : String} {life life' : Life} (h : Change op id life life') :
    SameKin life life' := by
  cases h with
  | resumed =>
    unfold Life.resume
    split <;> exact ⟨rfl, rfl, rfl, rfl⟩
  | recovered =>
    unfold Life.recover
    split <;> exact ⟨rfl, rfl, rfl, rfl⟩
  | _ => exact ⟨rfl, rfl, rfl, rfl⟩

def Op.spawnParent : Op → Option (Option String)
  | .spawnSingle parentId _ _ _ | .spawnPersistent parentId _ _ _ _ _ _ => some parentId
  | _ => none

/-- What becomes of a session, or of a name that is still free. -/
inductive Step (state state' : SwarmState) (op : Op) (id : String) :
    Option Life → Option Life → Prop where
  | absent : Step state state' op id none none
  | spawned (life : Life) (hop : op.spawnParent = some life.parentId)
      (hcell : life.thornCell = false)
      (hparent : ∀ parentId, life.parentId = some parentId → ∃ parent,
        state.lives parentId = some parent ∧
          (parent.budgeted = true → life.budgetParentSessionId = some parentId)) :
      Step state state' op id none (some life)
  | opened (targetId anomalyType reason : String) (nowMs : ℕ) (life target : Life)
      (hop : op = .quarantine targetId anomalyType reason nowMs)
      (hcell : life.IsThornFor targetId) (hparent : life.parentId = some targetId)
      (hbudget : life.budgeted = false)
      (htarget : state.lives targetId = some target) (htargetCell : target.thornCell = false)
      (hquarantined : state'.lives targetId = some target.quarantine) :
      Step state state' op id none (some life)
  | kept (life life' : Life) (h : Change op id life life') :
      Step state state' op id (some life) (some life')

/-- A session that is there stays, under the same kin. -/
theorem Step.stays {state state' : SwarmState} {op : Op} {id : String} {life : Life}
    {after : Option Life} (h : Step state state' op id (some life) after) :
    ∃ life', after = some life' ∧ SameKin life life' := by
  cases h with
  | kept _ life' h => exact ⟨life', rfl, h.sameKin⟩

/-! ## The operations -/

section Operations

variable {state : SwarmState} {id : String} {session : SessionMetadata}

theorem applyToolPlanForSession_life (session : SessionMetadata) (plan : List (String × ℕ)) :
    (∀ reason, (applyToolPlanForSession session plan).1 = .error reason →
      (applyToolPlanForSession session plan).2.life = { session.life with status := .failed }) ∧
    (∀ action, (applyToolPlanForSession session plan).1 = .ok action →
      (applyToolPlanForSession session plan).2.life = session.life) := by
  unfold applyToolPlanForSession
  cases ht : session.budgetTelemetry with
  | none => simp
  | some t =>
    dsimp only
    cases t.recordPlan plan none with
    | mk t' result => cases result <;> simp [SessionMetadata.life, ht]

/-- A check-in leaves a life alone, or fails the session. -/
theorem performPersistentCheckIn_life {session charged : SessionMetadata} {result : Except String Unit}
    (hpersistent : session.persistent.isSome = true)
    (h : performPersistentCheckIn session = (result, charged)) :
    charged.life = match result with
      | .ok () => session.life
      | .error _ => { session.life with status := .failed } := by
  obtain ⟨herror, hok⟩ := applyToolPlanForSession_life session (checkInPlan session)
  unfold performPersistentCheckIn at h
  cases hplan : applyToolPlanForSession session (checkInPlan session) with
  | mk answer charged' =>
    rw [hplan] at h herror hok
    cases answer with
    | error reason =>
      obtain ⟨rfl, rfl⟩ := Prod.mk.inj h
      exact herror reason rfl
    | ok action =>
      have hlife := hok action rfl
      dsimp only at h hlife
      have hended : charged'.persistent.isSome = true := by
        have := congrArg Life.ended hlife
        simp only [SessionMetadata.life] at this
        have := congrArg Option.isSome this
        simpa [hpersistent] using this
      obtain ⟨runtime, hruntime⟩ := Option.isSome_iff_exists.mp hended
      rw [hruntime] at h
      obtain ⟨rfl, rfl⟩ := Prod.mk.inj h
      rw [← hlife]
      simp [SessionMetadata.life, hruntime]

/-- The operations that touch one session, or a new one. -/
def Op.IsLocal (op : Op) : Prop :=
  op ≠ .forceShutdown ∧ ∀ targetId reason nowMs, op ≠ .releaseThorn targetId reason nowMs

theorem Change.of_isLocal {op : Op} (h : op.IsLocal) (id : String) (life : Life) :
    Change op id life life :=
  .same h.1 fun targetId reason nowMs hop => absurd hop (h.2 targetId reason nowMs)

theorem Step.of_eq {state' : SwarmState} {op : Op} (hlocal : op.IsLocal)
    (h : state'.lives = state.lives) (x : String) :
    Step state state' op x (state.lives x) (state'.lives x) := by
  rw [h]
  cases state.lives x with
  | none => exact .absent
  | some life => exact .kept _ _ (.of_isLocal hlocal x life)

theorem Step.of_change {state' : SwarmState} {op : Op} {life life' : Life} (hlocal : op.IsLocal)
    (hid : state.lives id = some life) (h : state'.lives = update state.lives id (some life'))
    (hchange : Change op id life life') (x : String) :
    Step state state' op x (state.lives x) (state'.lives x) := by
  rw [h, Function.update_apply]
  by_cases hx : x = id
  · subst hx
    rw [if_pos rfl, hid]
    exact .kept _ _ hchange
  · rw [if_neg hx]
    cases state.lives x with
    | none => exact .absent
    | some life => exact .kept _ _ (.of_isLocal hlocal x life)

theorem lives_endSession (state : SwarmState) (id : String) (session : SessionMetadata)
    (status : SessionStatus) (nowMs : ℕ) (hpersistent : session.life.ended.isSome = true) :
    (endSession state id session status nowMs).lives = update state.lives id
      (some { session.life with status, ended := some (some nowMs) }) := by
  rw [endSession, lives_settleBudgetReservation, markServiceInstanceUnhealthy,
    lives_setServiceHealth, SwarmState.lives_insertSession]
  congr 2
  cases hp : session.persistent with
  | none => simp [SessionMetadata.life, hp] at hpersistent
  | some runtime => simp [SessionMetadata.life, SessionMetadata.finish, hp]

theorem tickRound_step (nowMs : ℕ) (x : String) :
    Step state (tickRound state nowMs id).2 (.tickRound nowMs id) x (state.lives x)
      ((tickRound state nowMs id).2.lives x) := by
  have hlocal : (Op.tickRound nowMs id).IsLocal := ⟨nofun, nofun⟩
  unfold tickRound
  cases hsession : state.sessions[id]? with
  | none => exact .of_eq hlocal rfl x
  | some session =>
    cases hdue : tickDue state nowMs id with
    | none => exact .of_eq hlocal rfl x
    | some finalize =>
      have hpersistent : session.persistent.isSome = true := by
        unfold tickDue at hdue
        rw [hsession, Option.bind_some] at hdue
        cases hp : session.persistent with
        | none => simp [hp] at hdue
        | some runtime => rfl
      have hid := SwarmState.lives_eq_some hsession
      dsimp only
      cases hcheck : performPersistentCheckIn session with
      | mk result charged =>
        have hlife := performPersistentCheckIn_life hpersistent hcheck
        cases result with
        | error reason =>
          refine .of_change hlocal hid (SwarmState.lives_insertSession ..) ?_ x
          rw [hlife]
          exact .refused (.tick nowMs)
        | ok =>
          dsimp only at hlife ⊢
          split
          case isTrue =>
            have hended : charged.life.ended.isSome = true := by
              rw [hlife]
              simpa [SessionMetadata.life] using hpersistent
            refine .of_change hlocal hid (lives_endSession state id charged .completed nowMs hended) ?_ x
            rw [hlife]
            exact .finished (.tick nowMs) _ rfl nowMs
          case isFalse =>
            refine .of_eq hlocal (SwarmState.lives_insertSession_same hsession ?_) x
            rw [← hlife]
            simp [SessionMetadata.life, SessionMetadata.reschedule, Function.comp_def]

theorem wake_step (nowMs : ℕ) (x : String) :
    Step state (sessionsWake state id nowMs).2 (.wake id nowMs) x (state.lives x)
      ((sessionsWake state id nowMs).2.lives x) := by
  have hlocal : (Op.wake id nowMs).IsLocal := ⟨nofun, nofun⟩
  unfold sessionsWake
  cases hsession : state.sessions[id]? with
  | none => exact .of_eq hlocal rfl x
  | some session =>
    dsimp only
    split
    case isTrue => exact .of_eq hlocal rfl x
    case isFalse hpersistent =>
      split
      case isTrue => exact .of_eq hlocal rfl x
      case isFalse hactive =>
        have hpersistent : session.persistent.isSome = true := by
          simpa [Option.isSome_iff_ne_none] using hpersistent
        have hid := SwarmState.lives_eq_some hsession
        cases hcheck : performPersistentCheckIn session with
        | mk result charged =>
          have hlife := performPersistentCheckIn_life hpersistent hcheck
          cases result with
          | error reason =>
            refine .of_change hlocal hid (SwarmState.lives_insertSession ..) ?_ x
            rw [hlife]
            exact .refused (.wake nowMs (by simpa [SessionMetadata.life] using hactive))
          | ok =>
            refine .of_eq hlocal (SwarmState.lives_insertSession_same hsession ?_) x
            dsimp only at hlife
            rw [← hlife]
            simp [SessionMetadata.life, SessionMetadata.reschedule, Function.comp_def]

theorem terminate_step (graceful : Bool) (nowMs : ℕ) (x : String) :
    Step state (sessionsTerminate state id graceful nowMs).2 (.terminate id graceful nowMs) x
      (state.lives x) ((sessionsTerminate state id graceful nowMs).2.lives x) := by
  have hlocal : (Op.terminate id graceful nowMs).IsLocal := ⟨nofun, nofun⟩
  unfold sessionsTerminate
  cases hsession : state.sessions[id]? with
  | none => exact .of_eq hlocal rfl x
  | some session =>
    dsimp only
    split
    case isTrue => exact .of_eq hlocal rfl x
    case isFalse hpersistent =>
      have hpersistent : session.persistent.isSome = true := by
        simpa [Option.isSome_iff_ne_none] using hpersistent
      have hended : session.life.ended.isSome = true := by
        simpa [SessionMetadata.life] using hpersistent
      have hid := SwarmState.lives_eq_some hsession
      have hchecks : ChecksIn id session.life (.terminate id graceful nowMs) :=
        .terminate graceful nowMs hended
      cases graceful with
      | false =>
        exact .of_change hlocal hid (lives_endSession state id session .terminated nowMs hended)
          (.finished hchecks _ rfl nowMs) x
      | true =>
        cases hcheck : performPersistentCheckIn session with
        | mk result charged =>
          have hlife := performPersistentCheckIn_life hpersistent hcheck
          cases result with
          | error reason =>
            refine .of_change hlocal hid (SwarmState.lives_insertSession ..) ?_ x
            rw [hlife]
            exact .refused hchecks
          | ok =>
            dsimp only at hlife
            have hended' : charged.life.ended.isSome = true := by rwa [hlife]
            refine .of_change hlocal hid
              (lives_endSession state id charged .terminatedGraceful nowMs hended') ?_ x
            rw [hlife]
            exact .finished hchecks _ rfl nowMs

theorem resumeSession_life (nowMs : ℕ) {runtime : PersistentRuntime} {session : SessionMetadata}
    (h : session.persistent = some runtime) :
    (resumeSession nowMs runtime session).life = session.life.resume := by
  unfold resumeSession Life.resume
  cases hended : runtime.terminatedAtMs <;> simp [SessionMetadata.life, h, hended]

theorem resume_step (nowMs : ℕ) (x : String) :
    Step state (sessionsResume state id nowMs).2 (.resume id nowMs) x (state.lives x)
      ((sessionsResume state id nowMs).2.lives x) := by
  have hlocal : (Op.resume id nowMs).IsLocal := ⟨nofun, nofun⟩
  unfold sessionsResume
  cases hsession : state.sessions[id]? with
  | none => exact .of_eq hlocal rfl x
  | some session =>
    dsimp only
    cases hpersistent : session.persistent with
    | none => exact .of_eq hlocal rfl x
    | some runtime =>
      refine .of_change hlocal (SwarmState.lives_eq_some hsession)
        (SwarmState.lives_insertSession ..) ?_ x
      rw [resumeSession_life nowMs hpersistent]
      exact .resumed nowMs rfl (by simp [SessionMetadata.life, hpersistent])

theorem recoverSession_life (nowMs : ℕ) (session : SessionMetadata) :
    (recoverSession nowMs session).life = session.life.recover := by
  unfold recoverSession Life.recover
  cases hpersistent : session.persistent with
  | none => simp [SessionMetadata.life, hpersistent]
  | some runtime =>
    cases hended : runtime.terminatedAtMs with
    | some nowMs => simp [SessionMetadata.life, hpersistent, hended]
    | none =>
      cases hrunning : session.status.isRunning <;>
        simp [SessionMetadata.life, hpersistent, hended, hrunning]

theorem recover_step (nowMs : ℕ) (x : String) :
    Step state (recoverPersistentSessionsAfterReload state nowMs) (.recover nowMs) x (state.lives x)
      ((recoverPersistentSessionsAfterReload state nowMs).lives x) := by
  have hlives := SwarmState.lives_map (recoverSession_life nowMs) state state.serviceRegistry x
  rw [recoverPersistentSessionsAfterReload, hlives]
  cases state.lives x with
  | none => exact .absent
  | some life => exact .kept _ _ (.recovered nowMs rfl)

theorem forceShutdown_step (x : String) :
    Step state (forceShutdown state) .forceShutdown x (state.lives x)
      ((forceShutdown state).lives x) := by
  have hdown (session : SessionMetadata) :
      (shutDownSession session).life = session.life.shutDown := rfl
  rw [forceShutdown, SwarmState.lives_map hdown]
  cases state.lives x with
  | none => exact .absent
  | some life => exact .kept _ _ (.shutDown rfl)

/-! ### Spawns and quarantine -/

theorem Step.of_spawn {state' : SwarmState} {op : Op} {life : Life} (hlocal : op.IsLocal)
    (hid : state.sessions[id]? = none) (h : state'.lives = update state.lives id (some life))
    (hop : op.spawnParent = some life.parentId) (hcell : life.thornCell = false)
    (hparent : ∀ parentId, life.parentId = some parentId → ∃ parent,
      state.lives parentId = some parent ∧
        (parent.budgeted = true → life.budgetParentSessionId = some parentId)) (x : String) :
    Step state state' op x (state.lives x) (state'.lives x) := by
  rw [h, Function.update_apply]
  by_cases hx : x = id
  · subst hx
    rw [if_pos rfl, SwarmState.lives, hid, Option.map_none]
    exact .spawned life hop hcell hparent
  · rw [if_neg hx]
    cases state.lives x with
    | none => exact .absent
    | some life => exact .kept _ _ (.of_isLocal hlocal x life)

/-- The parent of a spawn is there, and it backs the new session if it has a budget. -/
theorem parent_of_spawn {parentId : Option String} {maxDepth depth : ℕ} {requestedBudget : Option ℕ}
    {reservation : BudgetReservation} {reserved : SwarmState}
    (hdepth : spawnDepth state parentId maxDepth = .ok depth)
    (hreserve : ReserveCase state parentId id requestedBudget (.ok reservation) reserved)
    (parentId' : String) (hid : parentId = some parentId') : ∃ parent,
      state.lives parentId' = some parent ∧
        (parent.budgeted = true → reservation.budgetParentSessionId = some parentId') := by
  subst hid
  cases hparent : state.sessions[parentId']? with
  | none => simp [spawnDepth, hparent] at hdepth
  | some parent =>
    refine ⟨parent.life, SwarmState.lives_eq_some hparent, fun hbudgeted => ?_⟩
    cases hreserve with
    | unbudgeted h =>
      rw [Option.bind_some, SwarmState.budget, hparent, Option.bind_some] at h
      simp [SessionMetadata.life, h] at hbudgeted
    | reserved parentId'' parent' t n hid _ _ _ =>
      rw [hid]

theorem spawnPersistent_step {host : Host} {readings : List ℕ} (parentId : Option String)
    (task : String) (maxDepth : ℕ) (options : SpawnOptions) (cfg : PersistentAgentConfig)
    (backgroundWorker : Bool) (nowMs : ℕ) (x : String) :
    Step state (spawnPersistentSession host readings state parentId task maxDepth options cfg
      backgroundWorker nowMs).2
      (.spawnPersistent parentId task maxDepth options cfg backgroundWorker nowMs) x (state.lives x)
      ((spawnPersistentSession host readings state parentId task maxDepth options cfg
        backgroundWorker nowMs).2.lives x) := by
  have hlocal : (Op.spawnPersistent parentId task maxDepth options cfg backgroundWorker nowMs).IsLocal :=
    ⟨nofun, nofun⟩
  unfold spawnPersistentSession
  cases hdepth : spawnDepth state parentId maxDepth with
  | error text => exact .of_eq hlocal rfl x
  | ok depth =>
    dsimp only
    cases hid : nextSessionId host readings state task depth with
    | none => exact .of_eq hlocal rfl x
    | some sessionId =>
      dsimp only
      have hcases := reserve_cases state parentId sessionId (options.tokenBudget.map (·.toNat))
      have hlives := lives_reserveBudgetFromParent state parentId sessionId
        (options.tokenBudget.map (·.toNat))
      cases hreserve : reserveBudgetFromParent state parentId sessionId
          (options.tokenBudget.map (·.toNat)) with
      | mk answer reserved =>
        rw [hreserve] at hcases hlives
        cases answer with
        | error text => exact .of_eq hlocal hlives x
        | ok reservation =>
          dsimp only at hcases hlives ⊢
          cases hcheck : performPersistentCheckIn (persistentMetadata parentId task depth options cfg
              backgroundWorker nowMs reservation) with
          | mk result metadata =>
            have hlife := performPersistentCheckIn_life rfl hcheck
            cases result with
            | error text => exact .of_eq hlocal hlives x
            | ok =>
              dsimp only at hlife ⊢
              have hparent : metadata.life.parentId = parentId := congrArg Life.parentId hlife
              refine .of_spawn hlocal (nextSessionId_fresh hid) ?_ (congrArg some hparent.symm)
                (congrArg Life.thornCell hlife) (fun parentId' hparentId => ?_) x
              · rw [lives_registerServiceInstance, lives_addChild, SwarmState.lives_insertSession,
                  hlives]
              · rw [hparent] at hparentId
                rw [congrArg Life.budgetParentSessionId hlife]
                exact parent_of_spawn hdepth hcases parentId' hparentId

theorem lives_storeSpawned (state : SwarmState) (parentId : Option String) (id : String)
    (role : Option String) (spawned : SessionMetadata) :
    (storeSpawned state parentId id role spawned).lives =
      update state.lives id (some spawned.life) := by
  rw [storeSpawned, lives_settleBudgetReservation, lives_addChild, lives_registerServiceInstance,
    SwarmState.lives_insertSession]

theorem spawnSingle_step {host : Host} {readings : List ℕ} (parentId : Option String)
    (task : String) (maxDepth : ℕ) (options : SpawnOptions) (x : String) :
    Step state (spawnSingle host readings state parentId task maxDepth options).2
      (.spawnSingle parentId task maxDepth options) x (state.lives x)
      ((spawnSingle host readings state parentId task maxDepth options).2.lives x) := by
  have hlocal : (Op.spawnSingle parentId task maxDepth options).IsLocal := ⟨nofun, nofun⟩
  unfold spawnSingle
  cases hdepth : spawnDepth state parentId maxDepth with
  | error text => exact .of_eq hlocal rfl x
  | ok depth =>
    dsimp only
    split
    case isTrue => exact .of_eq hlocal rfl x
    case isFalse =>
      cases hid : nextSessionId host readings state task depth with
      | none => exact .of_eq hlocal rfl x
      | some sessionId =>
        dsimp only
        have hcases := reserve_cases state parentId sessionId (options.tokenBudget.map (·.toNat))
        have hlives := lives_reserveBudgetFromParent state parentId sessionId
          (options.tokenBudget.map (·.toNat))
        cases hreserve : reserveBudgetFromParent state parentId sessionId
            (options.tokenBudget.map (·.toNat)) with
        | mk answer reserved =>
          rw [hreserve] at hcases hlives
          cases answer with
          | error text => exact .of_eq hlocal hlives x
          | ok reservation =>
            dsimp only at hcases hlives ⊢
            have hborn {state' : SwarmState} {life : Life}
                (h : state'.lives = update state.lives sessionId (some life))
                (hcell : life.thornCell = false) (hparent : life.parentId = parentId)
                (hbacker : life.budgetParentSessionId = reservation.budgetParentSessionId) :
                Step state state' (.spawnSingle parentId task maxDepth options) x (state.lives x)
                  (state'.lives x) := by
              refine .of_spawn hlocal (nextSessionId_fresh hid) h (congrArg some hparent.symm) hcell
                (fun parentId' hid' => ?_) x
              rw [hparent] at hid'
              rw [hbacker]
              exact parent_of_spawn hdepth hcases parentId' hid'
            obtain ⟨herror, hok⟩ := applyToolPlanForSession_life
              (taskMetadata parentId task depth options reservation)
              (taskPlan options task reservation)
            cases happly : applyToolPlanForSession
                (taskMetadata parentId task depth options reservation)
                (taskPlan options task reservation) with
            | mk result charged =>
              rw [happly] at herror hok
              cases result with
              | error text =>
                have hlife := herror text rfl
                dsimp only at hlife ⊢
                refine @hborn _ (SessionMetadata.life { charged with
                  reachable := false, budgetActionTaken := some "fail" }) ?_
                  (congrArg Life.thornCell hlife) (congrArg Life.parentId hlife)
                  (congrArg Life.budgetParentSessionId hlife)
                rw [lives_settleBudgetReservation, SwarmState.lives_insertSession, hlives]
              | ok action =>
                have hlife := hok action rfl
                dsimp only at hlife ⊢
                have hstored := lives_storeSpawned reserved parentId sessionId options.role
                  { charged with
                    reachable := !options.simulateUnreachable
                    budgetActionTaken := action }
                rw [hlives] at hstored
                have hend {state' : SwarmState} (h : state'.lives = (storeSpawned reserved parentId
                    sessionId options.role { charged with
                      reachable := !options.simulateUnreachable
                      budgetActionTaken := action }).lives) :=
                  hborn (h.trans hstored) (congrArg Life.thornCell hlife)
                    (congrArg Life.parentId hlife) (congrArg Life.budgetParentSessionId hlife)
                split
                · have hfailed (session : SessionMetadata) :
                      ({ session with status := .failed } : SessionMetadata).life =
                        { session.life with status := .failed } := rfl
                  have hmodify := SwarmState.lives_modifySession (storeSpawned reserved parentId
                    sessionId options.role { charged with
                      reachable := !options.simulateUnreachable
                      budgetActionTaken := action }) sessionId
                    (g := fun life => { life with status := .failed }) hfailed
                  refine @hborn _ { SessionMetadata.life { charged with
                    reachable := !options.simulateUnreachable
                    budgetActionTaken := action } with status := .failed } ?_
                    (congrArg Life.thornCell hlife) (congrArg Life.parentId hlife)
                    (congrArg Life.budgetParentSessionId hlife)
                  funext y
                  rw [hmodify, hstored, Function.update_apply, Function.update_apply]
                  split <;> rfl
                · split <;> exact hend rfl

theorem lives_openThorn (state : SwarmState) (thornId : String) (thorn : SessionMetadata) :
    (openThorn state thornId thorn).lives = update state.lives thornId (some thorn.life) := by
  rw [← SwarmState.lives_insertSession]
  exact SwarmState.lives_congr rfl

/-- The life of a thorn cell that has just been opened. -/
def Life.opened (targetId : String) : Life where
  parentId := some targetId
  budgetParentSessionId := none
  budgeted := false
  status := .thornActive
  reachable := true
  ended := none
  backgroundWorker := false
  thornCell := true
  thornTargetSessionId := some targetId
  quarantinePreviousStatus := none

/-- What a quarantine leaves: the state as it was, or its target behind a new thorn cell. -/
inductive QuarantineCase (state : SwarmState) (targetId : String) : SwarmState → Prop where
  | refused : QuarantineCase state targetId state
  | opened (thornId : String) (thorn target quarantined : SessionMetadata)
      (hfresh : state.sessions[thornId]? = none)
      (htarget : state.sessions[targetId]? = some target) (hcell : target.thornCell = false)
      (hstatus : target.status ≠ .quarantinedThorn) (hthorn : thorn.life = .opened targetId)
      (hquarantined : quarantined.life = target.life.quarantine) :
      QuarantineCase state targetId
        (openThorn (setServiceHealth (state.insertSession targetId quarantined) targetId false)
          thornId thorn)

theorem quarantine_cases (host : Host) (readings : List ℕ) (state : SwarmState)
    (targetId anomalyType reason : String) (nowMs : ℕ) : QuarantineCase state targetId
      (quarantineIntoThorn host readings state targetId anomalyType reason nowMs).2 := by
  unfold quarantineIntoThorn
  dsimp only
  split
  case isTrue => exact .refused
  case isFalse =>
    cases hsession : state.sessions[targetId]? with
    | none => exact .refused
    | some target =>
      dsimp only
      split
      case isTrue => exact .refused
      case isFalse hcell =>
        split
        case isTrue => exact .refused
        case isFalse hstatus =>
          cases hid : nextSessionId host readings state ("thorn:" ++ targetId)
              (addUpTo 255 target.depth 1) with
          | none => exact .refused
          | some thornId =>
            exact .opened thornId _ target _ (nextSessionId_fresh hid) hsession
              (by simpa using hcell) (by simpa using hstatus) rfl rfl

theorem lives_behindThorn (state : SwarmState) {targetId : String}
    {thorn target quarantined : SessionMetadata} (thornId : String)
    (hthorn : thorn.life = .opened targetId) (hquarantined : quarantined.life = target.life.quarantine) :
    (openThorn (setServiceHealth (state.insertSession targetId quarantined) targetId false) thornId
      thorn).lives = update (update state.lives targetId (some target.life.quarantine)) thornId
        (some (.opened targetId)) := by
  rw [lives_openThorn, lives_setServiceHealth, SwarmState.lives_insertSession, hquarantined, hthorn]

theorem QuarantineCase.step {targetId : String} {state' : SwarmState}
    (h : QuarantineCase state targetId state') (anomalyType reason : String) (nowMs : ℕ)
    (x : String) : Step state state' (.quarantine targetId anomalyType reason nowMs) x
      (state.lives x) (state'.lives x) := by
  have hlocal : (Op.quarantine targetId anomalyType reason nowMs).IsLocal := ⟨nofun, nofun⟩
  cases h with
  | refused => exact .of_eq hlocal rfl x
  | opened thornId thorn target quarantined hfresh htarget hcell hstatus hthorn hquarantined =>
    have hne : targetId ≠ thornId := by
      rintro rfl
      rw [hfresh] at htarget
      cases htarget
    have hlife := SwarmState.lives_eq_some htarget
    have hlives := lives_behindThorn state thornId hthorn hquarantined
    have htarget' := congrFun hlives targetId
    rw [Function.update_of_ne hne, Function.update_self] at htarget'
    rw [congrFun hlives x]
    by_cases hx : x = thornId
    · subst hx
      rw [Function.update_self, SwarmState.lives, hfresh, Option.map_none]
      exact .opened targetId anomalyType reason nowMs _ target.life rfl ⟨rfl, rfl, rfl⟩ rfl rfl hlife
        hcell htarget'
    · rw [Function.update_of_ne hx]
      by_cases hxt : x = targetId
      · subst hxt
        rw [Function.update_self, hlife]
        exact .kept _ _ (.quarantined anomalyType reason nowMs rfl hcell hstatus)
      · rw [Function.update_of_ne hxt]
        cases state.lives x with
        | none => exact .absent
        | some life => exact .kept _ _ (.of_isLocal hlocal x life)

theorem mem_thornIdsFor (state : SwarmState) (targetId x : String) :
    x ∈ thornIdsFor state targetId ↔ ∃ life, state.lives x = some life ∧ life.IsThornFor targetId := by
  simp only [thornIdsFor, List.mem_map, List.mem_filter, Prod.exists,
    ExtTreeMap.mem_toList_iff_getElem?_eq_some, exists_and_right, exists_eq_right, SwarmState.lives,
    Option.map_eq_some_iff, SessionMetadata.isThornFor_iff]
  constructor
  · rintro ⟨session, hsession, hthorn⟩
    exact ⟨session.life, ⟨session, hsession, rfl⟩, hthorn⟩
  · rintro ⟨life, ⟨session, hsession, rfl⟩, hthorn⟩
    exact ⟨session, hsession, hthorn⟩

theorem lives_destroyThorns (nowMs : ℕ) (thornIds : List String) (x : String) :
    ∀ state : SwarmState, (thornIds.foldl (destroyThorn nowMs) state).lives x =
      if x ∈ thornIds then (state.lives x).map Life.destroy else state.lives x := by
  induction thornIds with
  | nil => simp
  | cons thornId rest ih =>
    intro state
    have hdestroyed (session : SessionMetadata) :
        (destroySession nowMs session).life = session.life.destroy := rfl
    have htwice (life : Life) : life.destroy.destroy = life.destroy := rfl
    rw [List.foldl_cons, ih, destroyThorn, lives_setServiceHealth,
      SwarmState.lives_modifySession state thornId hdestroyed]
    by_cases hx : x = thornId
    · subst hx
      cases state.lives x <;> simp [htwice]
    · simp [hx]

theorem lives_releaseThornCellsForTarget {targetId thornId : String} {thorn : Life}
    (hthorn : state.lives thornId = some thorn) (hfor : thorn.IsThornFor targetId) (reason : String)
    (nowMs : ℕ) (x : String) :
    (releaseThornCellsForTarget state targetId reason nowMs).2.lives x = (state.lives x).map
      fun life => if x = targetId then life.restore
        else if x ∈ thornIdsFor state targetId then life.destroy else life := by
  have hmem : thornId ∈ thornIdsFor state targetId :=
    (mem_thornIdsFor state targetId thornId).mpr ⟨thorn, hthorn, hfor⟩
  have hnonempty : (thornIdsFor state targetId).isEmpty = false := by
    cases h : thornIdsFor state targetId with
    | nil => simp [h] at hmem
    | cons => rfl
  have hrestored (session : SessionMetadata) :
      (restoreSession reason nowMs session).life = session.life.restore := rfl
  have hboth (life : Life) : life.destroy.restore = life.restore := rfl
  unfold releaseThornCellsForTarget
  dsimp only
  rw [hnonempty, if_neg (by simp), restoreQuarantinedTarget, lives_setServiceHealth,
    SwarmState.lives_modifySession _ targetId hrestored, lives_destroyThorns]
  cases state.lives x with
  | none => simp
  | some life =>
    by_cases hx : x = targetId
    · rw [if_pos hx]
      split <;> simp [hboth]
    · rw [if_neg hx]
      split <;> simp

theorem releaseThorn_step (targetId reason : String) (nowMs : ℕ) (x : String) :
    Step state (releaseThornCellsForTarget state targetId reason nowMs).2
      (.releaseThorn targetId reason nowMs) x (state.lives x)
      ((releaseThornCellsForTarget state targetId reason nowMs).2.lives x) := by
  by_cases hany : ∃ thornId thorn, state.lives thornId = some thorn ∧ thorn.IsThornFor targetId
  · obtain ⟨thornId, thorn, hthorn, hfor⟩ := hany
    rw [lives_releaseThornCellsForTarget hthorn hfor]
    cases hlife : state.lives x with
    | none => exact .absent
    | some life =>
      refine .kept _ _ ?_
      split
      case isTrue hx =>
        subst hx
        exact .restored reason nowMs rfl
      case isFalse hx =>
        split
        case isTrue hmem =>
          obtain ⟨life', hlife', hthorn'⟩ := (mem_thornIdsFor state targetId x).mp hmem
          rw [hlife] at hlife'
          cases hlife'
          exact .destroyed targetId reason nowMs rfl hthorn'
        case isFalse hmem =>
          refine .same nofun fun targetId' reason' nowMs' hop hthorn' => hmem ?_
          cases hop
          exact (mem_thornIdsFor state targetId x).mpr ⟨life, hlife, hthorn'⟩
  · have hempty : thornIdsFor state targetId = [] := by
      refine List.eq_nil_iff_forall_not_mem.mpr fun thornId hmem => hany ?_
      obtain ⟨thorn, hthorn⟩ := (mem_thornIdsFor state targetId thornId).mp hmem
      exact ⟨thornId, thorn, hthorn⟩
    have hsame : (releaseThornCellsForTarget state targetId reason nowMs).2 = state := by
      unfold releaseThornCellsForTarget
      rw [hempty]
      rfl
    rw [hsame]
    cases hlife : state.lives x with
    | none => exact .absent
    | some life =>
      refine .kept _ _ (.same nofun fun targetId' reason' nowMs' hop hthorn => hany ?_)
      cases hop
      exact ⟨x, life, hlife, hthorn⟩

theorem contextUpdate_life (host : Host) (session : SessionMetadata) (context : Json) (merge : Bool) :
    (contextUpdate host session context merge).2.life = session.life := by
  unfold contextUpdate
  dsimp only
  cases ht : session.budgetTelemetry with
  | none => rfl
  | some t =>
    dsimp only
    cases t.recordToolUsage "context_propagation"
      (contextTokens host (effectiveContext host session context).1) with
    | mk t' outcome => cases outcome <;> simp [SessionMetadata.life, SessionMetadata.putContext, ht]

theorem contextUpdate_step {host : Host} (context : Json) (merge : Bool) (x : String) :
    Step state (applyContextUpdate host state id context merge).2 (.contextUpdate id context merge) x
      (state.lives x) ((applyContextUpdate host state id context merge).2.lives x) := by
  have hlocal : (Op.contextUpdate id context merge).IsLocal := ⟨nofun, nofun⟩
  unfold applyContextUpdate
  cases hsession : state.sessions[id]? with
  | none => exact .of_eq hlocal rfl x
  | some session =>
    have hlife := contextUpdate_life host session context merge
    dsimp only
    cases hupdate : contextUpdate host session context merge with
    | mk result updated =>
      rw [hupdate] at hlife
      cases result <;>
        exact .of_eq hlocal (SwarmState.lives_insertSession_same hsession hlife) x

/-- **What an operation does to a life.** -/
theorem exec_step (host : Host) (readings : List ℕ) (op : Op) (state : SwarmState) (x : String) :
    Step state (exec host readings op state).2 op x (state.lives x)
      ((exec host readings op state).2.lives x) := by
  have hsame {op : Op} {state' : SwarmState} (hlocal : op.IsLocal) (h : SameSessions state state') :
      Step state state' op x (state.lives x) (state'.lives x) :=
    .of_eq hlocal (SwarmState.lives_congr h.sessions) x
  cases op with
  | recover nowMs => exact recover_step nowMs x
  | drainMessages => exact hsame ⟨nofun, nofun⟩ (sameSessions_drainExpiredMessages ..)
  | releaseThorn targetId reason nowMs => exact releaseThorn_step targetId reason nowMs x
  | quarantine targetId anomalyType reason nowMs =>
    exact (quarantine_cases host readings state targetId anomalyType reason nowMs).step _ _ _ x
  | tickRound nowMs id => exact tickRound_step nowMs x
  | wake id nowMs => exact wake_step nowMs x
  | terminate id graceful nowMs => exact terminate_step graceful nowMs x
  | resume id nowMs => exact resume_step nowMs x
  | spawnSingle parentId task maxDepth options => exact spawnSingle_step parentId task maxDepth options x
  | spawnPersistent parentId task maxDepth options cfg backgroundWorker nowMs =>
    exact spawnPersistent_step parentId task maxDepth options cfg backgroundWorker nowMs x
  | contextUpdate id context merge => exact contextUpdate_step context merge x
  | send => exact hsame ⟨nofun, nofun⟩ (sameSessions_sendSessionMessage ..)
  | receive => exact hsame ⟨nofun, nofun⟩ (sameSessions_receiveSessionMessages ..)
  | ack => exact hsame ⟨nofun, nofun⟩ (sameSessions_acknowledgeSessionMessage ..)
  | retryDeadLetter => exact hsame ⟨nofun, nofun⟩ (sameSessions_sessionsRetryDeadLetter ..)
  | createChannel => exact hsame ⟨nofun, nofun⟩ (sameSessions_createChannel ..)
  | registerTool | countInvocation | setByzantine | scheduledAdd | scheduledRan =>
    exact hsame ⟨nofun, nofun⟩ ⟨rfl, rfl⟩
  | forceShutdown => exact forceShutdown_step x

end Operations

end Protheus.Swarm
