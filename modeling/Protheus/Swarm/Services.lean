import Protheus.Swarm.Lives

/-!
What the operations of the swarm runtime do to the health of the service entries of a
session (`exec_healthy`): only a new session and the release of a quarantined one are
ever reported healthy.
-/

namespace Protheus.Swarm

open Std (ExtTreeMap)
open Function (update)
open RustStd (addUpTo)

namespace SwarmState

/-- Some service entry of the session reports it healthy. -/
def Healthy (state : SwarmState) (id : String) : Prop :=
  ∃ (role : String) (rows : List ServiceInstance), state.serviceRegistry[role]? = some rows ∧
    ∃ row ∈ rows, row.sessionId = id ∧ row.healthy = true

/-- `discover_services` finds the session under some role. -/
def Discoverable (state : SwarmState) (id : String) : Prop :=
  ∃ role, ∃ row ∈ discoverServices state role, row.sessionId = id

theorem discoverable_iff (state : SwarmState) (id : String) :
    state.Discoverable id ↔
      state.Healthy id ∧ ∃ life, state.lives id = some life ∧ life.reachable = true := by
  have hreach (id : String) : (state.sessions[id]?.map (·.reachable)).getD false = true ↔
      ∃ life, state.lives id = some life ∧ life.reachable = true := by
    rw [lives]
    cases state.sessions[id]? with
    | none => simp
    | some session => simp [SessionMetadata.life]
  constructor
  · rintro ⟨role, row, hrow, rfl⟩
    obtain ⟨hmem, hkeep⟩ := List.mem_filter.mp hrow
    rw [Bool.and_eq_true, hreach] at hkeep
    cases hrows : state.serviceRegistry[role]? with
    | none => simp [hrows] at hmem
    | some rows =>
      rw [hrows, Option.getD_some] at hmem
      exact ⟨⟨role, rows, hrows, row, hmem, rfl, hkeep.1⟩, hkeep.2⟩
  · rintro ⟨⟨role, rows, hrows, row, hmem, rfl, hhealthy⟩, hlife⟩
    refine ⟨role, row, List.mem_filter.mpr ⟨by rwa [hrows, Option.getD_some], ?_⟩, rfl⟩
    rw [Bool.and_eq_true, hreach]
    exact ⟨hhealthy, hlife⟩

variable {state : SwarmState} {id x : String}

theorem healthy_congr {state' : SwarmState} (h : state'.serviceRegistry = state.serviceRegistry) :
    state'.Healthy id ↔ state.Healthy id := by
  rw [Healthy, Healthy, h]

theorem healthy_setServiceHealth {healthy : Bool} (h : (setServiceHealth state x healthy).Healthy id) :
    if id = x then healthy = true else state.Healthy id := by
  obtain ⟨role, rows, hrows, row, hrow, rfl, hhealthy⟩ := h
  simp only [setServiceHealth, ExtTreeMap.getElem?_map, Option.map_eq_some_iff] at hrows
  obtain ⟨rows, hrows, rfl⟩ := hrows
  obtain ⟨row, hmem, rfl⟩ := List.mem_map.mp hrow
  by_cases hx : row.sessionId = x
  · simpa [hx] using hhealthy
  · rw [if_neg hx] at hhealthy ⊢
    rw [if_neg hx]
    exact ⟨role, rows, hrows, row, hmem, rfl, hhealthy⟩

theorem healthy_registerServiceInstance {role : Option String}
    (h : (registerServiceInstance state x role).Healthy id) : state.Healthy id ∨ id = x := by
  cases role with
  | none => exact .inl h
  | some roleName =>
    obtain ⟨role, rows, hrows, row, hrow, rfl, hhealthy⟩ := h
    simp only [registerServiceInstance, ExtTreeMap.getElem?_insert] at hrows
    split at hrows
    · cases hrows
      rcases List.mem_append.mp hrow with hrow | hrow
      · obtain ⟨hmem, -⟩ := List.mem_filter.mp hrow
        cases hold : state.serviceRegistry[roleName]? with
        | none => simp [hold] at hmem
        | some rows =>
          rw [hold, Option.getD_some] at hmem
          exact .inl ⟨roleName, rows, hold, row, hmem, rfl, hhealthy⟩
      · rw [List.mem_singleton.mp hrow]
        exact .inr rfl
    · exact .inl ⟨role, rows, hrows, row, hrow, rfl, hhealthy⟩

end SwarmState

/-! ## What leaves the registry alone -/

@[simp] theorem serviceRegistry_addChild (state : SwarmState) (parentId : Option String)
    (id : String) : (state.addChild parentId id).serviceRegistry = state.serviceRegistry := by
  cases parentId <;> rfl

@[simp] theorem serviceRegistry_settleBudgetReservation (state : SwarmState) (id : String) :
    (settleBudgetReservation state id).serviceRegistry = state.serviceRegistry := by
  unfold settleBudgetReservation
  split
  · rfl
  · split
    · rfl
    · split <;> rfl

theorem serviceRegistry_reserveBudgetFromParent (state : SwarmState) (parentId : Option String)
    (childId : String) (requestedBudget : Option ℕ) :
    (reserveBudgetFromParent state parentId childId requestedBudget).2.serviceRegistry =
      state.serviceRegistry := by
  have hcases := reserve_cases state parentId childId requestedBudget
  generalize reserveBudgetFromParent state parentId childId requestedBudget = answer at hcases ⊢
  obtain ⟨result, reserved⟩ := answer
  cases hcases <;> rfl

/-! ## The operations -/

section Operations

variable {state : SwarmState} {id x : String}

theorem healthy_endSession {session : SessionMetadata} {status : SessionStatus} {nowMs : ℕ}
    (h : (endSession state id session status nowMs).Healthy x) : state.Healthy x := by
  have hmarked := SwarmState.healthy_setServiceHealth
    ((SwarmState.healthy_congr (serviceRegistry_settleBudgetReservation _ id)).mp h)
  split at hmarked
  · cases hmarked
  · exact hmarked

theorem healthy_tickRound {nowMs : ℕ} (h : (tickRound state nowMs id).2.Healthy x) :
    state.Healthy x := by
  unfold tickRound at h
  split at h
  · split at h
    · exact h
    · dsimp only at h
      split at h
      · exact healthy_endSession h
      · exact h
  · exact h

theorem healthy_sessionsWake {nowMs : ℕ} (h : (sessionsWake state id nowMs).2.Healthy x) :
    state.Healthy x := by
  unfold sessionsWake at h
  split at h
  · exact h
  · split at h
    · exact h
    · split at h
      · exact h
      · split at h <;> exact h

theorem healthy_sessionsTerminate {graceful : Bool} {nowMs : ℕ}
    (h : (sessionsTerminate state id graceful nowMs).2.Healthy x) : state.Healthy x := by
  unfold sessionsTerminate at h
  split at h
  · exact h
  · split at h
    · exact h
    · split at h
      · split at h
        · exact h
        · exact healthy_endSession h
      · exact healthy_endSession h

theorem healthy_sessionsResume {nowMs : ℕ} (h : (sessionsResume state id nowMs).2.Healthy x) :
    state.Healthy x := by
  unfold sessionsResume at h
  split at h
  · exact h
  · split at h <;> exact h

theorem healthy_applyContextUpdate {host : Host} {context : Json} {merge : Bool}
    (h : (applyContextUpdate host state id context merge).2.Healthy x) : state.Healthy x := by
  unfold applyContextUpdate at h
  split at h
  · exact h
  · split at h <;> exact h

theorem healthy_storeSpawned {parentId role : Option String} {spawned : SessionMetadata}
    (h : (storeSpawned state parentId id role spawned).Healthy x) : state.Healthy x ∨ x = id := by
  have hregistered : (registerServiceInstance (state.insertSession id spawned) id role).Healthy x := by
    rwa [storeSpawned, SwarmState.healthy_congr (serviceRegistry_settleBudgetReservation _ id),
      SwarmState.healthy_congr (serviceRegistry_addChild _ parentId id)] at h
  rcases SwarmState.healthy_registerServiceInstance hregistered with hhealthy | hx
  · exact .inl hhealthy
  · exact .inr hx

/-- A session a spawn reports healthy is a new one. -/
theorem healthy_spawnSingle {host : Host} {readings : List ℕ} {parentId : Option String}
    {task : String} {maxDepth : ℕ} {options : SpawnOptions}
    (h : (spawnSingle host readings state parentId task maxDepth options).2.Healthy x) :
    state.Healthy x ∨ state.lives x = none := by
  unfold spawnSingle at h
  split at h
  case h_1 => exact .inl h
  case h_2 depth hdepth =>
    split at h
    case isTrue => exact .inl h
    case isFalse =>
      split at h
      case h_1 => exact .inl h
      case h_2 sessionId hid =>
        have hregistry := serviceRegistry_reserveBudgetFromParent state parentId sessionId
          (options.tokenBudget.map (·.toNat))
        have hfresh : state.lives sessionId = none := by
          rw [SwarmState.lives, nextSessionId_fresh hid, Option.map_none]
        have hstored {role : Option String} {spawned : SessionMetadata} {reserved : SwarmState}
            (hreserved : reserved.serviceRegistry = state.serviceRegistry)
            (h : (storeSpawned reserved parentId sessionId role spawned).Healthy x) :
            state.Healthy x ∨ state.lives x = none := by
          rcases healthy_storeSpawned h with h | rfl
          · exact .inl ((SwarmState.healthy_congr hreserved).mp h)
          · exact .inr hfresh
        split at h
        case h_1 text reserved hreserve =>
          rw [hreserve] at hregistry
          exact .inl ((SwarmState.healthy_congr hregistry).mp h)
        case h_2 reservation reserved hreserve =>
          rw [hreserve] at hregistry
          split at h
          case h_1 =>
            rw [SwarmState.healthy_congr (serviceRegistry_settleBudgetReservation _ sessionId)] at h
            exact .inl ((SwarmState.healthy_congr hregistry).mp h)
          case h_2 =>
            dsimp only at h
            split at h
            · exact hstored hregistry h
            · split at h <;> exact hstored hregistry h

theorem healthy_spawnPersistentSession {host : Host} {readings : List ℕ} {parentId : Option String}
    {task : String} {maxDepth : ℕ} {options : SpawnOptions} {cfg : PersistentAgentConfig}
    {backgroundWorker : Bool} {nowMs : ℕ}
    (h : (spawnPersistentSession host readings state parentId task maxDepth options cfg
      backgroundWorker nowMs).2.Healthy x) : state.Healthy x ∨ state.lives x = none := by
  unfold spawnPersistentSession at h
  split at h
  case h_1 => exact .inl h
  case h_2 depth hdepth =>
    split at h
    case h_1 => exact .inl h
    case h_2 sessionId hid =>
      have hregistry := serviceRegistry_reserveBudgetFromParent state parentId sessionId
        (options.tokenBudget.map (·.toNat))
      split at h
      case h_1 text reserved hreserve =>
        rw [hreserve] at hregistry
        exact .inl ((SwarmState.healthy_congr hregistry).mp h)
      case h_2 reservation reserved hreserve =>
        rw [hreserve] at hregistry
        split at h
        case h_1 => exact .inl ((SwarmState.healthy_congr hregistry).mp h)
        case h_2 =>
          rcases SwarmState.healthy_registerServiceInstance h with h | rfl
          · rw [SwarmState.healthy_congr (serviceRegistry_addChild _ parentId sessionId)] at h
            exact .inl ((SwarmState.healthy_congr hregistry).mp h)
          · exact .inr (by rw [SwarmState.lives, nextSessionId_fresh hid, Option.map_none])

/-- A release reports its target healthy, if it has a thorn cell. -/
theorem healthy_releaseThornCellsForTarget {targetId reason : String} {nowMs : ℕ}
    (h : (releaseThornCellsForTarget state targetId reason nowMs).2.Healthy x) :
    state.Healthy x ∨ x = targetId ∧ thornIdsFor state targetId ≠ [] := by
  have hdestroyed (thornIds : List String) : ∀ state : SwarmState,
      (thornIds.foldl (destroyThorn nowMs) state).Healthy x → state.Healthy x := by
    induction thornIds with
    | nil => exact fun _ h => h
    | cons thornId rest ih =>
      intro state h
      have hmarked := SwarmState.healthy_setServiceHealth (ih _ h)
      split at hmarked
      · cases hmarked
      · exact hmarked
  unfold releaseThornCellsForTarget at h
  dsimp only at h
  split at h
  case isTrue => exact .inl h
  case isFalse hany =>
    have hrestored := SwarmState.healthy_setServiceHealth h
    split at hrestored
    case isTrue hx => exact .inr ⟨hx, fun hnil => hany (by rw [hnil, List.isEmpty_nil])⟩
    case isFalse => exact .inl (hdestroyed _ _ hrestored)

/-- A quarantine takes its target out of the registry and registers its thorn cell. -/
theorem healthy_quarantineIntoThorn {host : Host} {readings : List ℕ}
    {targetId anomalyType reason : String} {nowMs : ℕ}
    (h : (quarantineIntoThorn host readings state targetId anomalyType reason nowMs).2.Healthy x) :
    state.Healthy x ∨ state.lives x = none := by
  have hcases := quarantine_cases host readings state targetId anomalyType reason nowMs
  generalize (quarantineIntoThorn host readings state targetId anomalyType reason nowMs).2 = state'
    at h hcases
  cases hcases with
  | refused => exact .inl h
  | opened thornId thorn target quarantined hfresh =>
    rcases SwarmState.healthy_registerServiceInstance h with h | rfl
    · have hmarked := SwarmState.healthy_setServiceHealth h
      split at hmarked
      · cases hmarked
      · exact .inl hmarked
    · exact .inr (by rw [SwarmState.lives, hfresh, Option.map_none])

theorem healthy_forceShutdown : ¬(forceShutdown state).Healthy x := by
  rintro ⟨role, rows, hrows, row, hrow, rfl, hhealthy⟩
  simp only [forceShutdown, ExtTreeMap.getElem?_map, Option.map_eq_some_iff] at hrows
  obtain ⟨rows, -, rfl⟩ := hrows
  obtain ⟨row, -, rfl⟩ := List.mem_map.mp hrow
  cases hhealthy

/-- **Which sessions an operation reports healthy**: those that were, new ones, and the
target of a release. -/
theorem exec_healthy (host : Host) (readings : List ℕ) (op : Op) (state : SwarmState) (x : String)
    (h : (exec host readings op state).2.Healthy x) :
    state.Healthy x ∨ state.lives x = none ∨
      ∃ reason nowMs, op = .releaseThorn x reason nowMs ∧ thornIdsFor state x ≠ [] := by
  have hsame {state' : SwarmState} (hsessions : SameSessions state state')
      (h : state'.Healthy x) : state.Healthy x := (SwarmState.healthy_congr hsessions.services).mp h
  cases op with
  | recover nowMs => exact .inl h
  | releaseThorn targetId reason nowMs =>
    rcases healthy_releaseThornCellsForTarget h with h | ⟨rfl, hany⟩
    · exact .inl h
    · exact .inr (.inr ⟨reason, nowMs, rfl, hany⟩)
  | quarantine targetId anomalyType reason nowMs =>
    exact (healthy_quarantineIntoThorn h).imp_right .inl
  | tickRound nowMs id => exact .inl (healthy_tickRound h)
  | wake id nowMs => exact .inl (healthy_sessionsWake h)
  | terminate id graceful nowMs => exact .inl (healthy_sessionsTerminate h)
  | resume id nowMs => exact .inl (healthy_sessionsResume h)
  | spawnSingle parentId task maxDepth options => exact (healthy_spawnSingle h).imp_right .inl
  | spawnPersistent parentId task maxDepth options cfg backgroundWorker nowMs =>
    exact (healthy_spawnPersistentSession h).imp_right .inl
  | contextUpdate id context merge => exact .inl (healthy_applyContextUpdate h)
  | drainMessages => exact .inl (hsame (sameSessions_drainExpiredMessages ..) h)
  | send => exact .inl (hsame (sameSessions_sendSessionMessage ..) h)
  | receive => exact .inl (hsame (sameSessions_receiveSessionMessages ..) h)
  | ack => exact .inl (hsame (sameSessions_acknowledgeSessionMessage ..) h)
  | retryDeadLetter => exact .inl (hsame (sameSessions_sessionsRetryDeadLetter ..) h)
  | createChannel => exact .inl (hsame (sameSessions_createChannel ..) h)
  | registerTool | countInvocation | setByzantine | scheduledAdd | scheduledRan => exact .inl h
  | forceShutdown => exact absurd h healthy_forceShutdown

end Operations

end Protheus.Swarm
