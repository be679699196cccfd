import Protheus.Swarm.Ledger

/-!
The operations of the swarm runtime as actions of its ledger.

Every operation amounts to actions of the ledger (`exec_reaches`), allowed ones as
long as no request eats into a reservation (`Spares`) and no reservation is left
behind for a session that is never stored (`Pays`): a persistent session that cannot
afford its first check-in is dropped after its parent has reserved for it.  They are
careful ones where settling is final (`KeepsSettled`), which the runtime does not
see to: check-ins, context updates and spawns go on in sessions that are settled.
-/

namespace Protheus.Swarm

open Std (ExtTreeMap)
open Ledger (Book Party Account Balanced Reaches act)
open Function (update)
open RustStd (u32Max addUpTo)

/-! ## Conditions on operations -/

/-- The session an operation records a plan on, and the plan. -/
def recordedBy (host : Host) (state : SwarmState) : Op → Option (SessionMetadata × List (String × ℕ))
  | .tickRound nowMs id =>
    (state.sessions[id]?.filter fun _ => (tickDue state nowMs id).isSome).map fun session =>
      (session, checkInPlan session)
  | .wake id _ =>
    (state.sessions[id]?.filter fun session =>
      session.persistent.isSome && session.status.isActive).map fun session =>
        (session, checkInPlan session)
  | .terminate id graceful _ =>
    (state.sessions[id]?.filter fun session => session.persistent.isSome && graceful).map
      fun session => (session, checkInPlan session)
  | .contextUpdate id context _ =>
    state.sessions[id]?.map fun session => (session, contextPlan host session context)
  | _ => none

/-- The parent a spawn reserves from, and how much, when it gets that far. -/
def reservedFrom (state : SwarmState) (parentId : Option String) (maxDepth : ℕ)
    (options : SpawnOptions) : Option (SessionMetadata × ℕ) :=
  match spawnDepth state parentId maxDepth with
  | .error _ => none
  | .ok _ =>
    (parentId.bind fun id => state.sessions[id]?).bind fun parent =>
      parent.budgetTelemetry.bind fun t =>
        (t.reservable (options.tokenBudget.map (·.toNat))).map fun n => (parent, n)

def reservedBy (state : SwarmState) : Op → Option (SessionMetadata × ℕ)
  | .spawnSingle parentId _ maxDepth options => reservedFrom state parentId maxDepth options
  | .spawnPersistent parentId _ maxDepth options _ _ _ => reservedFrom state parentId maxDepth options
  | _ => none

def SessionMetadata.refusesCheckIn (session : SessionMetadata) : Bool :=
  session.budgetTelemetry.any fun t => decide (t.PlanDenied (checkInPlan session))

/-- The session an operation settles. -/
def settledBy (state : SwarmState) : Op → Option SessionMetadata
  | .tickRound nowMs id =>
    state.sessions[id]?.filter fun session =>
      tickDue state nowMs id == some true && !session.refusesCheckIn
  | .terminate id graceful _ =>
    state.sessions[id]?.filter fun session =>
      session.persistent.isSome && !(graceful && session.refusesCheckIn)
  | _ => none

/-- No recorded plan eats into a reservation. -/
def Spares (host : Host) (state : SwarmState) (op : Op) : Prop :=
  ∀ r ∈ recordedBy host state op, ∀ t ∈ r.1.budgetTelemetry, t.PlanCovered r.2

/-- A persistent session that a parent reserves for affords its first check-in. -/
def Pays (state : SwarmState) : Op → Prop
  | .spawnPersistent parentId task maxDepth options _ _ _ =>
    ∀ r ∈ reservedFrom state parentId maxDepth options,
      options.budgetExhaustionAction = .failHard →
        planTokens (estimateToolPlan (spawnTask options task (some r.2)) (some r.2)) ≤ r.2
  | _ => True

instance (host : Host) (state : SwarmState) (op : Op) : Decidable (Spares host state op) :=
  inferInstanceAs (Decidable (∀ r ∈ recordedBy host state op, ∀ t ∈ r.1.budgetTelemetry, _))

instance (state : SwarmState) : ∀ op, Decidable (Pays state op)
  | .spawnPersistent parentId _ maxDepth options _ _ _ =>
    inferInstanceAs (Decidable (∀ r ∈ reservedFrom state parentId maxDepth options, _ → _ ≤ _))
  | .recover .. | .drainMessages .. | .releaseThorn .. | .quarantine .. | .tickRound .. | .wake ..
  | .terminate .. | .resume .. | .spawnSingle .. | .contextUpdate .. | .send .. | .receive ..
  | .ack .. | .retryDeadLetter .. | .createChannel .. | .registerTool .. | .countInvocation ..
  | .setByzantine .. | .scheduledAdd .. | .scheduledRan .. | .forceShutdown => isTrue trivial

/-- Settling is final: nothing is recorded on a settled session or beyond its counter, a
settled session reserves nothing more, and none is settled that still reserves. -/
structure KeepsSettled (host : Host) (state : SwarmState) (op : Op) : Prop where
  records : ∀ r ∈ recordedBy host state op, r.1.MayRecord r.2
  reserves : ∀ r ∈ reservedBy state op, r.2 = 0 ∨ r.1.budgetReservationSettled = false
  settles : ∀ session ∈ settledBy state op, session.MaySettle

instance (host : Host) (state : SwarmState) (op : Op) : Decidable (KeepsSettled host state op) :=
  decidable_of_iff
    ((∀ r ∈ recordedBy host state op, r.1.MayRecord r.2) ∧
      (∀ r ∈ reservedBy state op, r.2 = 0 ∨ r.1.budgetReservationSettled = false) ∧
      ∀ session ∈ settledBy state op, session.MaySettle)
    ⟨fun h => ⟨h.1, h.2.1, h.2.2⟩, fun h => ⟨h.records, h.reserves, h.settles⟩⟩

/-! ## The operations -/

theorem tickDue_persistent {state : SwarmState} {nowMs : ℕ} {id : String} {session : SessionMetadata}
    {finalize : Bool} (hsession : state.sessions[id]? = some session)
    (h : tickDue state nowMs id = some finalize) : session.persistent.isSome = true := by
  unfold tickDue at h
  rw [hsession, Option.bind_some] at h
  cases hpersistent : session.persistent with
  | none => simp [hpersistent] at h
  | some runtime => rfl

theorem refusesCheckIn_of_ok {session charged : SessionMetadata}
    (hpersistent : session.persistent.isSome = true)
    (h : session.Affords (checkInPlan session))
    (hok : performPersistentCheckIn session = (.ok (), charged)) : session.refusesCheckIn = false := by
  have hnot : ¬∃ t, session.budgetTelemetry = some t ∧ t.PlanDenied (checkInPlan session) := by
    rw [← performPersistentCheckIn_error_iff hpersistent h, hok]
    simp
  rw [SessionMetadata.refusesCheckIn]
  cases ht : session.budgetTelemetry with
  | none => rfl
  | some t => simpa [ht] using hnot

section Operations

variable {state : SwarmState} {id : String} {session : SessionMetadata} {care : Prop}

theorem reaches_endSession {plan : List (String × ℕ)} {charged : SessionMetadata}
    (hb : Balanced u32Max state.book) (hsession : state.sessions[id]? = some session)
    (hrecorded : Recorded plan session charged) (status : SessionStatus) (nowMs : ℕ)
    (hcare : care → session.MayRecord plan ∧ session.MaySettle) :
    Reaches u32Max care state.book (endSession state id charged status nowMs).book := by
  have hfinished : Recorded plan session (charged.finish status nowMs) :=
    ⟨hrecorded.backer, hrecorded.stake, hrecorded.settled, hrecorded.unbudgeted, hrecorded.budgeted⟩
  have hrecord := reaches_record hb hsession hfinished fun hc => (hcare hc).1
  have hbook : (markServiceInstanceUnhealthy (state.insertSession id (charged.finish status nowMs))
      id).book = (state.insertSession id (charged.finish status nowMs)).book :=
    book_setServiceHealth _ _ _
  have hbalanced := hb.reaches hrecord
  rw [← hbook] at hrecord hbalanced
  refine hrecord.trans (reaches_settle hbalanced fun hc finished hfound howes t ht => ?_)
  have hlookup : (markServiceInstanceUnhealthy (state.insertSession id
      (charged.finish status nowMs)) id).sessions[id]? = some (charged.finish status nowMs) := by
    rw [markServiceInstanceUnhealthy, setServiceHealth, SwarmState.getElem?_insertSession, if_pos rfl]
  rw [hlookup] at hfound
  cases hfound
  have howed : session.Owes := by
    rw [SessionMetadata.Owes, ← hrecorded.backer, ← hrecorded.stake, ← hrecorded.settled]
    exact howes
  cases htelemetry : session.budgetTelemetry with
  | none => rw [hfinished.unbudgeted htelemetry] at ht; cases ht
  | some t₀ =>
    obtain ⟨t', ht', hcharged⟩ := hfinished.budgeted t₀ htelemetry
    rw [ht'] at ht
    cases ht
    rw [hcharged.reserved]
    exact (hcare hc).2 howed t₀ htelemetry

theorem affords_of_spares (hb : Balanced u32Max state.book) {plan : List (String × ℕ)}
    (hsession : state.sessions[id]? = some session)
    (h : ∀ t ∈ session.budgetTelemetry, t.PlanCovered plan) : session.Affords plan :=
  fun t ht => ⟨fits_of_balanced hb (SwarmState.budget_eq_some hsession ht), h t ht⟩

theorem checkIn_recorded {host : Host} {op : Op} (hb : Balanced u32Max state.book)
    (hsession : state.sessions[id]? = some session)
    (hrecords : recordedBy host state op = some (session, checkInPlan session))
    (hspares : Spares host state op) :
    Recorded (checkInPlan session) session (performPersistentCheckIn session).2 :=
  performPersistentCheckIn_recorded (affords_of_spares hb hsession (hspares _ hrecords))

theorem tickRound_reaches {host : Host} (nowMs : ℕ) (hb : Balanced u32Max state.book)
    (hspares : Spares host state (.tickRound nowMs id))
    (hcare : care → KeepsSettled host state (.tickRound nowMs id)) :
    Reaches u32Max care state.book (tickRound state nowMs id).2.book := by
  unfold tickRound
  cases hsession : state.sessions[id]? with
  | none => exact .refl _
  | some session =>
    cases hdue : tickDue state nowMs id with
    | none => exact .refl _
    | some finalize =>
      have hrecords : recordedBy host state (.tickRound nowMs id) =
          some (session, checkInPlan session) := by simp [recordedBy, hsession, hdue]
      have hrecorded := checkIn_recorded hb hsession hrecords hspares
      have hmay (hc : care) : session.MayRecord (checkInPlan session) :=
        (hcare hc).records _ hrecords
      dsimp only
      cases hcheck : performPersistentCheckIn session with
      | mk result charged =>
        rw [hcheck] at hrecorded
        cases result with
        | error reason => exact reaches_record hb hsession hrecorded hmay
        | ok =>
          dsimp only
          split
          case isFalse =>
            exact reaches_record hb hsession ⟨hrecorded.backer, hrecorded.stake, hrecorded.settled,
              hrecorded.unbudgeted, hrecorded.budgeted⟩ hmay
          case isTrue hfinal =>
            refine reaches_endSession hb hsession hrecorded .completed nowMs fun hc =>
              ⟨hmay hc, (hcare hc).settles session ?_⟩
            have hnot := refusesCheckIn_of_ok (tickDue_persistent hsession hdue)
              (affords_of_spares hb hsession (hspares _ hrecords)) hcheck
            simp [settledBy, hsession, hdue, hfinal, hnot]

theorem wake_reaches {host : Host} (nowMs : ℕ) (hb : Balanced u32Max state.book)
    (hspares : Spares host state (.wake id nowMs))
    (hcare : care → KeepsSettled host state (.wake id nowMs)) :
    Reaches u32Max care state.book (sessionsWake state id nowMs).2.book := by
  unfold sessionsWake
  cases hsession : state.sessions[id]? with
  | none => exact .refl _
  | some session =>
    dsimp only
    split
    case isTrue => exact .refl _
    case isFalse hpersistent =>
      split
      case isTrue => exact .refl _
      case isFalse hactive =>
        have hrecords : recordedBy host state (.wake id nowMs) =
            some (session, checkInPlan session) := by
          simp only [Option.isNone_iff_eq_none, Bool.not_eq_eq_eq_not, Bool.not_true] at hpersistent hactive
          simp [recordedBy, hsession, Option.isSome_iff_ne_none, hpersistent, hactive]
        have hrecorded := checkIn_recorded hb hsession hrecords hspares
        have hmay (hc : care) : session.MayRecord (checkInPlan session) :=
          (hcare hc).records _ hrecords
        cases hcheck : performPersistentCheckIn session with
        | mk result charged =>
          rw [hcheck] at hrecorded
          cases result with
          | error reason => exact reaches_record hb hsession hrecorded hmay
          | ok =>
            exact reaches_record hb hsession ⟨hrecorded.backer, hrecorded.stake, hrecorded.settled,
              hrecorded.unbudgeted, hrecorded.budgeted⟩ hmay

theorem Recorded.nil (session : SessionMetadata) : Recorded [] session session :=
  ⟨rfl, rfl, rfl, id, fun t ht => ⟨t, ht, .zero⟩⟩

theorem terminate_reaches {host : Host} (graceful : Bool) (nowMs : ℕ)
    (hb : Balanced u32Max state.book) (hspares : Spares host state (.terminate id graceful nowMs))
    (hcare : care → KeepsSettled host state (.terminate id graceful nowMs)) :
    Reaches u32Max care state.book (sessionsTerminate state id graceful nowMs).2.book := by
  unfold sessionsTerminate
  cases hsession : state.sessions[id]? with
  | none => exact .refl _
  | some session =>
    dsimp only
    split
    case isTrue => exact .refl _
    case isFalse hpersistent =>
      have hpersistent : session.persistent.isSome = true := by
        simpa [Option.isSome_iff_ne_none] using hpersistent
      cases graceful with
      | false =>
        refine reaches_endSession hb hsession (.nil session) .terminated nowMs fun hc =>
          ⟨fun t ht => ⟨fun _ => ?_, .inl rfl⟩, (hcare hc).settles session ?_⟩
        · have hfits := fits_of_balanced hb (SwarmState.budget_eq_some hsession ht)
          have := hfits.within
          have := hfits.bounded
          simp only [planTokens, List.map_nil, List.sum_nil]
          omega
        · simp [settledBy, hsession, hpersistent]
      | true =>
        have hrecords : recordedBy host state (.terminate id true nowMs) =
            some (session, checkInPlan session) := by simp [recordedBy, hsession, hpersistent]
        have hrecorded := checkIn_recorded hb hsession hrecords hspares
        have hmay (hc : care) : session.MayRecord (checkInPlan session) :=
          (hcare hc).records _ hrecords
        cases hcheck : performPersistentCheckIn session with
        | mk result charged =>
          rw [hcheck] at hrecorded
          cases result with
          | error reason => exact reaches_record hb hsession hrecorded hmay
          | ok =>
            refine reaches_endSession hb hsession hrecorded .terminatedGraceful nowMs fun hc =>
              ⟨hmay hc, (hcare hc).settles session ?_⟩
            have hnot := refusesCheckIn_of_ok hpersistent
              (affords_of_spares hb hsession (hspares _ hrecords)) hcheck
            simp [settledBy, hsession, hpersistent, hnot]

theorem contextUpdate_reaches {host : Host} (context : Json) (merge : Bool)
    (hb : Balanced u32Max state.book) (hspares : Spares host state (.contextUpdate id context merge))
    (hcare : care → KeepsSettled host state (.contextUpdate id context merge)) :
    Reaches u32Max care state.book (applyContextUpdate host state id context merge).2.book := by
  unfold applyContextUpdate
  cases hsession : state.sessions[id]? with
  | none => exact .refl _
  | some session =>
    have hrecords : recordedBy host state (.contextUpdate id context merge) =
        some (session, contextPlan host session context) := by simp [recordedBy, hsession]
    have hrecorded := contextUpdate_recorded merge
      (affords_of_spares hb hsession (hspares _ hrecords))
    have hmay (hc : care) : session.MayRecord (contextPlan host session context) :=
      (hcare hc).records _ hrecords
    dsimp only
    cases hupdate : contextUpdate host session context merge with
    | mk result updated =>
      rw [hupdate] at hrecorded
      cases result <;> exact reaches_record hb hsession hrecorded hmay

/-! ### Spawns -/

theorem requested_le (options : SpawnOptions) {n : ℕ}
    (h : options.tokenBudget.map (·.toNat) = some n) : n ≤ u32Max := by
  obtain ⟨budget, -, rfl⟩ := Option.map_eq_some_iff.mp h
  have := budget.toNat_lt
  unfold u32Max
  omega

theorem ReserveCase.capped {parentId : Option String} {options : SpawnOptions}
    {reservation : BudgetReservation} {reserved : SwarmState} (hb : Balanced u32Max state.book)
    (h : ReserveCase state parentId id (options.tokenBudget.map (·.toNat)) (.ok reservation) reserved)
    (n : ℕ) (hn : reservation.effectiveBudget = some n) : n ≤ u32Max := by
  cases h with
  | unbudgeted => exact requested_le options hn
  | reserved parentId' parent t m hid hparent ht hm =>
    cases hn
    have hfits := fits_of_balanced hb (SwarmState.budget_eq_some hparent ht)
    have hle := BudgetTelemetry.reservable_le hm
    have := hfits.bounded
    rw [hfits.remaining] at hle
    omega

/-- The reservation of a spawn that gets that far. -/
theorem reservedFrom_eq {parentId : Option String} {maxDepth depth : ℕ} {options : SpawnOptions}
    {parentId' : String} {parent : SessionMetadata} {t : BudgetTelemetry} {n : ℕ}
    (hdepth : spawnDepth state parentId maxDepth = .ok depth) (hid : parentId = some parentId')
    (hparent : state.sessions[parentId']? = some parent) (ht : parent.budgetTelemetry = some t)
    (hn : t.reservable (options.tokenBudget.map (·.toNat)) = some n) :
    reservedFrom state parentId maxDepth options = some (parent, n) := by
  subst hid
  simp only [reservedFrom, hdepth, Option.bind_some, hparent, ht, hn, Option.map_some]

/-- The parent of a careful spawn is not settled, or nothing is reserved from it. -/
theorem parent_open {parentId : Option String} {maxDepth depth : ℕ} {options : SpawnOptions}
    {reservation : BudgetReservation} {reserved : SwarmState}
    (hdepth : spawnDepth state parentId maxDepth = .ok depth)
    (hreserve : ReserveCase state parentId id (options.tokenBudget.map (·.toNat)) (.ok reservation)
      reserved)
    (h : ∀ r ∈ reservedFrom state parentId maxDepth options,
      r.2 = 0 ∨ r.1.budgetReservationSettled = false) (parentId' : String) (parent : SessionMetadata)
    (hid : parentId = some parentId') (hparent : state.sessions[parentId']? = some parent) :
    reservation.budgetReservationTokens = 0 ∨ parent.budgetReservationSettled = false := by
  cases hreserve with
  | unbudgeted => exact .inl rfl
  | reserved parentId'' parent' t n hid' hparent' ht hn =>
    rw [hid] at hid'
    cases hid'
    rw [hparent] at hparent'
    cases hparent'
    exact h _ (reservedFrom_eq hdepth hid hparent ht hn)

theorem spawnPersistent_reaches {host : Host} {readings : List ℕ} (parentId : Option String)
    (task : String) (maxDepth : ℕ) (options : SpawnOptions) (cfg : PersistentAgentConfig)
    (backgroundWorker : Bool) (nowMs : ℕ) (hb : Balanced u32Max state.book)
    (hpays : Pays state (.spawnPersistent parentId task maxDepth options cfg backgroundWorker nowMs))
    (hcare : care → ∀ r ∈ reservedFrom state parentId maxDepth options,
      r.2 = 0 ∨ r.1.budgetReservationSettled = false) :
    Reaches u32Max care state.book (spawnPersistentSession host readings state parentId task maxDepth
      options cfg backgroundWorker nowMs).2.book := by
  unfold spawnPersistentSession
  cases hdepth : spawnDepth state parentId maxDepth with
  | error text => exact .refl _
  | ok depth =>
    dsimp only
    cases hid : nextSessionId host readings state task depth with
    | none => exact .refl _
    | some sessionId =>
      dsimp only
      have hcases := reserve_cases state parentId sessionId (options.tokenBudget.map (·.toNat))
      cases hreserve : reserveBudgetFromParent state parentId sessionId
          (options.tokenBudget.map (·.toNat)) with
      | mk answer reserved =>
        rw [hreserve] at hcases
        cases answer with
        | error text =>
          cases hcases
          exact .refl _
        | ok reservation =>
          dsimp only at hcases ⊢
          have hopens : Opens options reservation (persistentMetadata parentId task depth options cfg
              backgroundWorker nowMs reservation) := ⟨rfl, rfl, rfl, rfl⟩
          have haffords := hopens.affords (hcases.capped hb)
            (checkInPlan (persistentMetadata parentId task depth options cfg backgroundWorker nowMs
              reservation))
          have hrecorded := performPersistentCheckIn_recorded haffords
          have hrefused := performPersistentCheckIn_error_iff rfl haffords
          cases hcheck : performPersistentCheckIn (persistentMetadata parentId task depth options cfg
              backgroundWorker nowMs reservation) with
          | mk result metadata =>
            rw [hcheck] at hrecorded hrefused
            cases result with
            | error text =>
              cases hcases with
              | unbudgeted => exact .refl _
              | reserved parentId' parent t n hparentId hparent ht hn =>
                -- the dropped session could not afford its plan
                obtain ⟨haction, hmore⟩ := hopens.refused rfl (hrefused.mp ⟨text, rfl⟩)
                have hplan := hpays _ (reservedFrom_eq hdepth hparentId hparent ht hn) haction
                exact absurd hmore (Nat.not_lt.mpr hplan)
            | ok =>
              dsimp only
              rw [book_registerServiceInstance, book_addChild]
              exact reaches_open hb (nextSessionId_fresh hid) (hcases.capped hb) hcases hopens
                hrecorded fun hc => parent_open hdepth hcases (hcare hc)

theorem Recorded.unreserved {options : SpawnOptions} {reservation : BudgetReservation}
    {plan : List (String × ℕ)} {charged : SessionMetadata}
    (hrecorded : Recorded plan session charged) (hopens : Opens options reservation session)
    (t : BudgetTelemetry) (ht : charged.budgetTelemetry = some t) : t.reservedForChildren = 0 := by
  cases htelemetry : session.budgetTelemetry with
  | none => simp [hrecorded.unbudgeted htelemetry] at ht
  | some t₀ =>
    obtain ⟨t', ht', hcharged⟩ := hrecorded.budgeted t₀ htelemetry
    rw [ht] at ht'
    obtain rfl := Option.some.inj ht'
    rw [hopens.telemetry, spawnTelemetry, Option.map_eq_some_iff] at htelemetry
    obtain ⟨n, -, rfl⟩ := htelemetry
    exact hcharged.reserved

theorem budgetTelemetry_addChild (parentId : Option String) (childId : String)
    (h : state.sessions[id]? = some session) : ∃ session',
      (state.addChild parentId childId).sessions[id]? = some session' ∧
        session'.budgetTelemetry = session.budgetTelemetry := by
  cases parentId with
  | none => exact ⟨session, h, rfl⟩
  | some parentId =>
    rw [SwarmState.addChild, SwarmState.getElem?_modifySession, h]
    split
    · refine ⟨_, rfl, ?_⟩
      dsimp only
      split <;> rfl
    · exact ⟨session, rfl, rfl⟩

theorem registerServiceInstance_sessions (state : SwarmState) (id : String) (role : Option String) :
    (registerServiceInstance state id role).sessions = state.sessions := by
  cases role <;> rfl

theorem taskPlan_own (options : SpawnOptions) (task : String) (reservation : BudgetReservation) :
    ∀ row ∈ taskPlan options task reservation, isOwnTool row.1 = true := estimateToolPlan_own _ _

/-- A session that has just entered the ledger is settled at once. -/
theorem reaches_settle_new (hb : Balanced u32Max state.book)
    (hzero : ∀ session, state.sessions[id]? = some session →
      ∀ t, session.budgetTelemetry = some t → t.reservedForChildren = 0) :
    Reaches u32Max care state.book (settleBudgetReservation state id).book :=
  reaches_settle hb fun _ session hsession _ t ht => hzero session hsession t ht

theorem storeSpawned_reaches {reserved : SwarmState} (parentId : Option String) (role : Option String)
    {spawned : SessionMetadata} (hb : Balanced u32Max state.book)
    (hstored : Reaches u32Max care state.book (reserved.insertSession id spawned).book)
    (hzero : ∀ t, spawned.budgetTelemetry = some t → t.reservedForChildren = 0) :
    Reaches u32Max care state.book (storeSpawned reserved parentId id role spawned).book := by
  have hcounted : Reaches u32Max care state.book
      ((registerServiceInstance (reserved.insertSession id spawned) id role).addChild parentId id).book := by
    rw [book_addChild, book_registerServiceInstance]
    exact hstored
  refine hcounted.trans (reaches_settle_new (hb.reaches hcounted) fun found hfound => ?_)
  have hlookup : (registerServiceInstance (reserved.insertSession id spawned) id role).sessions[id]? =
      some spawned := by
    rw [registerServiceInstance_sessions, SwarmState.getElem?_insertSession, if_pos rfl]
  obtain ⟨found', hfound', htelemetry⟩ := budgetTelemetry_addChild parentId id hlookup
  rw [hfound'] at hfound
  obtain rfl := Option.some.inj hfound
  rw [htelemetry]
  exact hzero

theorem spawnSingle_reaches {host : Host} {readings : List ℕ} (parentId : Option String)
    (task : String) (maxDepth : ℕ) (options : SpawnOptions) (hb : Balanced u32Max state.book)
    (hcare : care → ∀ r ∈ reservedFrom state parentId maxDepth options,
      r.2 = 0 ∨ r.1.budgetReservationSettled = false) :
    Reaches u32Max care state.book
      (spawnSingle host readings state parentId task maxDepth options).2.book := by
  unfold spawnSingle
  cases hdepth : spawnDepth state parentId maxDepth with
  | error text => exact .refl _
  | ok depth =>
    dsimp only
    split
    case isTrue => exact .refl _
    case isFalse =>
      cases hid : nextSessionId host readings state task depth with
      | none => exact .refl _
      | some sessionId =>
        dsimp only
        have hcases := reserve_cases state parentId sessionId (options.tokenBudget.map (·.toNat))
        cases hreserve : reserveBudgetFromParent state parentId sessionId
            (options.tokenBudget.map (·.toNat)) with
        | mk answer reserved =>
          rw [hreserve] at hcases
          cases answer with
          | error text =>
            cases hcases
            exact .refl _
          | ok reservation =>
            dsimp only at hcases ⊢
            have hopens : Opens options reservation
                (taskMetadata parentId task depth options reservation) := ⟨rfl, rfl, rfl, rfl⟩
            have haffords := hopens.affords (hcases.capped hb) (taskPlan options task reservation)
            have hrecorded := applyToolPlanForSession_recorded (taskPlan_own options task reservation)
              haffords
            have hopen (charged : SessionMetadata) (h : Recorded (taskPlan options task reservation)
                (taskMetadata parentId task depth options reservation) charged) :
                Reaches u32Max care state.book (reserved.insertSession sessionId charged).book :=
              reaches_open hb (nextSessionId_fresh hid) (hcases.capped hb) hcases hopens h fun hc =>
                parent_open hdepth hcases (hcare hc)
            cases happly : applyToolPlanForSession
                (taskMetadata parentId task depth options reservation)
                (taskPlan options task reservation) with
            | mk result charged =>
              rw [happly] at hrecorded
              have hzero := hrecorded.unreserved hopens
              cases result with
              | error text =>
                dsimp only
                have hstored := hopen { charged with
                  reachable := false, budgetActionTaken := some "fail" }
                  ⟨hrecorded.backer, hrecorded.stake, hrecorded.settled, hrecorded.unbudgeted,
                    hrecorded.budgeted⟩
                refine hstored.trans (reaches_settle_new (hb.reaches hstored) fun failed hfound => ?_)
                rw [SwarmState.getElem?_insertSession, if_pos rfl] at hfound
                obtain rfl := Option.some.inj hfound
                exact hzero
              | ok action =>
                have hsettled := storeSpawned_reaches parentId options.role hb (hopen { charged with
                  reachable := !options.simulateUnreachable, budgetActionTaken := action }
                  ⟨hrecorded.backer, hrecorded.stake, hrecorded.settled, hrecorded.unbudgeted,
                    hrecorded.budgeted⟩) hzero
                dsimp only
                split
                · have hfailed (session : SessionMetadata) :
                      ({ session with status := .failed } : SessionMetadata).party = session.party := rfl
                  rw [SwarmState.book_modifySession_of_party hfailed]
                  exact hsettled
                · split <;> exact hsettled

theorem quarantine_reaches {host : Host} {readings : List ℕ} (targetId anomalyType reason : String)
    (nowMs : ℕ) : Reaches u32Max care state.book
      (quarantineIntoThorn host readings state targetId anomalyType reason nowMs).2.book := by
  unfold quarantineIntoThorn
  dsimp only
  split
  case isTrue => exact .refl _
  case isFalse =>
    cases htarget : state.sessions[targetId]? with
    | none => exact .refl _
    | some target =>
      dsimp only
      split
      case isTrue => exact .refl _
      case isFalse =>
        split
        case isTrue => exact .refl _
        case isFalse =>
          cases hid : nextSessionId host readings state ("thorn:" ++ targetId)
              (addUpTo 255 target.depth 1) with
          | none => exact .refl _
          | some thornId =>
            dsimp only
            have hisolated : (setServiceHealth (state.insertSession targetId
                (quarantineSession thornId reason anomalyType nowMs target)) targetId false).book =
                state.book := by
              have hparty : (quarantineSession thornId reason anomalyType nowMs target).party =
                  target.party := rfl
              rw [book_setServiceHealth, SwarmState.book_insertSession, hparty,
                ← SwarmState.book_eq_some htarget, Function.update_eq_self]
            rw [book_openThorn, hisolated]
            have hnone : state.book thornId = none := by
              rw [SwarmState.book, nextSessionId_fresh hid, Option.map_none]
            have hallowed (thorn : Party String) (hback : thorn.backer = none)
                (haccount : thorn.account = none) :
                Reaches u32Max care state.book (act state.book (.enter thornId thorn)) :=
              .single ⟨hnone, hback, fun a ha => by simp [haccount] at ha⟩ fun _ => trivial
            exact hallowed _ rfl rfl

/-- **Every operation amounts to allowed actions**, careful ones where settling is final. -/
theorem exec_reaches {host : Host} (readings : List ℕ) (op : Op) (hb : Balanced u32Max state.book)
    (hspares : Spares host state op) (hpays : Pays state op)
    (hcare : care → KeepsSettled host state op) :
    Reaches u32Max care state.book (exec host readings op state).2.book := by
  have hsame {state' : SwarmState} (h : SameSessions state state') :
      Reaches u32Max care state.book state'.book := by
    rw [SwarmState.book_congr h.sessions]
    exact .refl _
  cases op with
  | recover nowMs =>
    have hrecovered : (recoverPersistentSessionsAfterReload state nowMs).book = state.book :=
      SwarmState.book_map (fun _ session => recoverSession_party nowMs session) state
    rw [exec, hrecovered]
    exact .refl _
  | drainMessages nowMs => exact hsame (sameSessions_drainExpiredMessages ..)
  | releaseThorn targetId reason nowMs =>
    rw [exec, book_releaseThornCellsForTarget]
    exact .refl _
  | quarantine targetId anomalyType reason nowMs => exact quarantine_reaches ..
  | tickRound nowMs id => exact tickRound_reaches nowMs hb hspares hcare
  | wake id nowMs => exact wake_reaches nowMs hb hspares hcare
  | terminate id graceful nowMs => exact terminate_reaches graceful nowMs hb hspares hcare
  | resume id nowMs =>
    rw [exec, book_sessionsResume]
    exact .refl _
  | spawnSingle parentId task maxDepth options =>
    exact spawnSingle_reaches parentId task maxDepth options hb fun hc => (hcare hc).reserves
  | spawnPersistent parentId task maxDepth options cfg backgroundWorker nowMs =>
    exact spawnPersistent_reaches parentId task maxDepth options cfg backgroundWorker nowMs hb hpays
      fun hc => (hcare hc).reserves
  | contextUpdate id context merge => exact contextUpdate_reaches context merge hb hspares hcare
  | send => exact hsame (sameSessions_sendSessionMessage ..)
  | receive => exact hsame (sameSessions_receiveSessionMessages ..)
  | ack => exact hsame (sameSessions_acknowledgeSessionMessage ..)
  | retryDeadLetter => exact hsame (sameSessions_sessionsRetryDeadLetter ..)
  | createChannel => exact hsame (sameSessions_createChannel ..)
  | registerTool | countInvocation | setByzantine | scheduledAdd | scheduledRan =>
    exact hsame ⟨rfl, rfl⟩
  | forceShutdown =>
    have hdown (id : String) (session : SessionMetadata) :
        (shutDownSession session).party = session.party := rfl
    have hbook : (forceShutdown state).book = state.book := SwarmState.book_map hdown state
    rw [exec, hbook]
    exact .refl _

end Operations

end Protheus.Swarm
