import Protheus.Swarm.Run

/-!
The sessions of a swarm as a ledger of token allowances.

A session is a party, its budget an account, the session it was spawned under its
backer.  Recording a plan spends, spawning enters the ledger, on the parent's
allowance if the parent has one, and settling settles.
-/

namespace Protheus.Swarm

open Std (ExtTreeMap)
open Ledger (Book Party Account Balanced Reaches act)
open Function (update)
open RustStd (u32Max addUpTo)

def SessionMetadata.party (session : SessionMetadata) : Party String where
  account := session.budgetTelemetry.map (·.account)
  backer := session.budgetParentSessionId
  stake := session.budgetReservationTokens
  settled := session.budgetReservationSettled

namespace SwarmState

/-- The ledger of a state. -/
def book (state : SwarmState) : Book String := fun id => state.sessions[id]?.map (·.party)

theorem book_eq_some {state : SwarmState} {id : String} {session : SessionMetadata}
    (h : state.sessions[id]? = some session) : state.book id = some session.party := by
  rw [book, h, Option.map_some]

theorem book_account (state : SwarmState) (id : String) :
    state.book.account id = (state.budget id).map (·.account) := by
  rw [Book.account, book, budget]
  cases state.sessions[id]? <;> rfl

theorem book_insertSession (state : SwarmState) (id : String) (session : SessionMetadata) :
    (state.insertSession id session).book = update state.book id (some session.party) := by
  funext x
  rw [book, getElem?_insertSession, Function.update_apply]
  split <;> rfl

theorem book_modifySession {state : SwarmState} {id : String} {session : SessionMetadata}
    (h : state.sessions[id]? = some session) (f : SessionMetadata → SessionMetadata) :
    (state.modifySession id f).book = update state.book id (some (f session).party) := by
  funext x
  rw [book, getElem?_modifySession, Function.update_apply]
  split
  case isTrue hx => rw [hx, h, Option.map_some, Option.map_some]
  case isFalse => rfl

/-- What does not touch the sessions does not touch the ledger. -/
theorem book_congr {state state' : SwarmState} (h : state'.sessions = state.sessions) :
    state'.book = state.book := by
  funext x
  rw [book, book, h]

theorem book_modifySession_of_party {f : SessionMetadata → SessionMetadata}
    (hf : ∀ session, (f session).party = session.party) (state : SwarmState) (id : String) :
    (state.modifySession id f).book = state.book := by
  funext x
  rw [book, book, getElem?_modifySession]
  split
  · cases state.sessions[x]? with
    | none => rfl
    | some session => simp [hf]
  · rfl

theorem book_map {f : String → SessionMetadata → SessionMetadata}
    (hf : ∀ id session, (f id session).party = session.party) (state : SwarmState) :
    ({ state with sessions := state.sessions.map f } : SwarmState).book = state.book := by
  funext x
  rw [book, book, ExtTreeMap.getElem?_map]
  cases state.sessions[x]? with
  | none => rfl
  | some session => simp [hf]

end SwarmState

/-! ## Recorded plans -/

/-- A session that affords a plan: its budget, if it has one, fits and covers it. -/
def SessionMetadata.Affords (session : SessionMetadata) (plan : List (String × ℕ)) : Prop :=
  ∀ t, session.budgetTelemetry = some t → t.Fits ∧ t.PlanCovered plan

/-- What recording a plan makes of a session, as far as the ledger goes. -/
structure Recorded (plan : List (String × ℕ)) (session charged : SessionMetadata) : Prop where
  backer : charged.budgetParentSessionId = session.budgetParentSessionId
  stake : charged.budgetReservationTokens = session.budgetReservationTokens
  settled : charged.budgetReservationSettled = session.budgetReservationSettled
  unbudgeted : session.budgetTelemetry = none → charged.budgetTelemetry = none
  budgeted : ∀ t, session.budgetTelemetry = some t → ∃ t', charged.budgetTelemetry = some t' ∧
    t.Charged t' (t.planApplied plan) (t.Counted (planTokens plan))

theorem applyToolPlanForSession_recorded {session : SessionMetadata} {plan : List (String × ℕ)}
    (htools : ∀ row ∈ plan, isOwnTool row.1 = true) (h : session.Affords plan) :
    Recorded plan session (applyToolPlanForSession session plan).2 := by
  unfold applyToolPlanForSession
  cases ht : session.budgetTelemetry with
  | none => exact ⟨rfl, rfl, rfl, fun _ => ht, fun t h => by simp [ht] at h⟩
  | some t =>
    obtain ⟨hfits, hcovered⟩ := h t ht
    have hcharged := @BudgetTelemetry.Fits.recordPlan_charged plan none htools t hfits hcovered
    dsimp only
    cases hrecord : t.recordPlan plan none with
    | mk t' result =>
      rw [hrecord] at hcharged
      cases result <;>
        exact ⟨rfl, rfl, rfl, fun h => by simp [ht] at h, fun s hs => by
          rw [ht] at hs
          cases hs
          exact ⟨t', rfl, hcharged⟩⟩

theorem applyToolPlanForSession_error_iff {session : SessionMetadata} {plan : List (String × ℕ)}
    (htools : ∀ row ∈ plan, isOwnTool row.1 = true) (h : session.Affords plan) :
    (∃ reason, (applyToolPlanForSession session plan).1 = .error reason) ↔
      ∃ t, session.budgetTelemetry = some t ∧ t.PlanDenied plan := by
  unfold applyToolPlanForSession
  cases ht : session.budgetTelemetry with
  | none => simp
  | some t =>
    obtain ⟨hfits, hcovered⟩ := h t ht
    have hdenied := @BudgetTelemetry.Fits.recordPlan_denied_iff plan none htools t hfits hcovered
    simp only [Option.some.injEq, exists_eq_left', ← hdenied]
    cases t.recordPlan plan none with
    | mk t' result => cases result <;> simp

theorem checkInPlan_own (session : SessionMetadata) :
    ∀ row ∈ checkInPlan session, isOwnTool row.1 = true := estimateToolPlan_own _ _

theorem performPersistentCheckIn_recorded {session : SessionMetadata}
    (h : session.Affords (checkInPlan session)) :
    Recorded (checkInPlan session) session (performPersistentCheckIn session).2 := by
  have hrecorded := applyToolPlanForSession_recorded (checkInPlan_own session) h
  unfold performPersistentCheckIn
  cases hplan : applyToolPlanForSession session (checkInPlan session) with
  | mk result charged =>
    rw [hplan] at hrecorded
    obtain ⟨hbacker, hstake, hsettled, hunbudgeted, hbudgeted⟩ := hrecorded
    cases result with
    | error reason => exact ⟨hbacker, hstake, hsettled, hunbudgeted, hbudgeted⟩
    | ok action =>
      dsimp only
      split <;> exact ⟨hbacker, hstake, hsettled, hunbudgeted, hbudgeted⟩

/-- A check-in touches nothing but the budget, the status and the counters of a session. -/
theorem applyToolPlanForSession_persistent (session : SessionMetadata) (plan : List (String × ℕ)) :
    (applyToolPlanForSession session plan).2.persistent = session.persistent := by
  unfold applyToolPlanForSession
  split
  · rfl
  · split <;> rfl

theorem performPersistentCheckIn_error_iff {session : SessionMetadata}
    (hpersistent : session.persistent.isSome = true) (h : session.Affords (checkInPlan session)) :
    (∃ reason, (performPersistentCheckIn session).1 = .error reason) ↔
      ∃ t, session.budgetTelemetry = some t ∧ t.PlanDenied (checkInPlan session) := by
  rw [← applyToolPlanForSession_error_iff (checkInPlan_own session) h]
  have hkept := applyToolPlanForSession_persistent session (checkInPlan session)
  unfold performPersistentCheckIn
  cases hplan : applyToolPlanForSession session (checkInPlan session) with
  | mk result charged =>
    rw [hplan] at hkept
    cases result with
    | error reason => simp
    | ok action =>
      dsimp only at hkept ⊢
      rw [hkept]
      obtain ⟨runtime, hruntime⟩ := Option.isSome_iff_exists.mp hpersistent
      simp [hruntime]

def contextPlan (host : Host) (session : SessionMetadata) (context : Json) : List (String × ℕ) :=
  [("context_propagation", contextTokens host (effectiveContext host session context).1)]

theorem contextUpdate_recorded {host : Host} {session : SessionMetadata} {context : Json}
    (merge : Bool) (h : session.Affords (contextPlan host session context)) :
    Recorded (contextPlan host session context) session
      (contextUpdate host session context merge).2 := by
  unfold contextUpdate
  dsimp only
  cases ht : session.budgetTelemetry with
  | none => exact ⟨rfl, rfl, rfl, fun _ => ht, fun t h => by simp [ht] at h⟩
  | some t =>
    obtain ⟨hfits, hcovered⟩ := h t ht
    have hcharged := hfits.recordToolUsage_charged isOwnTool_context hcovered.1
    have hplan : t.planApplied (contextPlan host session context) =
        t.applied (contextTokens host (effectiveContext host session context).1) := by
      simp [contextPlan, BudgetTelemetry.planApplied]
    have htokens : planTokens (contextPlan host session context) =
        contextTokens host (effectiveContext host session context).1 := by
      simp [contextPlan, planTokens]
    dsimp only
    rw [← hplan, ← htokens] at hcharged
    cases hrecord : t.recordToolUsage "context_propagation"
        (contextTokens host (effectiveContext host session context).1) with
    | mk t' outcome =>
      rw [htokens, hrecord, ← htokens] at hcharged
      cases outcome <;>
        exact ⟨rfl, rfl, rfl, fun h => by simp [ht] at h, fun s hs => by
          rw [ht] at hs
          cases hs
          exact ⟨t', rfl, hcharged⟩⟩

/-! ## Actions of the ledger -/

def SessionMetadata.Owes (session : SessionMetadata) : Prop :=
  session.budgetReservationSettled = false ∧ session.budgetReservationTokens ≠ 0 ∧
    session.budgetParentSessionId.isSome

instance (session : SessionMetadata) : Decidable session.Owes :=
  inferInstanceAs (Decidable (_ ∧ _ ∧ _))

def SessionMetadata.MayRecord (session : SessionMetadata) (plan : List (String × ℕ)) : Prop :=
  ∀ t ∈ session.budgetTelemetry, t.Counted (planTokens plan) ∧
    (t.planApplied plan = 0 ∨ session.budgetReservationSettled = false)

instance (session : SessionMetadata) (plan : List (String × ℕ)) :
    Decidable (session.MayRecord plan) :=
  inferInstanceAs (Decidable (∀ t ∈ session.budgetTelemetry, _))

/-- A session that reserves nothing any more, if settling it takes effect. -/
def SessionMetadata.MaySettle (session : SessionMetadata) : Prop :=
  session.Owes → ∀ t ∈ session.budgetTelemetry, t.reservedForChildren = 0

instance (session : SessionMetadata) : Decidable session.MaySettle :=
  inferInstanceAs (Decidable (_ → ∀ t ∈ session.budgetTelemetry, _))

section Actions

variable {state : SwarmState} {id : String} {session : SessionMetadata} {care : Prop}

theorem SwarmState.budget_eq_some {t : BudgetTelemetry} (h : state.sessions[id]? = some session)
    (ht : session.budgetTelemetry = some t) : state.budget id = some t := by
  rw [budget, h, Option.bind_some, ht]

theorem fits_of_balanced (hb : Balanced u32Max state.book) {t : BudgetTelemetry}
    (ht : state.budget id = some t) : t.Fits := by
  have hacc : state.book.account id = some t.account := by
    rw [SwarmState.book_account, ht, Option.map_some]
  exact ⟨hb.within hacc, hb.capped hacc⟩

theorem BudgetTelemetry.Fits.free {t : BudgetTelemetry} (h : t.Fits) :
    t.account.free = t.remainingTokens := by
  rw [h.remaining]
  rfl

/-- A recorded plan is spent. -/
theorem reaches_record {plan : List (String × ℕ)} {charged : SessionMetadata}
    (hb : Balanced u32Max state.book) (hsession : state.sessions[id]? = some session)
    (hrecorded : Recorded plan session charged)
    (hcare : care → session.MayRecord plan) :
    Reaches u32Max care state.book (state.insertSession id charged).book := by
  have hbook := SwarmState.book_eq_some hsession
  rw [SwarmState.book_insertSession]
  cases ht : session.budgetTelemetry with
  | none =>
    have hparty : charged.party = session.party := by
      simp only [SessionMetadata.party, hrecorded.backer, hrecorded.stake, hrecorded.settled,
        hrecorded.unbudgeted ht, ht]
    rw [hparty, ← hbook, Function.update_eq_self]
    exact .refl _
  | some t =>
    obtain ⟨t', ht', hcharged⟩ := hrecorded.budgeted t ht
    have hbudget := SwarmState.budget_eq_some hsession ht
    have hacc : state.book.account id = some t.account := by
      rw [SwarmState.book_account, hbudget, Option.map_some]
    have hact : update state.book id (some charged.party) =
        act state.book (.spend id (t.planApplied plan) t'.ownUsage) := by
      have haccount : session.party.account = some t.account := by simp [SessionMetadata.party, ht]
      rw [act, Ledger.Book.change_eq hbook haccount, ← hcharged.account]
      simp only [SessionMetadata.party, hrecorded.backer, hrecorded.stake, hrecorded.settled, ht',
        Option.map_some]
    rw [hact]
    refine .single ⟨t.account, hacc, ?_⟩ fun hc => ?_
    · rw [(fits_of_balanced hb hbudget).free]
      exact hcharged.afforded
    · obtain ⟨hcounted, hopen⟩ := hcare hc t ht
      refine ⟨fun a ha => ?_, hopen.imp_right fun hopen p hp => ?_⟩
      · rw [hacc] at ha
        cases ha
        exact hcharged.noted hcounted
      · rw [hbook] at hp
        cases hp
        exact hopen

theorem reaches_settle (hb : Balanced u32Max state.book)
    (hcare : care → ∀ session, state.sessions[id]? = some session → session.MaySettle) :
    Reaches u32Max care state.book (settleBudgetReservation state id).book := by
  unfold settleBudgetReservation
  cases hsession : state.sessions[id]? with
  | none => exact .refl _
  | some session =>
    have hbook := SwarmState.book_eq_some hsession
    dsimp only
    split
    case isTrue => exact .refl _
    case isFalse hnot =>
      cases hback : session.budgetParentSessionId with
      | none => exact .refl _
      | some parentId =>
        have howes : session.Owes := by
          rw [Bool.or_eq_true, not_or] at hnot
          exact ⟨by simpa using hnot.1, by simpa using hnot.2, by simp [hback]⟩
        have hopen := howes.1
        obtain ⟨pk, a, hk, ha⟩ := hb.exists_backer hbook hback hopen
        obtain ⟨parent, hparent, rfl⟩ : ∃ parent, state.sessions[parentId]? = some parent ∧
            parent.party = pk := by simpa [SwarmState.book] using hk
        obtain ⟨t, ht, rfl⟩ : ∃ t, parent.budgetTelemetry = some t ∧ t.account = a := by
          simpa [SessionMetadata.party] using ha
        have hne : id ≠ parentId := by
          rintro rfl
          exact hb.apart hbook hback
        have hused : session.party.used = (session.budgetTelemetry.map (·.finalUsage)).getD 0 := by
          rw [Party.used, SessionMetadata.party]
          cases session.budgetTelemetry <;> rfl
        have hacc := Ledger.Book.account_eq_some.mpr ⟨_, hk, ha⟩
        have hfirst : t.chargedFor id = 0 := by
          refine (hb.pending id hacc).resolve_right ?_
          rw [Ledger.Book.settled_iff hbook]
          simp [SessionMetadata.party, hopen]
        have hroom : t.finalUsage + session.party.used ≤ u32Max := by
          obtain ⟨a', ha', hentry⟩ := hb.held hbook hback hopen
          rw [hacc] at ha'
          cases ha'
          have := hb.used_le hbook hback
          have := Ledger.le_total hentry
          have := hb.summed hacc
          have := hb.within hacc
          have := hb.capped hacc
          simp only [BudgetTelemetry.account] at *
          omega
        have hchild (f : SessionMetadata → SessionMetadata) :
            (state.modifySession parentId f).sessions[id]? = some session := by
          rw [SwarmState.getElem?_modifySession, if_neg hne, hsession]
        dsimp only
        rw [SwarmState.book_modifySession (hchild _), SwarmState.book_modifySession hparent, ← hused]
        have haccount : (t.settleChild id session.budgetReservationTokens session.party.used).account =
            t.account.release id session.budgetReservationTokens session.party.used :=
          BudgetTelemetry.settleChild_account hfirst hroom
        have hact := Ledger.act_settle hbook hback hk ha
        generalize session.party.used = used at haccount hact ⊢
        simp only [SessionMetadata.party, ht, Option.map_some, haccount] at hact ⊢
        rw [← hact]
        refine .single ⟨_, parentId, hbook, hback, hopen⟩ fun hc ac hac => ?_
        rw [SwarmState.book_account, SwarmState.budget, hsession, Option.bind_some,
          Option.map_eq_some_iff] at hac
        obtain ⟨tc, htc, rfl⟩ := hac
        exact hcare hc session hsession howes tc htc

end Actions

/-! ## Spawns -/

theorem BudgetTelemetry.reservable_le {t : BudgetTelemetry} {requestedBudget : Option ℕ} {n : ℕ}
    (h : t.reservable requestedBudget = some n) : n ≤ t.remainingTokens := by
  unfold reservable at h
  dsimp only at h
  split at h
  · simp at h
  · cases h
    omega

/-- A session as it is before its first plan is recorded. -/
structure Opens (options : SpawnOptions) (reservation : BudgetReservation)
    (session : SessionMetadata) : Prop where
  telemetry : session.budgetTelemetry = spawnTelemetry options reservation.effectiveBudget
  backer : session.budgetParentSessionId = reservation.budgetParentSessionId
  stake : session.budgetReservationTokens = reservation.budgetReservationTokens
  settled : session.budgetReservationSettled = false

theorem Opens.affords {options : SpawnOptions} {reservation : BudgetReservation}
    {session : SessionMetadata} (h : Opens options reservation session)
    (hcap : ∀ n, reservation.effectiveBudget = some n → n ≤ u32Max) (plan : List (String × ℕ)) :
    session.Affords plan := by
  intro t ht
  rw [h.telemetry, spawnTelemetry, Option.map_eq_some_iff] at ht
  obtain ⟨n, hn, rfl⟩ := ht
  exact ⟨BudgetTelemetry.new_fits (hcap n hn), BudgetTelemetry.planCovered_of_unreserved rfl⟩

/-- A session that is refused its first plan could not afford it. -/
theorem Opens.refused {options : SpawnOptions} {reservation : BudgetReservation}
    {session : SessionMetadata} (h : Opens options reservation session) {task : String}
    {tokenBudget : Option ℕ} {n : ℕ} (hn : reservation.effectiveBudget = some n)
    (hdenied : ∃ t, session.budgetTelemetry = some t ∧
      t.PlanDenied (estimateToolPlan task tokenBudget)) :
    options.budgetExhaustionAction = .failHard ∧ n < planTokens (estimateToolPlan task tokenBudget) := by
  obtain ⟨t, ht, haction, hmore⟩ := hdenied
  rw [h.telemetry, hn, spawnTelemetry, Option.map_some] at ht
  obtain rfl := Option.some.inj ht
  have hle := planTokens_estimate_le task tokenBudget
  refine ⟨haction, ?_⟩
  simp only [BudgetTelemetry.new, addUpTo] at hmore
  omega

/-- A budget after its first plan is one that nobody else has touched. -/
theorem BudgetTelemetry.Charged.fresh {config : TokenBudgetConfig} {t : BudgetTelemetry} {n : ℕ}
    {counted : Prop} (h : (new config).Charged t n counted) (hcounted : counted)
    (hcap : config.maxTokens ≤ u32Max) : t.account.Fresh u32Max := by
  have hnew := new_fits hcap
  have hn := h.afforded
  have hown := h.noted hcounted
  rw [hnew.remaining] at hn
  have hzero : (new config).ownUsage = 0 := Ledger.total_empty
  have hcharges : (new config).account.charges = fun _ => 0 := by
    funext c
    simp [BudgetTelemetry.account, chargedFor, new]
  rw [hzero] at hown
  rw [h.account]
  constructor
  · simp only [Account.spend_spent, Account.spend_limit, BudgetTelemetry.account, new] at hn ⊢
    omega
  · exact hcap
  · simpa [BudgetTelemetry.account, new] using hown
  · exact hcharges
  · rfl
  · rfl

/-- **A spawned session enters the ledger**, on its parent's allowance if the parent has
one. -/
theorem reaches_open {state : SwarmState} {care : Prop} {parentId : Option String} {id : String}
    {options : SpawnOptions} {requestedBudget : Option ℕ} {reservation : BudgetReservation}
    {reserved : SwarmState} {task : String} {tokenBudget : Option ℕ}
    {session charged : SessionMetadata} (hb : Balanced u32Max state.book)
    (hfresh : state.sessions[id]? = none)
    (hcap : ∀ n, reservation.effectiveBudget = some n → n ≤ u32Max)
    (hreserve : ReserveCase state parentId id requestedBudget (.ok reservation) reserved)
    (hopens : Opens options reservation session)
    (hrecorded : Recorded (estimateToolPlan task tokenBudget) session charged)
    (hcare : care → ∀ parentId' parent, parentId = some parentId' →
      state.sessions[parentId']? = some parent → reservation.budgetReservationTokens = 0 ∨
        parent.budgetReservationSettled = false) :
    Reaches u32Max care state.book (reserved.insertSession id charged).book := by
  have hnone : state.book id = none := by rw [SwarmState.book, hfresh, Option.map_none]
  -- the account the session starts with
  have hnew : ∀ t, charged.budgetTelemetry = some t →
      t.account.Fresh u32Max ∧ reservation.effectiveBudget = some t.account.limit := by
    intro t ht
    cases htelemetry : session.budgetTelemetry with
    | none => simp [hrecorded.unbudgeted htelemetry] at ht
    | some t₀ =>
      obtain ⟨t', ht', hcharged⟩ := hrecorded.budgeted t₀ htelemetry
      rw [ht] at ht'
      cases ht'
      rw [hopens.telemetry, spawnTelemetry, Option.map_eq_some_iff] at htelemetry
      obtain ⟨n, hn, rfl⟩ := htelemetry
      refine ⟨hcharged.fresh (BudgetTelemetry.new_counted _ _ _) (hcap n hn), ?_⟩
      rw [hcharged.account, hn]
      rfl
  have hparty : charged.party = { session.party with
      account := charged.budgetTelemetry.map (·.account) } := by
    simp only [SessionMetadata.party, hrecorded.backer, hrecorded.stake, hrecorded.settled]
  rw [SwarmState.book_insertSession]
  cases hreserve with
  | unbudgeted _ =>
    have hact : update state.book id (some charged.party) = act state.book (.enter id charged.party) :=
      rfl
    rw [hact]
    refine .single ⟨hnone, ?_, fun a ha => ?_⟩ fun _ => trivial
    · rw [hparty]
      exact hopens.backer
    · rw [SessionMetadata.party, Option.map_eq_some_iff] at ha
      obtain ⟨t, ht, rfl⟩ := ha
      exact (hnew t ht).1
  | reserved parentId' parent t n hid hparent ht hn =>
    have hk := SwarmState.book_eq_some hparent
    have ha : parent.party.account = some t.account := by simp [SessionMetadata.party, ht]
    have hfits := fits_of_balanced hb (SwarmState.budget_eq_some hparent ht)
    have hle := BudgetTelemetry.reservable_le hn
    have hroom : t.reservedForChildren + n ≤ u32Max := by
      have := hfits.within
      have := hfits.bounded
      rw [hfits.remaining] at hle
      omega
    obtain ⟨t', ht'⟩ : ∃ t', charged.budgetTelemetry = some t' := by
      have htelemetry : session.budgetTelemetry = some (.new
          { maxTokens := n
            warningThreshold := options.tokenWarningThreshold
            exhaustionAction := options.budgetExhaustionAction }) := hopens.telemetry
      obtain ⟨t', ht', -⟩ := hrecorded.budgeted _ htelemetry
      exact ⟨t', ht'⟩
    obtain ⟨hfreshAccount, hlimit⟩ := hnew t' ht'
    have hstake : charged.party.stake = n := by
      rw [hparty]
      exact hopens.stake
    have hact : update (state.modifySession parentId' fun session => { session with
          budgetTelemetry := session.budgetTelemetry.map (·.reserveChild id n) }).book id
        (some charged.party) = act state.book (.back parentId' id charged.party) := by
      rw [SwarmState.book_modifySession hparent, act, Ledger.Book.change_eq hk ha, hstake,
        ← BudgetTelemetry.reserveChild_account id hroom]
      simp only [SessionMetadata.party, ht, Option.map_some]
    rw [hact]
    refine .single ⟨hnone, ⟨t.account, Ledger.Book.account_eq_some.mpr ⟨_, hk, ha⟩, ?_⟩, ?_, ?_,
      t'.account, ?_, ?_, hfreshAccount⟩ fun hc => ?_
    · rw [hstake, hfits.free]
      exact hle
    · rw [hparty]
      exact hopens.backer
    · rw [hparty]
      exact hopens.settled
    · simp [SessionMetadata.party, ht']
    · rw [hstake]
      simpa using hlimit.symm
    · refine (hcare hc parentId' parent hid hparent).imp (fun h => ?_) fun h p hp => ?_
      · rw [hstake]
        exact h
      · rw [hk] at hp
        cases hp
        exact h

/-! ## What leaves the ledger alone -/

theorem book_setServiceHealth (state : SwarmState) (id : String) (healthy : Bool) :
    (setServiceHealth state id healthy).book = state.book := SwarmState.book_congr rfl

theorem book_registerServiceInstance (state : SwarmState) (id : String) (role : Option String) :
    (registerServiceInstance state id role).book = state.book := by
  cases role <;> exact SwarmState.book_congr rfl

theorem book_addChild (state : SwarmState) (parentId : Option String) (id : String) :
    (state.addChild parentId id).book = state.book := by
  cases parentId with
  | none => rfl
  | some parentId =>
    refine SwarmState.book_modifySession_of_party (fun session => ?_) state parentId
    split <;> rfl

theorem recoverSession_party (nowMs : ℕ) (session : SessionMetadata) :
    (recoverSession nowMs session).party = session.party := by
  unfold recoverSession
  split
  · rfl
  · split
    · rfl
    · split <;> rfl

theorem book_openThorn (state : SwarmState) (thornId : String) (thorn : SessionMetadata) :
    (openThorn state thornId thorn).book = update state.book thornId (some thorn.party) := by
  rw [← SwarmState.book_insertSession]
  exact SwarmState.book_congr rfl

theorem book_destroyThorns (nowMs : ℕ) (thornIds : List String) : ∀ state : SwarmState,
    (thornIds.foldl (destroyThorn nowMs) state).book = state.book := by
  induction thornIds with
  | nil => exact fun _ => rfl
  | cons thornId rest ih =>
    intro state
    have hdestroyed (thorn : SessionMetadata) : (destroySession nowMs thorn).party = thorn.party := rfl
    rw [List.foldl_cons, ih, destroyThorn, book_setServiceHealth,
      SwarmState.book_modifySession_of_party hdestroyed]

theorem book_releaseThornCellsForTarget (state : SwarmState) (targetId reason : String)
    (nowMs : ℕ) : (releaseThornCellsForTarget state targetId reason nowMs).2.book = state.book := by
  unfold releaseThornCellsForTarget
  dsimp only
  split
  · rfl
  · have hrestored (target : SessionMetadata) :
        (restoreSession reason nowMs target).party = target.party := rfl
    rw [restoreQuarantinedTarget, book_setServiceHealth,
      SwarmState.book_modifySession_of_party hrestored, book_destroyThorns]

theorem book_sessionsResume (state : SwarmState) (id : String) (nowMs : ℕ) :
    (sessionsResume state id nowMs).2.book = state.book := by
  unfold sessionsResume
  cases hsession : state.sessions[id]? with
  | none => rfl
  | some session =>
    dsimp only
    cases hpersistent : session.persistent with
    | none => rfl
    | some runtime =>
      dsimp only
      rw [SwarmState.book_insertSession]
      have hparty : (resumeSession nowMs runtime session).party = session.party := by
        unfold resumeSession
        split <;> rfl
      rw [hparty, ← SwarmState.book_eq_some hsession, Function.update_eq_self]

end Protheus.Swarm
