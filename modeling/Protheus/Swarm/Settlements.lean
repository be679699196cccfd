import Protheus.Swarm.Reservations

/-!
What the end of a session costs its parent.

Where settling is final, the parent is charged what the settled session used, and no
family of sessions uses more than its head may (`settled_charges_final`).  In general
settled sessions go on recording usage that nobody is charged for: a context update
on a task session, or a second level of a recursive spawn.
-/

namespace Protheus.Swarm

open Runs
open Ledger (Balanced Squared Barren)
open RustStd (u32Max)

/-! ## Families of sessions -/

/-- The tokens a session has recorded for tools of its own. -/
def SwarmState.ownUsage (state : SwarmState) (id : String) : ℕ :=
  ((state.budget id).map (·.ownUsage)).getD 0

/-- The sessions whose parent is the given one. -/
def SwarmState.childrenOf (state : SwarmState) (id : String) : Finset String :=
  ((state.sessions.toList.filter fun entry => entry.2.parentId == some id).map Prod.fst).toFinset

/-- What a session and its descendants, down to a generation, have recorded. -/
def SwarmState.familyUsage (state : SwarmState) (generations : ℕ) (id : String) : ℕ :=
  Ledger.familyUsage state.ownUsage state.childrenOf generations id

theorem SwarmState.mem_childrenOf (state : SwarmState) (id child : String) :
    child ∈ state.childrenOf id ↔ ∃ life, state.lives child = some life ∧ life.parentId = some id := by
  simp only [childrenOf, List.mem_toFinset, List.mem_map, List.mem_filter, Prod.exists,
    Std.ExtTreeMap.mem_toList_iff_getElem?_eq_some, exists_and_right, exists_eq_right, lives,
    Option.map_eq_some_iff, beq_iff_eq]
  constructor
  · rintro ⟨session, hsession, hparent⟩
    exact ⟨session.life, ⟨session, hsession, rfl⟩, hparent⟩
  · rintro ⟨life, ⟨session, hsession, rfl⟩, hparent⟩
    exact ⟨session, hsession, hparent⟩

theorem SwarmState.book_own (state : SwarmState) : state.book.own = state.ownUsage := by
  funext id
  rw [Ledger.Book.own, SwarmState.book_account, Option.map_map, ownUsage]
  rfl

/-- What settling is to leave. -/
structure ChargesFinal (state : SwarmState) : Prop where
  charged : ∀ (id : String) (session : SessionMetadata) (parentId : String),
    state.sessions[id]? = some session → session.budgetReservationSettled = true →
    session.budgetParentSessionId = some parentId →
    ∃ t, state.budget parentId = some t ∧
      t.chargedFor id = (session.budgetTelemetry.map (·.finalUsage)).getD 0
  family : ∀ (id : String) (t : BudgetTelemetry) (generations : ℕ), state.budget id = some t →
    state.familyUsage generations id ≤ t.budgetConfig.maxTokens

/-! ## Kin -/

/-- How sessions and their parents stand to each other: a parent with a budget backs
its children, but for its thorn cells, which have no budget and no children. -/
structure Kin (lives : String → Option Life) : Prop where
  backed : ∀ {id life parentId}, lives id = some life → life.parentId = some parentId →
    ∃ parent, lives parentId = some parent ∧
      (life.thornCell = false → parent.budgeted = true → life.budgetParentSessionId = some parentId)
  unbudgeted : ∀ {id life}, lives id = some life → life.thornCell = true → life.budgeted = false
  childless : ∀ {id life cellId cell targetId target}, lives id = some life →
    life.parentId = some cellId → lives cellId = some cell → cell.thornCell = true →
    cell.parentId = some targetId → lives targetId = some target → target.budgeted = false

/-- An operation that spawns no session under the thorn cell of one that has a budget. -/
def Adopts (state : SwarmState) (op : Op) : Prop :=
  ∀ cellId ∈ op.spawnParent.join, ∀ cell ∈ state.sessions[cellId]?, cell.thornCell = true →
    ∀ targetId ∈ cell.parentId, state.budget targetId = none

instance (state : SwarmState) (op : Op) : Decidable (Adopts state op) :=
  inferInstanceAs (Decidable (∀ cellId ∈ op.spawnParent.join, ∀ cell ∈ state.sessions[cellId]?,
    cell.thornCell = true → ∀ targetId ∈ cell.parentId, state.budget targetId = none))

theorem kin_empty : Kin ({} : SwarmState).lives := by
  constructor <;> intro id life <;> simp [SwarmState.lives]

theorem Kin.step {state state' : SwarmState} {op : Op} (hkin : Kin state.lives)
    (hadopts : Adopts state op)
    (hstep : ∀ x, Step state state' op x (state.lives x) (state'.lives x)) : Kin state'.lives := by
  have hstays {id : String} {life : Life} (h : state.lives id = some life) :
      ∃ life', state'.lives id = some life' ∧ SameKin life life' :=
    Step.stays (h ▸ hstep id)
  constructor
  case backed =>
    intro id life parentId hid hparentId
    have hborn := hstep id
    rw [hid] at hborn
    generalize hbefore : state.lives id = before at hborn
    cases hborn with
    | spawned _ _ _ hparent =>
      obtain ⟨parent, hp, hback⟩ := hparent parentId hparentId
      obtain ⟨parent', hp', hsame⟩ := hstays hp
      exact ⟨parent', hp', fun _ hbudgeted => hback (hsame.budgeted ▸ hbudgeted)⟩
    | opened targetId _ _ _ _ target _ hcell hparent _ htarget _ hquarantined =>
      rw [hparent] at hparentId
      cases hparentId
      exact ⟨_, hquarantined, fun hnot => absurd hcell.1 (by simp [hnot])⟩
    | kept life₀ _ hchange =>
      have hsame := hchange.sameKin
      obtain ⟨parent, hp, hback⟩ := hkin.backed hbefore (hsame.parentId ▸ hparentId)
      obtain ⟨parent', hp', hsame'⟩ := hstays hp
      refine ⟨parent', hp', fun hcell hbudgeted => ?_⟩
      rw [hsame.backer]
      exact hback (hsame.thornCell ▸ hcell) (hsame'.budgeted ▸ hbudgeted)
  case unbudgeted =>
    intro id life hid hcell
    have hborn := hstep id
    rw [hid] at hborn
    generalize hbefore : state.lives id = before at hborn
    cases hborn with
    | spawned _ _ hnot _ => simp [hnot] at hcell
    | opened _ _ _ _ _ _ _ _ _ hbudget => exact hbudget
    | kept life₀ _ hchange =>
      have hsame := hchange.sameKin
      rw [hsame.budgeted]
      exact hkin.unbudgeted hbefore (hsame.thornCell ▸ hcell)
  case childless =>
    intro id life cellId cell targetId target hid hcellId hcell hthorn htargetId htarget
    -- a session that has a parent before the step has the same one after it
    have hold {cell₀ : Life} (hcell₀ : state.lives cellId = some cell₀) :
        cell₀.thornCell = true ∧ cell₀.parentId = some targetId ∧
          ∃ target₀, state.lives targetId = some target₀ ∧ target₀.budgeted = target.budgeted := by
      obtain ⟨cell', hcell', hsame⟩ := hstays hcell₀
      rw [hcell] at hcell'
      cases hcell'
      have hparent : cell₀.parentId = some targetId := hsame.parentId ▸ htargetId
      obtain ⟨target₀, htarget₀, -⟩ := hkin.backed hcell₀ hparent
      obtain ⟨target', htarget', hsame'⟩ := hstays htarget₀
      rw [htarget] at htarget'
      cases htarget'
      exact ⟨hsame.thornCell ▸ hthorn, hparent, target₀, htarget₀, hsame'.budgeted.symm⟩
    have hborn := hstep id
    rw [hid] at hborn
    generalize hbefore : state.lives id = before at hborn
    cases hborn with
    | spawned _ hop _ hparent =>
      obtain ⟨cell₀, hcell₀, -⟩ := hparent cellId hcellId
      obtain ⟨hthorn₀, hparent₀, target₀, htarget₀, hbudgeted⟩ := hold hcell₀
      rw [← hbudgeted]
      obtain ⟨session, hsession, rfl⟩ := Option.map_eq_some_iff.mp hcell₀
      have hnone := hadopts cellId (by simp [hop, hcellId]) session hsession hthorn₀ targetId hparent₀
      obtain ⟨target₁, htarget₁, rfl⟩ := Option.map_eq_some_iff.mp htarget₀
      rw [SwarmState.budget, htarget₁, Option.bind_some] at hnone
      simp [SessionMetadata.life, hnone]
    | opened targetId' _ _ _ _ target' _ _ hparent _ htarget' hnot _ =>
      rw [hparent] at hcellId
      cases hcellId
      exact absurd (hold htarget').1 (by simp [hnot])
    | kept life₀ _ hchange =>
      have hparent := hchange.sameKin.parentId ▸ hcellId
      obtain ⟨cell₀, hcell₀, -⟩ := hkin.backed hbefore hparent
      obtain ⟨hthorn₀, hparent₀, target₀, htarget₀, hbudgeted⟩ := hold hcell₀
      rw [← hbudgeted]
      exact hkin.childless hbefore hparent hcell₀ hthorn₀ hparent₀ htarget₀

/-! ## Runs -/

structure KeepsCharges (host : Host) (readings : List ℕ) (state : SwarmState) (op : Op) : Prop where
  reservations : KeepsReservations host readings state op
  settled : KeepsSettled host state op
  adopts : Adopts state op

instance (host : Host) (readings : List ℕ) (state : SwarmState) (op : Op) :
    Decidable (KeepsCharges host readings state op) :=
  decidable_of_iff (KeepsReservations host readings state op ∧ KeepsSettled host state op ∧
    Adopts state op) ⟨fun h => ⟨h.1, h.2.1, h.2.2⟩, fun h => ⟨h.reservations, h.settled, h.adopts⟩⟩

/-- Ledger and kin are in order. -/
structure InOrder (state : SwarmState) : Prop where
  balanced : Balanced u32Max state.book
  squared : Squared state.book
  kin : Kin state.lives

theorem exec_inOrder {host : Host} (readings : List ℕ) (state : SwarmState) (op : Op)
    (h : InOrder state) (hkeeps : KeepsCharges host readings state op) :
    InOrder (exec host readings op state).2 := by
  have hreaches := exec_reaches readings op h.balanced hkeeps.reservations.1 hkeeps.reservations.2
    (fun _ : True => hkeeps.settled)
  exact ⟨h.balanced.reaches hreaches, h.squared.reaches h.balanced trivial hreaches,
    h.kin.step hkeeps.adopts (exec_step host readings op state)⟩

/-- Every child of a session with a budget is backed by it, or is of no account. -/
theorem InOrder.family {state : SwarmState} (h : InOrder state) {id child : String}
    {a : Ledger.Account String} (ha : state.book.account id = some a)
    (hchild : child ∈ state.childrenOf id) :
    (∃ p, state.book child = some p ∧ p.backer = some id) ∨
      Barren state.book.own state.childrenOf child := by
  obtain ⟨life, hlife, hparentId⟩ := (state.mem_childrenOf id child).mp hchild
  obtain ⟨parent, hparent, hback⟩ := h.kin.backed hlife hparentId
  have hbudgeted : parent.budgeted = true := by
    rw [SwarmState.book_account, Option.map_eq_some_iff] at ha
    obtain ⟨t, ht, -⟩ := ha
    obtain ⟨session, hsession, rfl⟩ := Option.map_eq_some_iff.mp hparent
    rw [SwarmState.budget, hsession, Option.bind_some] at ht
    simp [SessionMetadata.life, ht]
  cases hcell : life.thornCell with
  | false =>
    have hbacker := hback hcell hbudgeted
    obtain ⟨session, hsession, rfl⟩ := Option.map_eq_some_iff.mp hlife
    exact .inl ⟨session.party, SwarmState.book_eq_some hsession, hbacker⟩
  | true =>
    refine .inr ⟨?_, ?_⟩
    · have hnone := h.kin.unbudgeted hlife hcell
      obtain ⟨session, hsession, rfl⟩ := Option.map_eq_some_iff.mp hlife
      have hnobudget : session.budgetTelemetry = none :=
        Option.isNone_iff_eq_none.mp (Option.isSome_eq_false_iff.mp hnone)
      rw [SwarmState.book_own, SwarmState.ownUsage, SwarmState.budget, hsession, Option.bind_some,
        hnobudget]
      rfl
    · refine Finset.eq_empty_of_forall_notMem fun grandchild hgrandchild => ?_
      obtain ⟨life', hlife', hparentId'⟩ := (state.mem_childrenOf child grandchild).mp hgrandchild
      have hnot := h.kin.childless hlife' hparentId' hlife hcell hparentId hparent
      simp [hbudgeted] at hnot

theorem InOrder.chargesFinal {state : SwarmState} (h : InOrder state) : ChargesFinal state where
  charged id session parentId hsession hsettled hparentId := by
    obtain ⟨a, ha, hcharge⟩ :=
      h.squared.charged (SwarmState.book_eq_some hsession) hparentId hsettled
    rw [SwarmState.book_account, Option.map_eq_some_iff] at ha
    obtain ⟨t, ht, rfl⟩ := ha
    refine ⟨t, ht, hcharge.trans ?_⟩
    rw [Ledger.Party.used, SessionMetadata.party, Option.map_map]
    rfl
  family id t generations ht := by
    have ha := account_of_budget ht
    have hle := h.squared.familyUsage_le h.balanced h.family generations ha
    have hwithin := h.balanced.within ha
    rw [SwarmState.book_own] at hle
    exact hle.trans hwithin

/-- **Settled charges are final**, in every state of a run whose operations keep them. -/
theorem settled_charges_final (host : Host) (requests : List Request)
    (h : Meets (step host) (Heeds host KeepsCharges) {} requests) (n : ℕ) :
    ChargesFinal (before (step host) {} requests n) := by
  have hstart : InOrder {} :=
    ⟨Ledger.balanced_empty u32Max, Ledger.squared_empty, kin_empty⟩
  have hstep (state : SwarmState) (request : Request) (hin : InOrder state)
      (hheeds : Heeds host KeepsCharges state request) : InOrder (step host state request) :=
    step_invariant exec_inOrder hin hheeds
  exact (Meets.before hstep hstart h n).chargesFinal

/-- A helper of the planner, settled as soon as its plan is recorded. -/
def spawnHelper : Request :=
  (Command.spawn (some plannerId) "work" false 8 none { tokenBudget := some 400 }).at 2

def noteHelper : Request :=
  (Command.sessionsContextPut (some workerId) (some (.obj [("k", .str "v")])) true).at 3

theorem settled_charges_final_planner : ChargesFinal
    (before (step plannerHost) {} [spawnPlanner, spawnHelper, notePlanner] 3) :=
  settled_charges_final plannerHost _ (by decide +kernel) 3

/-- The planner is not charged for a note on its settled helper. -/
theorem settled_helper_spends : ¬ChargesFinal
    (run (step plannerHost) {} [spawnPlanner, spawnHelper, noteHelper]) := by
  intro h
  have huncharged : ∃ session ∈ (run (step plannerHost) {} [spawnPlanner, spawnHelper,
      noteHelper]).sessions[workerId]?, session.budgetReservationSettled = true ∧
        session.budgetParentSessionId = some plannerId ∧
        ∃ t ∈ (run (step plannerHost) {} [spawnPlanner, spawnHelper, noteHelper]).budget plannerId,
          t.chargedFor workerId ≠ (session.budgetTelemetry.map (·.finalUsage)).getD 0 := by
    decide +kernel
  obtain ⟨session, hsession, hsettled, hparentId, t, ht, hne⟩ := huncharged
  obtain ⟨t', ht', hcharge⟩ := h.charged workerId session plannerId hsession hsettled hparentId
  rw [Option.mem_def.mp ht] at ht'
  cases ht'
  exact hne hcharge

end Protheus.Swarm
