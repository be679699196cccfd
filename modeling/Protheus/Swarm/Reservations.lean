import Protheus.Swarm.LedgerOps
import Protheus.Swarm.Lives

/-!
The token budgets of a swarm over whole runs.

`child_reservations` adds up in every state of a run that spares its reservations and
pays for its persistent sessions (`reservations_add_up`), and in general not: a
parent's own context update may spend what it has reserved for a child, and a
persistent session that cannot afford its first check-in leaves its reservation
behind.  Where settling is final too, every charge is what the settled session used,
and no family of sessions uses more than its head may (`settled_charges_final`); in
general settled sessions go on recording usage that nobody is charged for.
-/

namespace Protheus.Swarm

open Runs
open Ledger (Balanced Squared)
open RustStd (u32Max)

/-! ## Reservations -/

/-- What `child_reservations` is to say. -/
structure ReservationsAddUp (state : SwarmState) : Prop where
  within : ∀ id t, state.budget id = some t →
    t.finalUsage + t.reservedForChildren ≤ t.budgetConfig.maxTokens
  summed : ∀ id t, state.budget id = some t →
    t.reservedForChildren = Ledger.total t.childReservations
  entries : ∀ (id : String) (t : BudgetTelemetry) (child : String) (tokens : ℕ),
    state.budget id = some t → t.childReservations[child]? = some tokens →
    ∃ session : SessionMetadata, state.sessions[child]? = some session ∧
      session.budgetParentSessionId = some id ∧ session.budgetReservationTokens = tokens ∧
      session.budgetReservationSettled = false

theorem account_of_budget {state : SwarmState} {id : String} {t : BudgetTelemetry}
    (h : state.budget id = some t) : state.book.account id = some t.account := by
  rw [SwarmState.book_account, h, Option.map_some]

theorem reservationsAddUp_of_balanced {state : SwarmState} (h : Balanced u32Max state.book) :
    ReservationsAddUp state where
  within id t ht := h.within (account_of_budget ht)
  summed id t ht := h.summed (account_of_budget ht)
  entries id t child tokens ht hentry := by
    obtain ⟨p, hp, hback, hstake, hopen⟩ := h.backed (account_of_budget ht) hentry
    obtain ⟨session, hsession, rfl⟩ := Option.map_eq_some_iff.mp hp
    exact ⟨session, hsession, hback, hstake, hopen⟩

def KeepsReservations (host : Host) (_ : List ℕ) (state : SwarmState) (op : Op) : Prop :=
  Spares host state op ∧ Pays state op

instance (host : Host) (readings : List ℕ) (state : SwarmState) (op : Op) :
    Decidable (KeepsReservations host readings state op) :=
  inferInstanceAs (Decidable (_ ∧ _))

theorem exec_balanced {host : Host} (readings : List ℕ) (state : SwarmState) (op : Op)
    (hb : Balanced u32Max state.book) (h : KeepsReservations host readings state op) :
    Balanced u32Max (exec host readings op state).2.book :=
  hb.reaches (exec_reaches readings op hb h.1 h.2 (fun hfalse : False => hfalse.elim))

/-- **Reservations add up** in every state of a run whose operations keep them. -/
theorem reservations_add_up (host : Host) (requests : List Request)
    (h : Meets (step host) (Heeds host KeepsReservations) {} requests) (n : ℕ) :
    ReservationsAddUp (before (step host) {} requests n) := by
  have hstep (state : SwarmState) (request : Request) (hb : Balanced u32Max state.book)
      (hheeds : Heeds host KeepsReservations state request) :
      Balanced u32Max (step host state request).book :=
    @step_invariant host (fun state => Balanced u32Max state.book) KeepsReservations
      exec_balanced state request hb hheeds
  exact reservationsAddUp_of_balanced (Meets.before hstep (Ledger.balanced_empty u32Max) h n)

/-! ### A planner and its worker -/

def plannerHost : Host := .ofDigests
  [(sessionSeed "plan" 0 1, "8b33edb9cf9a48584ed3912313d9e81dbbb90ec4ee7fd4df2904ca539a4e11a0"),
    (sessionSeed "work" 1 2, "28da31b3ed51c5b21f069bd227b3ef2b0d88f1b073d8b459c1806657d5c2040b")]

def plannerId : String := "swarm-8b33edb9cf9a"

def workerId : String := "swarm-28da31b3ed51"

/-- A session with 1000 tokens, of which its plan takes 260. -/
def spawnPlanner : Request :=
  (Command.spawn none "plan" false 8 none { tokenBudget := some 1000 }).at 1

/-- A persistent worker of the planner. -/
def spawnWorker (tokens : UInt32) : Request :=
  (Command.spawn (some plannerId) "work" false 8 none
    { tokenBudget := some tokens, executionMode := .persistent ⟨3600, 60⟩ }).at 2

def notePlanner : Request :=
  (Command.sessionsContextPut (some plannerId) (some (.obj [("k", .str "v")])) true).at 3

theorem reservations_add_up_planner : ReservationsAddUp
    (before (step plannerHost) {} [spawnPlanner, spawnWorker 700, notePlanner] 3) :=
  reservations_add_up plannerHost _ (by decide +kernel) 3

/-- A note of one token spends what is reserved for the worker, and a worker that cannot
afford its first check-in leaves its reservation behind. -/
theorem reservations_overspent_or_orphaned :
    ¬ReservationsAddUp
        (run (step plannerHost) {} [spawnPlanner, spawnWorker 740, notePlanner]) ∧
      ¬ReservationsAddUp (run (step plannerHost) {} [spawnPlanner, spawnWorker 100]) := by
  constructor
  · intro h
    have hover : ∃ t ∈ (run (step plannerHost) {} [spawnPlanner, spawnWorker 740,
        notePlanner]).budget plannerId,
        t.budgetConfig.maxTokens < t.finalUsage + t.reservedForChildren := by
      decide +kernel
    obtain ⟨t, ht, hover⟩ := hover
    exact absurd (h.within plannerId t ht) (by omega)
  · intro h
    have horphan : ∃ t ∈ (run (step plannerHost) {} [spawnPlanner, spawnWorker 100]).budget
        plannerId, t.childReservations[workerId]? = some 100 := by
      decide +kernel
    have hmissing : (run (step plannerHost) {} [spawnPlanner, spawnWorker 100]).sessions[workerId]? =
        none := by
      refine Option.isNone_iff_eq_none.mp ?_
      decide +kernel
    obtain ⟨t, ht, hentry⟩ := horphan
    obtain ⟨session, hsession, -⟩ := h.entries plannerId t workerId 100 ht hentry
    rw [hmissing] at hsession
    cases hsession

end Protheus.Swarm
