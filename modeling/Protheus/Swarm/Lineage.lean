import Protheus.Swarm.Reservations

/-!
The lineage of a session in `swarm_runtime.rs`: the sessions from a root down to it, each the parent
of the next.

`session_lineage` walks up from the session and stops where one comes back.  None does: a session
names a parent that is there when it enters, nothing moves it to another, and no session is ever
removed, so in every state of a run the walk ends at a root (`lineage_complete`).
-/

namespace Protheus.Swarm

open Runs (before)

namespace SwarmState

/-- The walk of `session_lineage`, past the sessions it has seen. -/
def lineageFrom (state : SwarmState) (seen : List String) (current : String) : List String :=
  if current ∈ seen then []
  else
    match _hparent : state.sessions[current]?.bind (·.parentId) with
    | none => [current]
    | some parentId => current :: lineageFrom state (current :: seen) parentId
termination_by (state.sessions.keys.diff seen).length
decreasing_by
  rename_i hseen
  obtain ⟨session, hsession, -⟩ := Option.bind_eq_some_iff.mp _hparent
  have hkey : current ∈ state.sessions.keys := by
    rw [Std.ExtTreeMap.mem_keys, Std.ExtTreeMap.mem_iff_isSome_getElem?, hsession]
    rfl
  have hmem := List.mem_diff_of_mem hkey hseen
  rw [List.diff_cons_right, List.length_erase_of_mem hmem]
  exact Nat.sub_one_lt_of_lt (List.length_pos_of_mem hmem)

def sessionLineage (state : SwarmState) (id : String) : List String :=
  (state.lineageFrom [] id).reverse

/-- The names of a root, its child and so on down to the session, none of them twice. -/
inductive Lineage (state : SwarmState) : String → List String → Prop
  | root {id : String} {life : Life} (hlife : state.lives id = some life)
      (hroot : life.parentId = none) : Lineage state id [id]
  | child {id parentId : String} {life : Life} {names : List String}
      (hlife : state.lives id = some life) (hparent : life.parentId = some parentId)
      (hup : Lineage state parentId names) (hnew : id ∉ names) : Lineage state id (names ++ [id])

/-- Every session of the first state is in the second one, under the same parent. -/
def Grows (state state' : SwarmState) : Prop :=
  ∀ id life, state.lives id = some life →
    ∃ life', state'.lives id = some life' ∧ life'.parentId = life.parentId

section Lineage

variable {state state' : SwarmState} {id : String} {names : List String}

theorem Lineage.grows (h : state.Lineage id names) (hgrows : state.Grows state') :
    state'.Lineage id names := by
  induction h with
  | root hlife hroot =>
    obtain ⟨life', hlife', hsame⟩ := hgrows _ _ hlife
    exact .root hlife' (hsame.trans hroot)
  | child hlife hparent _ hnew ih =>
    obtain ⟨life', hlife', hsame⟩ := hgrows _ _ hlife
    exact .child hlife' (hsame.trans hparent) ih hnew

theorem Lineage.lives (h : state.Lineage id names) : ∀ x ∈ names, ∃ life, state.lives x = some life := by
  induction h with
  | root hlife _ => simpa using ⟨_, hlife⟩
  | child hlife _ _ _ ih => simpa [or_imp, forall_and] using ⟨ih, _, hlife⟩

/-- **The walk finds the lineage**, where there is one. -/
theorem Lineage.lineageFrom_eq (h : state.Lineage id names) {seen : List String}
    (hseen : ∀ x ∈ names, x ∉ seen) : state.lineageFrom seen id = names.reverse := by
  have hbind (id : String) :
      state.sessions[id]?.bind (·.parentId) = (state.lives id).bind (·.parentId) := by
    rw [SwarmState.lives, Option.bind_map]
    rfl
  induction h generalizing seen with
  | root hlife hroot =>
    rw [lineageFrom, if_neg (hseen _ (by simp))]
    split
    · rfl
    · rename_i hparent
      rw [hbind, hlife, Option.bind_some, hroot] at hparent
      cases hparent
  | @child id parentId life names hlife hparent _ hnew ih =>
    rw [lineageFrom, if_neg (hseen _ (by simp))]
    split
    · rename_i hnone
      rw [hbind, hlife, Option.bind_some, hparent] at hnone
      cases hnone
    · rename_i hsome
      rw [hbind, hlife, Option.bind_some, hparent] at hsome
      obtain rfl := Option.some.inj hsome
      have hrest := @ih (id :: seen) fun x hx hmem => by
        rcases List.mem_cons.mp hmem with rfl | hmem
        · exact hnew hx
        · exact hseen x (by simp [hx]) hmem
      rw [hrest, List.reverse_append, List.reverse_singleton, List.singleton_append]

end Lineage

/-- Every session has a lineage. -/
def Rooted (state : SwarmState) : Prop :=
  ∀ id life, state.lives id = some life → ∃ names, state.Lineage id names

end SwarmState

/-! ## Every run -/

section Runs

variable {state : SwarmState} (host : Host) (requests : List Request)

theorem grows_exec (readings : List ℕ) (op : Op) (state : SwarmState) :
    state.Grows (exec host readings op state).2 := by
  intro id life hlife
  have hstep := exec_step host readings op state id
  rw [hlife] at hstep
  obtain ⟨life', hlife', hsame⟩ := hstep.stays
  exact ⟨life', hlife', hsame.parentId⟩

/-- **Operations keep sessions rooted**: whoever enters does so below a session that is there. -/
theorem SwarmState.Rooted.exec (h : state.Rooted) (readings : List ℕ) (op : Op) :
    (exec host readings op state).2.Rooted := by
  intro id life' hlife'
  have hgrows := grows_exec host readings op state
  have henters {parentId : String} {parent : Life} (hnone : state.lives id = none)
      (hparent : life'.parentId = some parentId) (hthere : state.lives parentId = some parent) :
      ∃ names, (Swarm.exec host readings op state).2.Lineage id names := by
    obtain ⟨names, hnames⟩ := h parentId parent hthere
    refine ⟨_, .child hlife' hparent (hnames.grows hgrows) fun hmem => ?_⟩
    obtain ⟨life, hlife⟩ := hnames.lives id hmem
    cases hnone.symm.trans hlife
  have hstep := exec_step host readings op state id
  rw [hlife'] at hstep
  generalize hbefore : state.lives id = earlier at hstep
  cases hstep with
  | spawned _ _ _ hunder =>
    cases hparent : life'.parentId with
    | none => exact ⟨_, .root hlife' hparent⟩
    | some parentId =>
      obtain ⟨parent, hthere, -⟩ := hunder parentId hparent
      exact henters hbefore hparent hthere
  | opened _ _ _ _ _ _ _ _ hparent _ hthere => exact henters hbefore hparent hthere
  | kept life _ _ =>
    obtain ⟨names, hnames⟩ := h id life hbefore
    exact ⟨names, hnames.grows hgrows⟩

theorem rooted_before (n : ℕ) : (before (step host) {} requests n).Rooted := by
  have hstep (state : SwarmState) (request : Request) (h : state.Rooted) :
      (step host state request).Rooted :=
    @step_invariant _ _ (fun _ _ _ _ => True) (fun readings _ op h _ => h.exec host readings op) _ _ h
      (Runs.Meets.of_forall fun _ _ _ => trivial)
  have hempty : SwarmState.Rooted {} := by
    intro id life hlife
    simp [SwarmState.lives] at hlife
  exact Runs.run_invariant hstep (requests.take n) {} hempty

theorem grows_before {n m : ℕ} (hnm : n ≤ m) :
    (before (step host) {} requests n).Grows (before (step host) {} requests m) := by
  refine Runs.before_induction (step host) (P := (before (step host) {} requests n).Grows) hnm
    (fun _ life hlife => ⟨life, hlife, rfl⟩) fun k request _ _ h => ?_
  refine @step_invariant _ _ (fun _ _ _ _ => True) (fun readings state op h _ id life hlife => ?_) _ _ h
    (Runs.Meets.of_forall fun _ _ _ => trivial)
  obtain ⟨life', hlife', hsame⟩ := h id life hlife
  obtain ⟨life'', hlife'', hsame'⟩ := grows_exec host readings op state id life' hlife'
  exact ⟨life'', hlife'', hsame'.trans hsame⟩

/-- **Lineages are complete and never change**: in every state of every run `session_lineage` leads
from a root down to the session, and so it does in every later state. -/
theorem lineage_complete (n : ℕ) (id : String)
    (hthere : ((before (step host) {} requests n).lives id).isSome) :
    (before (step host) {} requests n).Lineage id ((before (step host) {} requests n).sessionLineage id) ∧
      ∀ m, n ≤ m → (before (step host) {} requests m).sessionLineage id =
        (before (step host) {} requests n).sessionLineage id := by
  obtain ⟨life, hlife⟩ := Option.isSome_iff_exists.mp hthere
  obtain ⟨names, hnames⟩ := rooted_before host requests n id life hlife
  have hfound (m : ℕ) (hnm : n ≤ m) : (before (step host) {} requests m).sessionLineage id = names := by
    rw [SwarmState.sessionLineage, (hnames.grows (grows_before host requests hnm)).lineageFrom_eq (by simp),
      List.reverse_reverse]
  refine ⟨hfound n le_rfl ▸ hnames, fun m hnm => ?_⟩
  rw [hfound m hnm, hfound n le_rfl]

theorem lineage_complete_worker :
    (before (step plannerHost) {} [spawnPlanner, spawnWorker 700, notePlanner] 3).sessionLineage
        workerId =
      (before (step plannerHost) {} [spawnPlanner, spawnWorker 700, notePlanner] 2).sessionLineage
        workerId :=
  (lineage_complete plannerHost _ 2 workerId (by decide +kernel)).2 3 (by decide)

end Runs

end Protheus.Swarm
