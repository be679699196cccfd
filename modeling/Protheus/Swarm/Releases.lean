import Protheus.Swarm.Quarantine

/-!
Quarantine and release of `swarm_runtime.rs`, one after the other.

A quarantine takes its target out of reach and out of the service registry and remembers the status
alone; a release puts the status back, the target within reach and every one of its service entries to
healthy.  So the pair changes nothing only where the target was within reach and healthy before
(`undone_iff`).
-/

namespace Protheus.Swarm

open Std (ExtTreeMap)
open Function (update)
open RustStd (u64Max addUpTo)

namespace SwarmState

/-- The service entries of a session under a role. -/
def entries (state : SwarmState) (id role : String) : List ServiceInstance :=
  (state.serviceRegistry[role]?.getD []).filter fun row => row.sessionId = id

/-- Every service entry of the session reports it healthy. -/
def AllHealthy (state : SwarmState) (id : String) : Prop :=
  ∀ role, ∀ row ∈ state.entries id role, row.healthy = true

/-- A target has one active thorn cell at most. -/
def OneCell (state : SwarmState) (targetId : String) : Prop :=
  ∀ x ∈ thornIdsFor state targetId, ∀ y ∈ thornIdsFor state targetId, x = y

/-- Every thorn cell is for a session that is there and is none itself. -/
def CellsWatch (state : SwarmState) : Prop :=
  ∀ thornId thorn, state.lives thornId = some thorn → thorn.thornCell = true →
    ∃ targetId target, thorn.thornTargetSessionId = some targetId ∧
      state.lives targetId = some target ∧ target.thornCell = false

end SwarmState

/-- What a quarantine and a release after it come to: the target and its service entries are what they
were, and neither left a second active thorn cell. -/
structure Undone (before during after : SwarmState) (targetId : String) : Prop where
  session : ∃ target target', before.sessions[targetId]? = some target ∧
    after.sessions[targetId]? = some target' ∧ target'.reachable = target.reachable ∧
      target'.status = target.status
  entries : ∀ role, after.entries targetId role = before.entries targetId role
  duringCell : during.OneCell targetId
  afterCell : after.OneCell targetId

/-- The target can be reached, all its service entries are healthy, and it has no active thorn cell. -/
structure Quiet (state : SwarmState) (targetId : String) : Prop where
  reachable : ∀ target ∈ state.sessions[targetId]?, target.reachable = true
  healthy : state.AllHealthy targetId
  noCell : thornIdsFor state targetId = []

/-! ## Service entries -/

namespace SwarmState

variable {state : SwarmState} {id x role : String}

theorem entries_congr {state' : SwarmState} (h : state'.serviceRegistry = state.serviceRegistry) :
    state'.entries id role = state.entries id role := by
  rw [entries, entries, h]

theorem entries_setServiceHealth (healthy : Bool) :
    (setServiceHealth state x healthy).entries id role =
      if id = x then (state.entries id role).map fun row => { row with healthy }
      else state.entries id role := by
  simp only [entries, setServiceHealth, ExtTreeMap.getElem?_map]
  cases state.serviceRegistry[role]? with
  | none => simp
  | some rows =>
    rw [Option.map_some, Option.getD_some, Option.getD_some, List.filter_map]
    have hsame : ((fun row : ServiceInstance => decide (row.sessionId = id)) ∘ fun row =>
        if row.sessionId = x then { row with healthy } else row) =
          fun row => decide (row.sessionId = id) := by
      funext row
      rw [Function.comp_apply]
      split <;> rfl
    rw [hsame]
    split
    · rename_i hid
      refine List.map_congr_left fun row hrow => ?_
      have hrow : row.sessionId = id := by simpa using (List.mem_filter.mp hrow).2
      rw [if_pos (hrow.trans hid)]
    · rename_i hid
      refine (List.map_congr_left fun row hrow => ?_).trans (List.map_id _)
      have hrow : row.sessionId = id := by simpa using (List.mem_filter.mp hrow).2
      rw [if_neg (by rwa [hrow]), id_eq]

theorem entries_registerServiceInstance (roleName : Option String) (h : id ≠ x) :
    (registerServiceInstance state x roleName).entries id role = state.entries id role := by
  cases roleName with
  | none => rfl
  | some roleName =>
    rw [entries, entries, registerServiceInstance]
    simp only [ExtTreeMap.getElem?_insert]
    split
    · rename_i hrole
      obtain rfl : roleName = role := by simpa using hrole
      rw [Option.getD_some, List.filter_append, List.filter_filter]
      have hnew : [({ sessionId := x, healthy := true } : ServiceInstance)].filter
          (fun row => decide (row.sessionId = id)) = [] := by
        simp [Ne.symm h]
      rw [hnew, List.append_nil]
      refine List.filter_congr fun row _ => ?_
      by_cases hrow : row.sessionId = id
      · simp [hrow, h]
      · simp [hrow]
    · rfl

end SwarmState

/-! ## Thorn cells -/

section Cells

variable {state state' : SwarmState} {targetId x : String}

theorem Change.thornTarget {op : Op} {id : String} {life life' : Life} (h : Change op id life life') :
    life'.thornTargetSessionId = life.thornTargetSessionId := by
  cases h with
  | resumed =>
    unfold Life.resume
    split <;> rfl
  | recovered =>
    unfold Life.recover
    split <;> rfl
  | _ => rfl

/-- **Thorn cells keep their targets** under every operation. -/
theorem SwarmState.CellsWatch.exec (h : state.CellsWatch) (host : Host) (readings : List ℕ) (op : Op) :
    (exec host readings op state).2.CellsWatch := by
  intro id cell hafter hcell
  have hstep := exec_step host readings op state id
  rw [hafter] at hstep
  generalize hbefore : state.lives id = before at hstep
  cases hstep with
  | spawned _ _ hnot => simp [hnot] at hcell
  | opened targetId _ _ _ _ target _ hfor _ _ _ htarget hquarantined =>
    exact ⟨targetId, target.quarantine, hfor.2.2, hquarantined, htarget⟩
  | kept life _ hchange =>
    obtain ⟨targetId, target, hfor, htarget, hplain⟩ :=
      h id life hbefore (hchange.sameKin.thornCell ▸ hcell)
    have hkept := exec_step host readings op state targetId
    rw [htarget] at hkept
    obtain ⟨target', htarget', hsame⟩ := hkept.stays
    exact ⟨targetId, target', hchange.thornTarget.trans hfor, htarget',
      hsame.thornCell.trans hplain⟩

/-- **Every thorn cell is for a session**, in every state of every run. -/
theorem cellsWatch_before (host : Host) (requests : List Request) (n : ℕ) :
    (Runs.before (step host) {} requests n).CellsWatch := by
  have hstep (state : SwarmState) (request : Request) (h : state.CellsWatch) :
      (step host state request).CellsWatch :=
    @step_invariant _ _ (fun _ _ _ _ => True) (fun readings _ op h _ => h.exec host readings op) _ _ h
      (Runs.Meets.of_forall fun _ _ _ => trivial)
  have hempty : SwarmState.CellsWatch {} := by
    intro id life hlife
    simp [SwarmState.lives] at hlife
  exact Runs.run_invariant hstep (requests.take n) {} hempty

theorem SwarmState.CellsWatch.release (h : state.CellsWatch) (targetId reason : String) (nowMs : ℕ) :
    (releaseThornCellsForTarget state targetId reason nowMs).2.CellsWatch :=
  h.exec ⟨fun _ => "", fun _ => "", fun _ => ""⟩ [] (.releaseThorn targetId reason nowMs)

/-- The sessions of active thorn cells are none themselves. -/
theorem SwarmState.CellsWatch.plain (h : state.CellsWatch) (hcells : thornIdsFor state targetId ≠ [])
    {life : Life} (hlife : state.lives targetId = some life) : life.thornCell = false := by
  obtain ⟨thornId, hmem⟩ := List.exists_mem_of_ne_nil _ hcells
  obtain ⟨thorn, hthorn, hfor⟩ := (mem_thornIdsFor state targetId thornId).mp hmem
  obtain ⟨targetId', target, htarget', hlife', hplain⟩ := h thornId thorn hthorn hfor.1
  obtain rfl : targetId = targetId' := Option.some.inj (hfor.2.2.symm.trans htarget')
  rw [hlife] at hlife'
  exact Option.some.inj hlife' ▸ hplain

end Cells

/-! ## One release -/

/-- What a quarantine of the session is about stays as it is. -/
structure Apart (state state' : SwarmState) (targetId : String) : Prop where
  life : state'.lives targetId = state.lives targetId
  cells : ∀ x, x ∈ thornIdsFor state' targetId ↔ x ∈ thornIdsFor state targetId
  entries : ∀ role, state'.entries targetId role = state.entries targetId role

/-- The session is restored, its thorn cells are gone and its entries are healthy. -/
structure Released (state state' : SwarmState) (targetId : String) : Prop where
  life : state'.lives targetId = (state.lives targetId).map Life.restore
  cells : thornIdsFor state' targetId = []
  entries : ∀ role, state'.entries targetId role =
    (state.entries targetId role).map fun row => { row with healthy := true }

section Release

variable {state state' state'' : SwarmState} {targetId x reason : String} {nowMs : ℕ}

theorem Apart.refl (state : SwarmState) (targetId : String) : Apart state state targetId :=
  ⟨rfl, fun _ => Iff.rfl, fun _ => rfl⟩

theorem Apart.trans (h : Apart state state' targetId) (h' : Apart state' state'' targetId) :
    Apart state state'' targetId :=
  ⟨h'.life.trans h.life, fun x => (h'.cells x).trans (h.cells x),
    fun role => (h'.entries role).trans (h.entries role)⟩

theorem Apart.cells_eq_nil (h : Apart state state' targetId) :
    thornIdsFor state' targetId = [] ↔ thornIdsFor state targetId = [] := by
  rw [List.eq_nil_iff_forall_not_mem, List.eq_nil_iff_forall_not_mem]
  exact forall_congr' fun x => not_congr (h.cells x)

theorem Apart.then_released (h : Apart state state' targetId) (h' : Released state' state'' targetId) :
    Released state state'' targetId where
  life := by rw [h'.life, h.life]
  cells := h'.cells
  entries role := by rw [h'.entries, h.entries]

theorem Released.then_apart (h : Released state state' targetId) (h' : Apart state' state'' targetId) :
    Released state state'' targetId where
  life := h'.life.trans h.life
  cells := h'.cells_eq_nil.mpr h.cells
  entries role := (h'.entries role).trans (h.entries role)

theorem entries_destroyThorns (role : String) {thornIds : List String} (hnot : x ∉ thornIds) :
    ∀ state : SwarmState, (thornIds.foldl (destroyThorn nowMs) state).entries x role =
      state.entries x role := by
  induction thornIds with
  | nil => exact fun _ => rfl
  | cons thornId rest ih =>
    intro state
    rw [List.mem_cons, not_or] at hnot
    rw [List.foldl_cons, ih hnot.2, destroyThorn, SwarmState.entries_setServiceHealth, if_neg hnot.1]
    exact SwarmState.entries_congr rfl

/-- The service entries after a release of a target that has a thorn cell. -/
theorem entries_release (hany : thornIdsFor state targetId ≠ []) (hnot : x ∉ thornIdsFor state targetId)
    (role : String) : (releaseThornCellsForTarget state targetId reason nowMs).2.entries x role =
      if x = targetId then (state.entries x role).map fun row => { row with healthy := true }
      else state.entries x role := by
  have hempty : (thornIdsFor state targetId).isEmpty = false := by simpa using hany
  have hmodified : (((thornIdsFor state targetId).foldl (destroyThorn nowMs) state).modifySession
      targetId (restoreSession reason nowMs)).entries x role = state.entries x role :=
    (SwarmState.entries_congr rfl).trans (entries_destroyThorns role hnot state)
  unfold releaseThornCellsForTarget
  dsimp only
  rw [hempty, if_neg Bool.false_ne_true, restoreQuarantinedTarget, SwarmState.entries_setServiceHealth,
    hmodified]

theorem not_mem_thornIdsFor {life : Life} {other : String} (hlife : state.lives x = some life)
    (hplain : life.thornCell = false) : x ∉ thornIdsFor state other := by
  intro hmem
  obtain ⟨life', hlife', hfor⟩ := (mem_thornIdsFor state other x).mp hmem
  rw [hlife] at hlife'
  rw [← Option.some.inj hlife', Life.IsThornFor, hplain] at hfor
  exact Bool.false_ne_true hfor.1

/-- A release of a session that has an active thorn cell. -/
theorem released {life : Life} (hlife : state.lives targetId = some life)
    (hplain : life.thornCell = false) (hany : thornIdsFor state targetId ≠ []) :
    Released state (releaseThornCellsForTarget state targetId reason nowMs).2 targetId := by
  obtain ⟨thornId, hmem⟩ := List.exists_mem_of_ne_nil _ hany
  obtain ⟨thorn, hthorn, hfor⟩ := (mem_thornIdsFor state targetId thornId).mp hmem
  have hlives := lives_releaseThornCellsForTarget hthorn hfor reason nowMs
  constructor
  case life => simp [hlives]
  case cells =>
    refine List.eq_nil_iff_forall_not_mem.mpr fun x hx => ?_
    obtain ⟨life', hlife', hfor'⟩ := (mem_thornIdsFor _ targetId x).mp hx
    rw [hlives, Option.map_eq_some_iff] at hlife'
    obtain ⟨before, hbefore, rfl⟩ := hlife'
    split at hfor'
    · rename_i hx
      rw [hx, hlife] at hbefore
      cases hbefore
      have hcell : life.thornCell = true := hfor'.1
      rw [hplain] at hcell
      cases hcell
    · split at hfor'
      · cases hfor'.2.1
      · rename_i hnot
        exact hnot ((mem_thornIdsFor state targetId x).mpr ⟨before, hbefore, hfor'⟩)
  case entries =>
    intro role
    rw [entries_release hany (not_mem_thornIdsFor hlife hplain), if_pos rfl]

/-- A release without an active thorn cell does nothing. -/
theorem release_of_nil (h : thornIdsFor state targetId = []) :
    (releaseThornCellsForTarget state targetId reason nowMs).2 = state := by
  unfold releaseThornCellsForTarget
  rw [h]
  rfl

/-- A release of another session, or of one without a thorn cell. -/
theorem apart_release {life : Life} {other : String} (hwatch : state.CellsWatch)
    (hlife : state.lives targetId = some life) (hplain : life.thornCell = false)
    (h : other ≠ targetId ∨ thornIdsFor state targetId = []) :
    Apart state (releaseThornCellsForTarget state other reason nowMs).2 targetId := by
  by_cases hany : thornIdsFor state other = []
  · rw [release_of_nil hany]
    exact .refl state targetId
  have hne : other ≠ targetId := by
    rintro rfl
    exact h.elim (fun hne => hne rfl) hany
  obtain ⟨thornId, hmem⟩ := List.exists_mem_of_ne_nil _ hany
  obtain ⟨thorn, hthorn, hfor⟩ := (mem_thornIdsFor state other thornId).mp hmem
  have hlives := lives_releaseThornCellsForTarget hthorn hfor reason nowMs
  have hnot : targetId ∉ thornIdsFor state other := not_mem_thornIdsFor hlife hplain
  constructor
  case life => simp [hlives, hne.symm, hnot]
  case entries =>
    intro role
    rw [entries_release hany hnot, if_neg hne.symm]
  case cells =>
    intro x
    rw [mem_thornIdsFor, mem_thornIdsFor, hlives]
    cases hx : state.lives x with
    | none => simp
    | some before =>
      simp only [Option.map_some, Option.some.injEq, exists_eq_left']
      split
      · rename_i hother
        have hcell := hwatch.plain hany (hother ▸ hx)
        simp [Life.IsThornFor, Life.restore, hcell]
      · split
        · rename_i hmem
          obtain ⟨_, hbefore, hother⟩ := (mem_thornIdsFor state other x).mp hmem
          rw [hx] at hbefore
          cases hbefore
          refine iff_of_false (fun hfor => by cases hfor.2.1) fun hfor => hne ?_
          exact Option.some.inj (hother.2.2.symm.trans hfor.2.2)
        · rfl

end Release

/-! ## Expiry -/

/-- The releases of `drain_expired_thorn_cells`, one after another. -/
def releaseEach (nowMs : ℕ) (state : SwarmState) (targets : List String) : SwarmState :=
  targets.foldl
    (fun state targetId => (releaseThornCellsForTarget state targetId "ttl_expired" nowMs).2) state

/-- What `drain_expired_thorn_cells` leaves. -/
def expire (host : Host) (readings : List ℕ) (state : SwarmState) (nowMs : ℕ) : SwarmState :=
  ((drainExpiredThornCells nowMs : Script host readings Unit) state).state

section Expiry

variable {state : SwarmState} {targetId : String} {nowMs : ℕ} {life : Life}

theorem expire_eq (host : Host) (readings : List ℕ) (state : SwarmState) (nowMs : ℕ) :
    expire host readings state nowMs = releaseEach nowMs state (expiredThornTargets state nowMs) := by
  have hloop (targets : List String) : ∀ state : SwarmState,
      ((Program.forEach (fun targetId => Program.attempt
        (Script.perform (.releaseThorn targetId "ttl_expired" nowMs))) targets :
          Script host readings Unit) state).state = releaseEach nowMs state targets := by
    induction targets with
    | nil => exact fun _ => rfl
    | cons targetId rest ih =>
      intro state
      have hfirst := @Script.state_perform host readings (.releaseThorn targetId "ttl_expired" nowMs) state
      have hrest := ih ((Script.perform (.releaseThorn targetId "ttl_expired" nowMs) :
        Script host readings Unit) state).state
      exact hrest.trans (congrArg (fun state => releaseEach nowMs state rest) hfirst)
  exact hloop (expiredThornTargets state nowMs) state

theorem SwarmState.CellsWatch.releaseEach (targets : List String) :
    ∀ {state : SwarmState}, state.CellsWatch → (releaseEach nowMs state targets).CellsWatch := by
  induction targets with
  | nil => exact fun h => h
  | cons other rest ih => exact fun h => ih (h.release other "ttl_expired" nowMs)

/-- Releases of other sessions, or of one without a thorn cell. -/
theorem apart_releaseEach (hplain : life.thornCell = false) (targets : List String) :
    ∀ {state : SwarmState}, state.CellsWatch → state.lives targetId = some life →
      (targetId ∉ targets ∨ thornIdsFor state targetId = []) →
        Apart state (releaseEach nowMs state targets) targetId := by
  induction targets with
  | nil => exact fun _ _ _ => .refl _ targetId
  | cons other rest ih =>
    intro state hwatch hlife h
    have hfirst : Apart state (releaseThornCellsForTarget state other "ttl_expired" nowMs).2
        targetId := by
      refine apart_release hwatch hlife hplain (h.imp_left fun hnot heq => hnot ?_)
      rw [heq]
      exact List.mem_cons_self
    refine hfirst.trans (ih (hwatch.release other "ttl_expired" nowMs) (hfirst.life.trans hlife) ?_)
    exact h.imp (fun hnot hmem => hnot (List.mem_cons_of_mem other hmem)) hfirst.cells_eq_nil.mpr

/-- **Expiry releases** a session among the targets that has an active thorn cell, whatever the others
are. -/
theorem released_releaseEach (hwatch : state.CellsWatch) (hlife : state.lives targetId = some life)
    (hplain : life.thornCell = false) (hany : thornIdsFor state targetId ≠ []) {targets : List String}
    (hmem : targetId ∈ targets) : Released state (releaseEach nowMs state targets) targetId := by
  obtain ⟨before, after, rfl, hnot⟩ := List.eq_append_cons_of_mem hmem
  have hbefore : Apart state (releaseEach nowMs state before) targetId :=
    apart_releaseEach hplain before hwatch hlife (.inl hnot)
  have hlife' := hbefore.life.trans hlife
  have hreleased := @released _ targetId "ttl_expired" nowMs life hlife' hplain
    (mt hbefore.cells_eq_nil.mp hany)
  have hrestored := hreleased.life
  rw [hlife', Option.map_some] at hrestored
  have hafter := @apart_releaseEach _ nowMs life.restore hplain after _
    ((hwatch.releaseEach before).release targetId "ttl_expired" nowMs) hrestored (.inr hreleased.cells)
  rw [releaseEach, List.foldl_append, List.foldl_cons]
  exact hbefore.then_released (hreleased.then_apart hafter)

end Expiry

/-! ## Quarantine and release -/

section Quarantine

variable {host : Host} {readings : List ℕ} {state during after : SwarmState}
  {targetId anomalyType reason thornId : String} {nowMs : ℕ}

/-- What a quarantine leaves that succeeds. -/
structure Behind (state during : SwarmState) (targetId thornId : String) (nowMs : ℕ)
    (target thorn : SessionMetadata) : Prop where
  targetAt : state.sessions[targetId]? = some target
  plain : target.thornCell = false
  fresh : state.sessions[thornId]? = none
  thornAt : during.sessions[thornId]? = some thorn
  expires : thorn.thornExpiresAtMs = some (addUpTo u64Max nowMs 60000)
  lives : during.lives = update (update state.lives targetId (some target.life.quarantine)) thornId
    (some (.opened targetId))
  entries : ∀ role, during.entries targetId role =
    (state.entries targetId role).map fun row => { row with healthy := false }

theorem quarantine_behind (h : quarantineIntoThorn host readings state targetId anomalyType reason nowMs =
    (.ok thornId, during)) : ∃ target thorn, Behind state during targetId thornId nowMs target thorn := by
  unfold quarantineIntoThorn at h
  dsimp only at h
  split at h
  · cases h
  · split at h
    · cases h
    · rename_i target htarget
      split at h
      · cases h
      · rename_i hplain
        split at h
        · cases h
        · split at h
          · cases h
          · rename_i thornId' hid
            obtain ⟨hthornId, rfl⟩ := Prod.mk.inj h
            obtain rfl := Except.ok.inj hthornId
            have hfresh := nextSessionId_fresh hid
            have hne : targetId ≠ thornId' := by
              rintro rfl
              rw [hfresh] at htarget
              cases htarget
            refine ⟨target, thornMetadata state targetId target anomalyType reason nowMs, htarget,
              by simpa using hplain, hfresh, ?_, rfl, ?_, ?_⟩
            · exact (SwarmState.getElem?_insertSession _ thornId' _ thornId').trans (if_pos rfl)
            · exact lives_behindThorn state thornId' rfl rfl
            · intro role
              rw [openThorn, SwarmState.entries_registerServiceInstance _ hne]
              change (setServiceHealth (state.insertSession targetId (quarantineSession thornId' reason
                anomalyType nowMs target)) targetId false).entries targetId role = _
              rw [SwarmState.entries_setServiceHealth, if_pos rfl]
              rfl

variable {target thorn : SessionMetadata}

theorem Behind.ne (h : Behind state during targetId thornId nowMs target thorn) : targetId ≠ thornId := by
  rintro rfl
  have htarget := h.targetAt
  rw [h.fresh] at htarget
  cases htarget

theorem Behind.target_life (h : Behind state during targetId thornId nowMs target thorn) :
    during.lives targetId = some target.life.quarantine := by
  rw [h.lives, Function.update_of_ne h.ne, Function.update_self]

/-- The thorn cells of the target are those it had and the new one. -/
theorem Behind.mem_cells (h : Behind state during targetId thornId nowMs target thorn) (x : String) :
    x ∈ thornIdsFor during targetId ↔ x = thornId ∨ x ∈ thornIdsFor state targetId := by
  rw [mem_thornIdsFor, mem_thornIdsFor, h.lives]
  by_cases hx : x = thornId
  · subst hx
    rw [Function.update_self]
    exact iff_of_true ⟨_, rfl, rfl, rfl, rfl⟩ (.inl rfl)
  · rw [Function.update_of_ne hx]
    by_cases hxt : x = targetId
    · subst hxt
      have hplain : target.life.thornCell = false := h.plain
      rw [Function.update_self, SwarmState.lives_eq_some h.targetAt]
      simp [hx, Life.IsThornFor, Life.quarantine, hplain]
    · rw [Function.update_of_ne hxt]
      simp [hx]

theorem Behind.oneCell_iff (h : Behind state during targetId thornId nowMs target thorn) :
    during.OneCell targetId ↔ thornIdsFor state targetId = [] := by
  constructor
  · intro hone
    refine List.eq_nil_iff_forall_not_mem.mpr fun x hx => ?_
    obtain rfl : x = thornId := hone x ((h.mem_cells x).mpr (.inr hx)) thornId
      ((h.mem_cells thornId).mpr (.inl rfl))
    obtain ⟨life, hlife, -⟩ := (mem_thornIdsFor state targetId x).mp hx
    rw [SwarmState.lives, h.fresh] at hlife
    cases hlife
  · intro hnil x hx y hy
    rw [h.mem_cells, hnil] at hx hy
    exact (hx.resolve_right List.not_mem_nil).trans (hy.resolve_right List.not_mem_nil).symm

/-- A list whose members are all marked as they are. -/
theorem map_healthy_eq_iff (rows : List ServiceInstance) :
    (rows.map fun row => { row with healthy := true }) = rows ↔ ∀ row ∈ rows, row.healthy = true := by
  have hmark (row : ServiceInstance) : { row with healthy := true } = row ↔ row.healthy = true := by
    cases row
    simp [eq_comm]
  conv_lhs => rw [← List.map_id rows, List.map_map]
  rw [List.map_inj_left]
  exact forall₂_congr fun row _ => hmark row

theorem Behind.undone_iff_quiet (h : Behind state during targetId thornId nowMs target thorn)
    (hreleased : Released during after targetId) :
    Undone state during after targetId ↔ Quiet state targetId := by
  have hlife := hreleased.life
  rw [h.target_life, Option.map_some] at hlife
  obtain ⟨target', htarget', hlife'⟩ := Option.map_eq_some_iff.mp hlife
  have hreachable : target'.reachable = true := congrArg Life.reachable hlife'
  have hstatus : target'.status = target.status := congrArg Life.status hlife'
  have hentries (role : String) : after.entries targetId role = state.entries targetId role ↔
      ∀ row ∈ state.entries targetId role, row.healthy = true := by
    rw [hreleased.entries, h.entries, List.map_map, ← map_healthy_eq_iff]
    rfl
  constructor
  · rintro ⟨⟨before, after', hbefore, hafter, hreach, -⟩, hsame, hone, -⟩
    refine ⟨fun session hsession => ?_, fun role => (hentries role).mp (hsame role),
      h.oneCell_iff.mp hone⟩
    rw [htarget'] at hafter
    cases hafter
    rw [Option.mem_def, hbefore] at hsession
    cases hsession
    exact hreach.symm.trans hreachable
  · rintro ⟨hreach, hhealthy, hnil⟩
    refine ⟨⟨target, target', h.targetAt, htarget', ?_, hstatus⟩, fun role => (hentries role).mpr (hhealthy role),
      h.oneCell_iff.mpr hnil, ?_⟩
    · exact hreachable.trans (hreach target h.targetAt).symm
    · intro x hx
      rw [hreleased.cells] at hx
      cases hx

theorem Behind.cells_ne_nil (h : Behind state during targetId thornId nowMs target thorn) :
    thornIdsFor during targetId ≠ [] :=
  List.ne_nil_of_mem ((h.mem_cells thornId).mpr (.inl rfl))

theorem Behind.expired (h : Behind state during targetId thornId nowMs target thorn) {laterMs : ℕ}
    (hlater : addUpTo u64Max nowMs 60000 ≤ laterMs) :
    targetId ∈ expiredThornTargets during laterMs := by
  have hlife : during.lives thornId = some (.opened targetId) := by rw [h.lives, Function.update_self]
  rw [SwarmState.lives_eq_some h.thornAt] at hlife
  have hopened : thorn.life = .opened targetId := Option.some.inj hlife
  have hcell : thorn.thornCell = true := congrArg Life.thornCell hopened
  have hstatus : thorn.status = .thornActive := congrArg Life.status hopened
  have hfor : thorn.thornTargetSessionId = some targetId := congrArg Life.thornTargetSessionId hopened
  refine List.mem_filterMap.mpr ⟨(thornId, thorn), List.mem_filter.mpr ⟨?_, ?_⟩, hfor⟩
  · exact ExtTreeMap.mem_toList_iff_getElem?_eq_some.mpr h.thornAt
  · simp [hcell, hstatus, h.expires, hlater]

end Quarantine

/-- **What a quarantine and a release come to.**  They leave the target and its service entries as they
were, with never a second thorn cell, exactly where the target could be reached, all its entries were
healthy and it had no active thorn cell before: whether it is released by name or its thorn cell expires,
among any other expired ones.  The latter needs every thorn cell to be for a session, as it is in every
state of every run. -/
theorem undone_iff (host : Host) (readings : List ℕ) (state during : SwarmState)
    (targetId anomalyType reason thornId : String) (nowMs : ℕ)
    (h : quarantineIntoThorn host readings state targetId anomalyType reason nowMs =
      (.ok thornId, during)) :
    (∀ why laterMs, Undone state during (releaseThornCellsForTarget during targetId why laterMs).2
      targetId ↔ Quiet state targetId) ∧
    (state.CellsWatch → ∀ readings laterMs, addUpTo u64Max nowMs 60000 ≤ laterMs →
      (Undone state during (expire host readings during laterMs) targetId ↔ Quiet state targetId)) ∧
    ∀ requests n, (Runs.before (step host) {} requests n).CellsWatch := by
  obtain ⟨target, thorn, hbehind⟩ := quarantine_behind h
  have hplain : target.life.quarantine.thornCell = false := hbehind.plain
  refine ⟨fun why laterMs => ?_, fun hwatch readings' laterMs hlater => ?_, cellsWatch_before host⟩
  · exact hbehind.undone_iff_quiet (released hbehind.target_life hplain hbehind.cells_ne_nil)
  · have hduring : during.CellsWatch := by
      have hexec := hwatch.exec host readings (.quarantine targetId anomalyType reason nowMs)
      have hleft : (exec host readings (.quarantine targetId anomalyType reason nowMs) state).2 =
          during := congrArg Prod.snd h
      rwa [hleft] at hexec
    rw [expire_eq]
    exact hbehind.undone_iff_quiet (released_releaseEach hduring hbehind.target_life hplain
      hbehind.cells_ne_nil (hbehind.expired hlater))

/-! ### Two quarantined watches -/

/-- A watch that has just been spawned, within reach or not. -/
def spawnedWatch (simulateUnreachable : Bool) : SwarmState :=
  step watchHost {} ((Command.spawn none "watch" false 8 none
    { simulateUnreachable, role := some "watch" }).at 1)

def watchBehind (simulateUnreachable : Bool) : SwarmState :=
  (quarantineIntoThorn watchHost [2] (spawnedWatch simulateUnreachable) watchId "anomaly" "drill" 2).2

theorem quarantine_watch (simulateUnreachable : Bool) :
    quarantineIntoThorn watchHost [2] (spawnedWatch simulateUnreachable) watchId "anomaly" "drill" 2 =
      (.ok "swarm-b67870486b4d", watchBehind simulateUnreachable) := by
  have hanswer : (quarantineIntoThorn watchHost [2] (spawnedWatch simulateUnreachable) watchId "anomaly"
      "drill" 2).1.toOption = some "swarm-b67870486b4d" := by
    revert simulateUnreachable
    decide
  refine Prod.ext ?_ rfl
  cases hresult : (quarantineIntoThorn watchHost [2] (spawnedWatch simulateUnreachable) watchId "anomaly"
      "drill" 2).1 with
  | error stop =>
    rw [hresult] at hanswer
    cases hanswer
  | ok thornId =>
    rw [hresult] at hanswer
    exact congrArg Except.ok (Option.some.inj hanswer)

theorem quiet_watch : Quiet (spawnedWatch false) watchId := by
  have hrows : ((spawnedWatch false).serviceRegistry.toList.all fun entry =>
      entry.2.all (·.healthy)) = true := by
    decide
  refine ⟨by decide, fun role row hrow => ?_, by decide⟩
  obtain ⟨hmem, -⟩ := List.mem_filter.mp hrow
  cases hentry : (spawnedWatch false).serviceRegistry[role]? with
  | none => simp [hentry] at hmem
  | some rows =>
    rw [hentry, Option.getD_some] at hmem
    exact List.all_eq_true.mp (List.all_eq_true.mp hrows (role, rows)
      (ExtTreeMap.mem_toList_iff_getElem?_eq_some.mpr hentry)) row hmem

theorem watch_undone : Undone (spawnedWatch false) (watchBehind false)
    (releaseThornCellsForTarget (watchBehind false) watchId "threat_removed" 3).2 watchId :=
  ((undone_iff watchHost [2] (spawnedWatch false) (watchBehind false) watchId "anomaly" "drill"
    "swarm-b67870486b4d" 2 (quarantine_watch false)).1 "threat_removed" 3).mpr quiet_watch

/-- A session out of reach is quarantined and released, and then it can be reached. -/
theorem unreachable_watch_released :
    quarantineIntoThorn watchHost [2] (spawnedWatch true) watchId "anomaly" "drill" 2 =
        (.ok "swarm-b67870486b4d", watchBehind true) ∧
      ¬Undone (spawnedWatch true) (watchBehind true)
        (releaseThornCellsForTarget (watchBehind true) watchId "threat_removed" 3).2 watchId := by
  refine ⟨quarantine_watch true, fun hundone => ?_⟩
  have hbefore : (spawnedWatch true).sessions[watchId]?.map (·.reachable) = some false := by
    decide
  have hafter : (releaseThornCellsForTarget (watchBehind true) watchId "threat_removed"
      3).2.sessions[watchId]?.map (·.reachable) = some true := by
    decide
  obtain ⟨target, target', htarget, htarget', hsame, -⟩ := hundone.session
  rw [htarget] at hbefore
  rw [htarget'] at hafter
  have hunreachable : target.reachable = false := Option.some.inj hbefore
  have hreachable : target'.reachable = true := Option.some.inj hafter
  rw [hunreachable, hreachable] at hsame
  cases hsame

end Protheus.Swarm
