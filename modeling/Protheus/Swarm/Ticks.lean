import Protheus.Swarm.Lives

/-!
Every request ticks active sessions alone (`request_ticks_active`).

`tick_persistent_sessions` collects the active sessions and then ticks one after the
other.  A tick leaves the others as they are, and the loop over one session stops when
the session is no longer active.
-/

namespace Protheus.Swarm

open Std (ExtTreeMap)
open Program Script
open RustStd (u64Max addUpTo)

/-- The session is one that `tick_persistent_sessions` looks at. -/
def SwarmState.Active (state : SwarmState) (id : String) : Prop :=
  ∃ life, state.lives id = some life ∧ life.status.isActive = true

/-- If the operation is a tick, then it is one of an active session. -/
def TicksActive (_ : Host) (_ : List ℕ) (state : SwarmState) (op : Op) : Prop :=
  ∀ nowMs id, op = .tickRound nowMs id → state.Active id

variable {host : Host} {readings : List ℕ}

def Op.isTick : Op → Bool
  | .tickRound .. => true
  | _ => false

/-! ## The tick -/

theorem mem_persistentSessionIds {state : SwarmState} {id : String}
    (h : id ∈ persistentSessionIds state) : state.Active id := by
  obtain ⟨⟨id, session⟩, hmem, rfl⟩ := List.mem_map.mp h
  obtain ⟨hmem, hactive⟩ := List.mem_filter.mp hmem
  rw [ExtTreeMap.mem_toList_iff_getElem?_eq_some] at hmem
  rw [Bool.and_eq_true] at hactive
  exact ⟨session.life, SwarmState.lives_eq_some hmem, hactive.2⟩

theorem nodup_persistentSessionIds (state : SwarmState) : (persistentSessionIds state).Nodup := by
  have hkeys : (state.sessions.toList.map Prod.fst).Nodup := by
    rw [ExtTreeMap.map_fst_toList_eq_keys]
    exact ExtTreeMap.nodup_keys
  exact (List.filter_sublist.map Prod.fst).nodup hkeys

theorem active_tickRound {state : SwarmState} {nowMs : ℕ} {id x : String} (hx : x ≠ id)
    (h : state.Active x) : (tickRound state nowMs id).2.Active x := by
  obtain ⟨life, hlife, hactive⟩ := h
  have hstep := @tickRound_step state id nowMs x
  rw [hlife] at hstep
  generalize hafter : (tickRound state nowMs id).2.lives x = after at hstep
  cases hstep with
  | kept _ _ hchange =>
    cases hchange with
    | same => exact ⟨life, hafter, hactive⟩
    | refused hchecks => cases hchecks; exact absurd rfl hx
    | finished hchecks => cases hchecks; exact absurd rfl hx
    | resumed _ hop | recovered _ hop | quarantined _ _ _ hop | destroyed _ _ _ hop
    | restored _ _ hop | shutDown hop => cases hop

/-- An interval check-in that succeeds leaves the session active. -/
theorem active_tickRound_self {state : SwarmState} {nowMs : ℕ} {id answer : String}
    (hdue : tickDue state nowMs id = some false) (hok : (tickRound state nowMs id).1 = .ok answer)
    (h : state.Active id) : (tickRound state nowMs id).2.Active id := by
  obtain ⟨life, hlife, hactive⟩ := h
  obtain ⟨session, hsession, rfl⟩ := Option.map_eq_some_iff.mp hlife
  have hpersistent : session.persistent.isSome = true := by
    unfold tickDue at hdue
    rw [hsession, Option.bind_some] at hdue
    cases hp : session.persistent with
    | none => simp [hp] at hdue
    | some runtime => rfl
  unfold tickRound at hok ⊢
  rw [hsession, hdue] at hok ⊢
  dsimp only at hok ⊢
  cases hcheck : performPersistentCheckIn session with
  | mk result charged =>
    have hcharged := performPersistentCheckIn_life hpersistent hcheck
    rw [hcheck] at hok
    cases result with
    | error reason => cases hok
    | ok =>
      refine ⟨(charged.reschedule nowMs).life, ?_, ?_⟩
      · dsimp only
        rw [if_neg (by decide), SwarmState.lives_insertSession, Function.update_self]
      · have hstatus : charged.life.status = session.life.status := congrArg Life.status hcharged
        exact hstatus ▸ hactive

def ToTick (ids : List String) (state : SwarmState) : Prop :=
  ids.Nodup ∧ ∀ id ∈ ids, state.Active id

theorem safe_tickSession (nowMs maxCheckIns : ℕ) (id : String) (ids : List String) :
    Safe (TicksActive host readings) (ToTick (id :: ids))
      (@tickSession host readings nowMs maxCheckIns id) fun _ => ToTick ids := by
  have htail (state : SwarmState) (h : ToTick (id :: ids) state) : ToTick ids state :=
    ⟨(List.nodup_cons.mp h.1).2, fun x hx => h.2 x (List.mem_cons_of_mem id hx)⟩
  refine Safe.rounds (Safe.bind Safe.get fun state => ?_) htail _
  cases hdue : tickDue state nowMs id with
  | none =>
    refine Safe.pure false fun s hs => ?_
    obtain ⟨rfl, hs⟩ := hs
    exact htail s hs
  | some finalize =>
    have hround : Safe (TicksActive host readings) (fun s => s = state ∧ ToTick (id :: ids) s)
        (@perform host readings (.tickRound nowMs id))
        fun _ s => if finalize then ToTick ids s else ToTick (id :: ids) s := by
      refine Safe.bind (Safe.call (fun s hs nowMs' id' hop => ?_) fun s hs answer hanswer => ?_)
        fun _ => Safe.pure _ fun s hs => hs
      · cases hop
        obtain ⟨rfl, -, hactive⟩ := hs
        exact hactive id List.mem_cons_self
      · obtain ⟨rfl, hnodup, hactive⟩ := hs
        have hothers : ToTick ids (tickRound s nowMs id).2 := by
          refine ⟨(List.nodup_cons.mp hnodup).2, fun x hx => active_tickRound ?_ ?_⟩
          · rintro rfl
            exact (List.nodup_cons.mp hnodup).1 hx
          · exact hactive x (List.mem_cons_of_mem id hx)
        cases finalize with
        | true => exact hothers
        | false =>
          have hok : ∃ answer, (tickRound s nowMs id).1 = .ok answer := by
            cases h : (tickRound s nowMs id).1 with
            | ok answer => exact ⟨answer, rfl⟩
            | error stop => simp [exec, h, Except.map] at hanswer
          obtain ⟨answer, hok⟩ := hok
          refine ⟨hnodup, fun x hx => ?_⟩
          rcases List.mem_cons.mp hx with rfl | hx
          · exact active_tickRound_self hdue hok (hactive x List.mem_cons_self)
          · exact hothers.2 x hx
    exact Safe.bind hround fun _ => Safe.pure _ fun s hs => by cases finalize <;> exact hs

theorem safe_tickPersistentSessions (nowMs maxCheckIns : ℕ) :
    Safe (TicksActive host readings) (fun _ => True)
      (@tickPersistentSessions host readings nowMs maxCheckIns) fun _ _ => True := by
  refine Safe.bind Safe.get fun state => ?_
  have hloop := @Safe.forEach _ _ _ _ _ (TicksActive host readings) _ _ ToTick
    (safe_tickSession nowMs maxCheckIns) (persistentSessionIds state)
  refine hloop.weaken ?_ fun _ _ _ => trivial
  rintro s ⟨rfl, -⟩
  exact ⟨nodup_persistentSessionIds s, fun id hid => mem_persistentSessionIds hid⟩

/-! ## The other programs tick nothing -/

namespace Script

abbrev Tickless {α : Type} (m : Script host readings α) : Prop := Makes (fun op => op.isTick = false) m

theorem tickless_perform {op : Op} (h : op.isTick = false) : Tickless (@perform host readings op) :=
  .bind (.call h) fun _ => .pure _

theorem tickless_callName {op : Op} (h : op.isTick = false) : Tickless (@callName host readings op) := by
  refine .bind (.call h) fun answer => ?_
  cases answer <;> exact .pure _

theorem tickless_fail {α : Type} (text : String) : Tickless (fail text : Script host readings α) :=
  .throw _

theorem tickless_flag (text : String) (raw : Option String) :
    Tickless (@flag host readings text raw) :=
  .ofOption _ _

theorem tickless_ofExcept {α : Type} (a : Except String α) :
    Tickless (ofExcept a : Script host readings α) := by
  cases a with
  | ok a => exact .pure a
  | error text => exact .throw _

theorem tickless_spawnLineage (task : String) (maxDepth : ℕ) (options : SpawnOptions) :
    ∀ (levels : ℕ) (parentId : Option String),
      Tickless (@spawnLineage host readings task maxDepth options parentId levels)
  | 0, _ => .pure ()
  | levels + 1, _ => .bind (tickless_callName rfl) fun child =>
      tickless_spawnLineage task maxDepth options levels (some child)

theorem tickless_spawn (parentId : Option String) (task : String) (recursive : Bool)
    (levels maxDepth : ℕ) (options : SpawnOptions) (nowMs : ℕ) :
    Tickless (@spawn host readings parentId task recursive levels maxDepth options nowMs) := by
  unfold spawn
  split
  · exact tickless_spawnLineage task maxDepth options levels parentId
  · exact tickless_fail _
  · exact tickless_perform rfl
  · exact tickless_perform rfl
  · exact tickless_perform rfl

theorem tickless_backgroundStop (sessionId : Option String) (graceful : Bool) (nowMs : ℕ) :
    Tickless (@backgroundStop host readings sessionId graceful nowMs) := by
  unfold backgroundStop
  split
  · exact tickless_perform rfl
  · exact .bind .get fun state => .forEach (fun id => tickless_perform rfl) _

theorem tickless_scheduledRunDue (nowMs maxRuns : ℕ) :
    Tickless (@scheduledRunDue host readings nowMs maxRuns) := by
  refine .bind .get fun state => .forEach (fun taskId => .bind .get fun state => ?_) _
  split
  · exact .pure ()
  · exact .bind (tickless_callName rfl) fun id => tickless_perform rfl

theorem tickless_registerHandoff (sender recipient reason : String) (importance : Option ℚ)
    (contextOverride : Option Json) (networkId : Option String) (nowMs : ℕ) :
    Tickless (@registerHandoff host readings sender recipient reason importance contextOverride
      networkId nowMs) := by
  refine .bind .get fun state => .bind (.ofOption _ _) fun session => ?_
  refine .bind (.require _ _) fun _ => .bind (.require _ _) fun _ => ?_
  exact .bind (tickless_perform rfl) fun _ => tickless_perform rfl

theorem tickless_registerJsonSchemaTool (sessionId toolName : String) (schema : Json)
    (bridgePath entrypoint : String) :
    Tickless (@registerJsonSchemaTool host readings sessionId toolName schema bridgePath
      entrypoint) := by
  refine .bind .get fun state => .bind (.require _ _) fun _ => .bind (.require _ _) fun _ => ?_
  refine .bind (tickless_ofExcept _) fun safePath => ?_
  exact .bind (.require _ _) fun _ => .bind (.require _ _) fun _ => tickless_perform rfl

theorem tickless_invokeRegisteredTool (sessionId toolName : String) (args : Json) (nowMs : ℕ) :
    Tickless (@invokeRegisteredTool host readings sessionId toolName args nowMs) := by
  refine .bind .get fun state => .bind (.require _ _) fun _ => ?_
  refine .bind (.ofOption _ _) fun manifest => .bind (tickless_ofExcept _) fun safePath => ?_
  refine .bind (.require _ _) fun _ => ?_
  dsimp only
  split
  · refine .bind (.ofOption _ _) fun target => .bind (.ofOption _ _) fun message => ?_
    exact .bind (tickless_perform rfl) fun _ => tickless_perform rfl
  · split
    · exact .bind (.require _ _) fun _ => tickless_perform rfl
    · split
      · refine .bind (.ofOption _ _) fun target => ?_
        exact .bind (tickless_registerHandoff ..) fun _ => tickless_perform rfl
      · split
        · exact .bind (tickless_perform rfl) fun _ => tickless_perform rfl
        · exact tickless_fail _

theorem tickless_publishChannelMessage (channelId sender payload : String)
    (delivery : DeliveryGuarantee) (nowMs : ℕ) :
    Tickless (@publishChannelMessage host readings channelId sender payload delivery nowMs) := by
  refine .bind .get fun state => .bind (.require _ _) fun _ => .bind (.ofOption _ _) fun names => ?_
  exact .forEach (fun participant => tickless_perform rfl) _

theorem tickless_sendToRole (sender role payload : String) (delivery : DeliveryGuarantee)
    (nowMs : ℕ) : Tickless (@sendToRole host readings sender role payload delivery nowMs) :=
  .bind .get fun _ => .bind (.ofOption _ _) fun _ => tickless_perform rfl

theorem tickless_executeTurn (sessionId : String) (turn : Json) (nowMs : ℕ) :
    Tickless (@executeTurn host readings sessionId turn nowMs) := by
  unfold executeTurn
  generalize (if turn.isObject then turn else Json.ofFields [("message", turn)]) = raw
  dsimp only
  split
  on_goal 1 => refine .bind (tickless_perform rfl) fun _ => ?_
  all_goals
    split
    · exact .pure false
    · split
      · exact .bind (tickless_invokeRegisteredTool ..) fun _ => .pure true
      · exact .pure true

theorem tickless_turnLoop (sessionId : String) (nowMs : ℕ) (turns : List Json) :
    Tickless (@turnLoop host readings sessionId nowMs turns) := by
  induction turns with
  | nil => exact .pure ()
  | cons turn rest ih =>
    refine .bind (tickless_executeTurn sessionId turn nowMs) fun more => ?_
    split
    · exact ih
    · exact .pure ()

theorem tickless_executeTurns (sessionId : String) (turns : List Json) (nowMs : ℕ) :
    Tickless (@executeTurns host readings sessionId turns nowMs) := by
  refine .bind .get fun state => .bind (.require _ _) fun _ => .bind (.require _ _) fun _ => ?_
  exact tickless_turnLoop sessionId nowMs turns

theorem tickless_spawnNodes (ownerSessionId : Option String) (nodes : List Json) :
    Tickless (@spawnNodes host readings ownerSessionId nodes) := by
  induction nodes with
  | nil => exact .pure _
  | cons node rest ih =>
    refine .bind (.require _ _) fun _ => .bind (tickless_callName rfl) fun id => ?_
    dsimp only
    split
    · exact .bind (tickless_perform rfl) fun _ => .bind ih fun _ => .pure _
    · exact .bind ih fun _ => .pure _

theorem tickless_networkEdge (labels : List (String × String)) (networkId : String) (nowMs : ℕ)
    (edge : Json) : Tickless (@networkEdge host readings labels networkId nowMs edge) := by
  refine .bind (.require _ _) fun _ => .bind (.ofOption _ _) fun fromKey => ?_
  refine .bind (.ofOption _ _) fun toKey => ?_
  split
  · exact tickless_registerHandoff ..
  · exact .pure ()

theorem tickless_createAgentNetwork (ownerSessionId : Option String) (spec : Json) (nowMs : ℕ) :
    Tickless (@createAgentNetwork host readings ownerSessionId spec nowMs) := by
  refine .bind (.require _ _) fun _ => .bind (.require _ _) fun _ => ?_
  refine .bind (tickless_spawnNodes ownerSessionId _) fun nodes => ?_
  exact .bind (tickless_perform rfl) fun _ => .forEach (tickless_networkEdge _ _ nowMs) _

end Script

/-! ## Requests -/

theorem safe_of_tickless {α : Type} {m : Script host readings α} (h : Tickless m)
    {pre : SwarmState → Prop} : Safe (TicksActive host readings) pre m fun _ _ => True := by
  refine Safe.of_makes ⟨fun s op hop state nowMs id htick => ?_⟩
  have hno := h.calls s op hop
  rw [htick] at hno
  cases hno

theorem tickless_command (nowMs : ℕ) (cmd : Command) (h : cmd.isTick = false) :
    Tickless (@command host readings nowMs cmd) := by
  cases cmd with
  | tick => cases h
  | spawn => exact tickless_spawn ..
  | sessionsWake | sessionsResume | sessionsTerminate | sessionsReceive | sessionsRetryDeadLetter =>
    exact .bind (tickless_flag _ _) fun _ => tickless_perform rfl
  | sessionsAck | sessionsSend =>
    exact .bind (tickless_flag _ _) fun _ => .bind (tickless_flag _ _) fun _ => tickless_perform rfl
  | sessionsHandoff =>
    refine .bind (tickless_flag _ _) fun sender => .bind (tickless_flag _ _) fun recipient => ?_
    exact .bind (tickless_flag _ _) fun reason => tickless_registerHandoff ..
  | sessionsContextPut =>
    exact .bind (tickless_flag _ _) fun id => .bind (.ofOption _ _) fun _ => tickless_perform rfl
  | sessionsSendRole =>
    exact .bind (tickless_flag _ _) fun role => .bind (tickless_flag _ _) fun message =>
      tickless_sendToRole ..
  | toolsRegister =>
    refine .bind (tickless_flag _ _) fun id => .bind (tickless_flag _ _) fun toolName => ?_
    refine .bind (.ofOption _ _) fun schema => .bind (tickless_flag _ _) fun bridgePath => ?_
    exact .bind (tickless_flag _ _) fun entrypoint => tickless_registerJsonSchemaTool ..
  | toolsInvoke =>
    exact .bind (tickless_flag _ _) fun id => .bind (tickless_flag _ _) fun toolName =>
      tickless_invokeRegisteredTool ..
  | turnsRun => exact .bind (tickless_flag _ _) fun id => tickless_executeTurns ..
  | networksCreate => exact .bind (.ofOption _ _) fun spec => tickless_createAgentNetwork ..
  | channelsCreate | scheduledAdd | byzantineTest | backgroundStart => exact tickless_perform rfl
  | channelsPublish =>
    exact .bind (tickless_flag _ _) fun channelId => .bind (tickless_flag _ _) fun message =>
      tickless_publishChannelMessage ..
  | backgroundStop => exact tickless_backgroundStop ..
  | scheduledRunDue => exact tickless_scheduledRunDue ..
  | thornQuarantine | thornRelease =>
    exact .bind (tickless_flag _ _) fun _ => tickless_perform rfl
  | report => exact .pure ()

theorem safe_command (nowMs : ℕ) (cmd : Command) :
    Safe (TicksActive host readings) (fun _ => True) (@command host readings nowMs cmd)
      fun _ _ => True := by
  cases h : cmd.isTick with
  | false => exact safe_of_tickless (tickless_command nowMs cmd h)
  | true =>
    cases cmd with
    | tick => exact safe_tickPersistentSessions _ _
    | _ => cases h

theorem tickless_drainExpiredThornCells (nowMs : ℕ) :
    Tickless (@drainExpiredThornCells host readings nowMs) :=
  .bind .get fun _ => .forEach (fun _ => .attempt (tickless_perform rfl)) _

theorem safe_autoTickStep (nowMs maxCheckIns : ℕ) :
    Safe (TicksActive host readings) (fun _ => True)
      (@autoTickStep host readings nowMs maxCheckIns) fun _ _ => True := by
  refine Safe.bind Safe.get fun state => ?_
  split
  · exact Safe.pure () fun _ _ => trivial
  · exact (safe_tickPersistentSessions _ _).attempt.weaken (fun _ _ => trivial) fun _ _ _ => trivial

/-- **Requests tick active sessions alone.** -/
theorem request_ticks_active (host : Host) (state : SwarmState) (request : Request) :
    Heeds host TicksActive state request := by
  have hscript : Safe (TicksActive host request.readings) (fun _ => True)
      (@Request.script host request) fun _ _ => True := by
    unfold Request.script
    split
    case h_1 cmd autoTick autoMaxCheckIns hentry =>
      refine Safe.bind (safe_of_tickless (tickless_perform rfl)) fun _ => ?_
      refine Safe.bind (safe_of_tickless (tickless_perform rfl)) fun _ => ?_
      refine Safe.bind (safe_of_tickless (tickless_drainExpiredThornCells _)) fun _ => ?_
      dsimp only
      split
      · exact Safe.bind (safe_autoTickStep _ _) fun _ => safe_command _ cmd
      · exact safe_command _ cmd
    case h_2 cmd hentry =>
      refine Safe.bind (safe_of_tickless (tickless_perform rfl)) fun _ => ?_
      refine Safe.bind (safe_of_tickless (tickless_drainExpiredThornCells _)) fun _ => ?_
      exact Safe.bind (safe_of_tickless (.require _ _)) fun _ => safe_command _ cmd
    case h_3 => exact safe_of_tickless (tickless_perform rfl)
  exact (hscript state trivial).1

end Protheus.Swarm
