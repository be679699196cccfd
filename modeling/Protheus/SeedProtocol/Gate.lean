import Protheus.Directive.Decisions
import Protheus.SeedProtocol.Commands

/-!
What a denying rule does to the seed commands.

A rule that denies the action of a command closes the gate for that action only.  The
gate also opens for `seed:*` and for `seed`, and the one of `enforce` for the operation
alone, and a rule that denies the longer action need not match these.  So a denial is
honoured exactly when the vault permits none of them (`denial_honoured_iff`).
-/

namespace Protheus.SeedProtocol

open V8Kernel Directive

/-- The rules of a vault let an action through. -/
def Permits (vault : Json) (action : String) : Prop :=
  Grants vault action ∧ ¬ Applies vault "deny" action

/-- The other actions the gate of a command opens for. -/
def widerActions (request : Request) : Command → List String
  | .enforce => ["seed:" ++ enforcedOperation request, "seed:*", "seed"]
  | _ => ["seed:*", "seed"]

/-- A command is turned away at the gate and writes nothing. -/
def Refused (files : Files) (outcome : Outcome) : Prop :=
  outcome.answer.get? "error" = some (.str "directive_gate_denied") ∧ outcome.files = files

/-- `enforce` does not allow the operation and puts the node in quarantine. -/
def Quarantined (request : Request) (outcome : Outcome) : Prop :=
  outcome.answer.get? "allowed" = some (.bool false) ∧
    ∃ state row, outcome.files.seedState = some state ∧
      (objMut state "quarantine").get? (enforcedNode request) = some row ∧
      row.get? "reason" = some (.str "directive_gate_denied")

/-- What a denial asks of a command. -/
def Honours (files : Files) (request : Request) (outcome : Outcome) : Command → Prop
  | .enforce => Quarantined request outcome
  | _ => Refused files outcome

def commandGate (host : Host) (world : World) (request : Request) : Command → Bool
  | .enforce => enforceGate host world request
  | command => gateAllowed host world (gateAction request command)

section Gate

variable {host : Host} {world : World} {files : Files} {request : Request} {command : Command}

theorem actionAllowed_iff (hok : (directiveVaultIntegrity host.toHost world.key world.vault).ok = true)
    (action : String) : actionAllowed host world action = true ↔ Permits world.vault action :=
  allowed_iff_grants hok

theorem gateAllowed_iff (hok : (directiveVaultIntegrity host.toHost world.key world.vault).ok = true)
    (action : String) : gateAllowed host world action = true ↔
      Permits world.vault action ∨ ∃ wider ∈ ["seed:*", "seed"], Permits world.vault wider := by
  rw [gateAllowed, Bool.or_eq_true, Bool.or_eq_true, actionAllowed_iff hok, actionAllowed_iff hok,
    actionAllowed_iff hok, List.exists_mem_cons_iff, List.exists_mem_cons_iff, or_assoc]
  simp only [List.not_mem_nil, false_and, exists_false, or_false]

theorem commandGate_iff (hok : (directiveVaultIntegrity host.toHost world.key world.vault).ok = true) :
    commandGate host world request command = true ↔
      Permits world.vault (gateAction request command) ∨
        ∃ wider ∈ widerActions request command, Permits world.vault wider := by
  cases command with
  | enforce =>
    -- both gates of `enforce` open for the wider actions
    rw [commandGate, enforceGate, Bool.or_eq_true, gateAllowed_iff hok, gateAllowed_iff hok,
      ← or_or_distrib_right, or_assoc, widerActions]
    exact or_congr_right (List.exists_mem_cons_iff ..).symm
  | deploy | migrate | select | archive | defend => apply gateAllowed_iff hok

/-- A denied action leaves the gate to the wider ones. -/
theorem commandGate_of_denied (hok : (directiveVaultIntegrity host.toHost world.key world.vault).ok = true)
    (hdeny : Applies world.vault "deny" (gateAction request command)) :
    commandGate host world request command = true ↔
      ∃ wider ∈ widerActions request command, Permits world.vault wider := by
  rw [commandGate_iff hok, or_iff_right]
  exact fun hpermits => hpermits.2 hdeny

/-! ## The commands -/

theorem get?_deniedAnswer (type : String) :
    (deniedAnswer type request command).get? "error" = some (.str "directive_gate_denied") :=
  Json.get?_ofFields_mem (by simp) (by simp)

/-- A gated command that applies is refused exactly when its gate is closed. -/
theorem refused_gated_iff {type : String} {body : Outcome} (happly : applyFlag request = true)
    (hbody : body.answer.get? "error" = none) :
    Refused files (gated host world type files request command body) ↔
      gateAllowed host world (gateAction request command) = false := by
  rw [gated, happly, Bool.true_and]
  cases hgate : gateAllowed host world (gateAction request command) with
  | false =>
    rw [Bool.not_false, if_pos rfl]
    exact iff_of_true ⟨get?_deniedAnswer type, rfl⟩ rfl
  | true =>
    rw [Bool.not_true, if_neg Bool.false_ne_true]
    refine iff_of_false (fun h => ?_) nofun
    rw [Refused, hbody] at h
    cases h.1

theorem isObject_openState (createdMs : ℕ) : (openState host files createdMs).isObject = true := by
  rw [openState, stateObjMut]
  split
  · assumption
  · exact Json.isObject_ofFields

theorem isObject_objMut (obj : Json) (key : String) : (objMut obj key).isObject = true := by
  rw [objMut]
  split <;> rfl

theorem objMut_setField_same {obj value : Json} {key : String} (hobj : obj.isObject = true)
    (hvalue : value.isObject = true) : objMut (obj.setField key value) key = value := by
  rw [objMut, Json.get?_setField_same hobj]
  cases value with
  | obj fields => rfl
  | null | bool _ | num _ | str _ | arr _ => cases hvalue

theorem get?_quarantineNode {obj row : Json} {node : String} (hobj : obj.isObject = true) :
    (objMut (quarantineNode obj node row) "quarantine").get? node = some row := by
  have hmap := isObject_objMut obj "quarantine"
  rw [quarantineNode, objMut_setField_same hobj (Json.isObject_setField.trans hmap),
    Json.get?_setField_same hmap]

/-- `enforce` quarantines exactly when its gate is closed. -/
theorem quarantined_iff (happly : applyFlag request = true) :
    Quarantined request (commandEnforce host world files request) ↔
      enforceGate host world request = false := by
  have hallowed : (commandEnforce host world files request).answer.get? "allowed" =
      some (.bool (enforceGate host world request)) :=
    Json.get?_ofFields_mem (by simp) (by simp)
  constructor
  · rintro ⟨h, -⟩
    rw [hallowed] at h
    injection h with h
    injection h
  · intro hgate
    refine ⟨hallowed.trans (by rw [hgate]), enforcedState host world files request,
      deniedRow host request, ?_, ?_, ?_⟩
    · simp only [commandEnforce, happly, if_true]
    · rw [enforcedState, hgate, if_neg Bool.false_ne_true]
      apply get?_quarantineNode
      rw [incCounter, incCounter, Json.isObject_setField, Json.isObject_setField]
      exact isObject_openState _
    · exact Json.get?_ofFields_mem (by simp) (by simp)

/-- **What a closed gate does.**  A command that applies honours a denial exactly when its
gate is closed. -/
theorem honours_iff (happly : applyFlag request = true) :
    Honours files request (run host world files request command) command ↔
      commandGate host world request command = false := by
  cases command with
  | enforce => exact quarantined_iff happly
  | deploy => exact refused_gated_iff happly (Json.get?_ofFields_of_notMem (by simp))
  | migrate => exact refused_gated_iff happly (Json.get?_ofFields_of_notMem (by simp))
  | select => exact refused_gated_iff happly (Json.get?_ofFields_of_notMem (by simp))
  | archive => exact refused_gated_iff happly (Json.get?_ofFields_of_notMem (by simp))
  | defend => exact refused_gated_iff happly (Json.get?_ofFields_of_notMem (by simp))

end Gate

/-- **Denials.**  Where an intact vault denies the action of a command that applies, the
command is refused (`enforce`: the node is quarantined) exactly when the vault permits
neither `seed:*` nor `seed` (nor, for `enforce`, the operation without a profile). -/
theorem denial_honoured_iff (host : Host) (world : World) (files : Files) (request : Request)
    (command : Command)
    (hok : (directiveVaultIntegrity host.toHost world.key world.vault).ok = true)
    (hdeny : Applies world.vault "deny" (gateAction request command))
    (happly : applyFlag request = true) :
    Honours files request (run host world files request command) command ↔
      ¬ ∃ wider ∈ widerActions request command, Permits world.vault wider := by
  rw [honours_iff happly, ← commandGate_of_denied hok hdeny, Bool.not_eq_true]

/-! ## An allowance beside a denial -/

/-- A host for concrete runs. -/
def seedHost : Host where
  toHost := plainHost
  parseF64 _ := none
  round := .finite

/-- Somebody signs a directive. -/
def sign (directive : String) : Directive.Request where
  command := .primeSign (some directive) (some "tester") false
  readings _ := ⟨0, 0, 0⟩

def signed (directive : String) : Append where
  bucket := "prime"
  directiveText := directive
  signer := "tester"
  source := "operator_sign"

/-- A vault in which one profile's deployments are denied and all seed commands allowed. -/
def mixedVault : Json :=
  step plainHost "seed-test-sign-key"
    (step plainHost "seed-test-sign-key" (defaultVault plainHost 0) (sign "deny:seed:deploy:viral"))
    (sign "allow:seed:*")

theorem appendsOf_sign (vault : Json) (directive : String) :
    appendsOf "seed-test-sign-key" vault (sign directive).command = [signed directive] := by
  have hpresent : signingKeyPresent "seed-test-sign-key" = true := by decide
  simp only [appendsOf, sign, hpresent, Bool.not_true, Bool.and_false, Bool.false_eq_true, if_false,
    Option.getD_some, signed]

theorem holds_mixedVault : Holds plainHost "seed-test-sign-key" mixedVault
    [signed "deny:seed:deploy:viral", signed "allow:seed:*"] := by
  have hstart : Holds plainHost "seed-test-sign-key" (defaultVault plainHost 0) [] :=
    holds_defaultVault 0
  have hdeny := hstart.step plainHost_ideal (sign "deny:seed:deploy:viral") trivial (by
    rw [appendsOf_sign]
    decide)
  rw [appendsOf_sign] at hdeny
  have hallow := hdeny.step plainHost_ideal (sign "allow:seed:*") trivial (by
    rw [appendsOf_sign]
    decide)
  rwa [appendsOf_sign] at hallow

/-- Somebody deploys with that profile. -/
def viralDeployment : Request where
  flag := fun name => if name = "profile" then some "viral" else none

def mixedWorld : World where
  vault := mixedVault
  key := "seed-test-sign-key"
  stateRoot := "/state/seed_protocol"

theorem mixedVault_denies :
    Applies mixedWorld.vault "deny" (gateAction viralDeployment .deploy) :=
  (holds_mixedVault.applies_iff _ _).mpr ⟨_, List.mem_cons_self .., by decide⟩

theorem mixedVault_permits : Permits mixedWorld.vault "seed:*" := by
  constructor
  · obtain ⟨row, hrow, hnot, hkind, hmatch⟩ := (holds_mixedVault.applies_iff "allow"
      "seed:*").mpr ⟨signed "allow:seed:*", by simp, by decide⟩
    exact ⟨row, hrow, hnot, hkind ▸ by decide, hmatch⟩
  · rw [mixedWorld, holds_mixedVault.applies_iff]
    decide

/-- The denied deployment is carried out. -/
theorem denied_deployment_goes_through :
    (directiveVaultIntegrity seedHost.toHost mixedWorld.key mixedWorld.vault).ok = true ∧
      Applies mixedWorld.vault "deny" (gateAction viralDeployment .deploy) ∧
      applyFlag viralDeployment = true ∧
      ¬ Honours {} viralDeployment (run seedHost mixedWorld {} viralDeployment .deploy) .deploy := by
  have happly : applyFlag viralDeployment = true := by decide
  refine ⟨holds_mixedVault.ok plainHost_ideal, mixedVault_denies, happly, ?_⟩
  rw [honours_iff happly, Bool.not_eq_false]
  exact (commandGate_of_denied (holds_mixedVault.ok plainHost_ideal) mixedVault_denies).mpr
    ⟨"seed:*", by simp [widerActions], mixedVault_permits⟩

theorem denial_honoured_iff_mixed :
    Honours {} viralDeployment (run seedHost mixedWorld {} viralDeployment .deploy) .deploy ↔
      ¬ ∃ wider ∈ widerActions viralDeployment .deploy, Permits mixedWorld.vault wider :=
  denial_honoured_iff seedHost mixedWorld {} viralDeployment .deploy
    (holds_mixedVault.ok plainHost_ideal) mixedVault_denies (by decide)

end Protheus.SeedProtocol
