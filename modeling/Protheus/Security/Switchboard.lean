import Protheus.Lib.Chain
import Protheus.Lib.Runs
import Protheus.Security.Common

/-!
The capability switchboard of `security_wave1.rs`.

A `set` writes three files in turn: the state, the audit log, and the log of the hash chain.  The
chain accounts for the state (`Accounts`) as long as no append to the chain fails once the state has
been written (`Lands`): a `set` that stops there answers with an error and has changed the state.
-/

namespace Protheus.Security.Switchboard

open V8Kernel RustStd

/-! ## Policy -/

/-- A row of the default policy. -/
def defaultSwitch (securityLocked : Bool) (description : String) : Json :=
  .ofFields [("default_enabled", .bool true), ("security_locked", .bool securityLocked),
    ("require_policy_root", .bool true), ("description", .str description)]

/-- `capability_switchboard_default_policy`. -/
def defaultPolicy : Json :=
  .ofFields [("version", .str "1.0"), ("require_dual_control", .bool true),
    ("dual_control_min_note_len", .ofNat 12),
    ("policy_root", .ofFields
      [("required", .bool true), ("scope", .str "capability_switchboard_toggle")]),
    ("switches", .ofFields
      [("autonomy", defaultSwitch false "Core autonomy execution lane"),
        ("reflex", defaultSwitch false "Reflex execution lane"),
        ("dreams", defaultSwitch false "Dream/idle synthesis lane"),
        ("sensory_depth", defaultSwitch false "Deep sensory collection lane"),
        ("routing_modes", defaultSwitch false "Routing/model mode lane"),
        ("external_actuation", defaultSwitch false "External actuation lane"),
        ("security", defaultSwitch true "Security controls (non-deactivatable)"),
        ("integrity", defaultSwitch true "Integrity controls (non-deactivatable)")])]

/-- `value[key] = ...`, where there is something to set. -/
def setSome (value : Json) (key : String) (field : Option Json) : Json :=
  match field with
  | some field => value.setField key field
  | none => value

/-- A row of the policy with what the policy file says of it. -/
def mergeSwitch (row spec : Json) : Json :=
  let flag (name : String) := (((spec.get? name).bind Json.asBool)).map Json.bool
  let row := setSome row "default_enabled" (flag "default_enabled")
  let row := setSome row "security_locked" (flag "security_locked")
  let row := setSome row "require_policy_root" (flag "require_policy_root")
  setSome row "description" ((text? spec "description").map fun v => .str (cleanText v 200))

/-- The switches with those of the policy file. -/
def mergeSwitches (switches : List (String × Json)) (raw : List (String × Json)) :
    List (String × Json) :=
  raw.foldl
    (fun switches f =>
      let id := normalizeToken f.1 120
      if id = "" then switches
      else Json.insertField id (mergeSwitch ((switches.lookup id).getD (.ofFields [])) f.2) switches)
    switches

/-- The entries of an object field. -/
def fieldsOf (value : Json) (name : String) : List (String × Json) :=
  ((value.get? name).bind Json.asObject).getD []

/-- `capability_switchboard_load_policy`, of a file that holds the given JSON. -/
def loadPolicy (file : Option Json) : Json :=
  let raw := file.getD (.ofFields [])
  let merged := defaultPolicy
  let merged := setSome merged "version" ((text? raw "version").map fun v => .str (cleanText v 40))
  let merged := setSome merged "require_dual_control"
    (((raw.get? "require_dual_control").bind Json.asBool).map Json.bool)
  let merged := setSome merged "dual_control_min_note_len"
    ((raw.get? "dual_control_min_note_len").map fun v => .ofInt (numberI64 (some v) 12 8 1024))
  let root := (raw.get? "policy_root").filter Json.isObject
  let policyRoot := (merged.get? "policy_root").getD .null
  let policyRoot := setSome policyRoot "required"
    (((root.bind (·.get? "required")).bind Json.asBool).map Json.bool)
  let policyRoot := setSome policyRoot "scope"
    ((root.bind (text? · "scope")).map fun v => .str (cleanText v 160))
  let merged := merged.setField "policy_root" policyRoot
  merged.setField "switches"
    (.obj (mergeSwitches (fieldsOf merged "switches") (fieldsOf raw "switches")))

def switchPolicy (policy : Json) (id : String) : Option Json := (fieldsOf policy "switches").lookup id

/-- A flag of a row, or its default. -/
def flagOf (row : Json) (name : String) (fallback : Bool) : Bool :=
  ((row.get? name).bind Json.asBool).getD fallback

/-- Whether the policy marks a switch as one that cannot be turned off. -/
def securityLocked (policy : Json) (id : String) : Bool :=
  ((switchPolicy policy id).map (flagOf · "security_locked" false)).getD false

def requireDual (policy : Json) : Bool := flagOf policy "require_dual_control" true

def policyScope (policy : Json) : String :=
  ((policy.get? "policy_root").bind (text? · "scope")).getD "capability_switchboard_toggle"

/-! ## Files -/

/-- The files of the lane: the state, where there is one with JSON in it, and the rows of the two
logs. -/
structure Files where
  state : Option Json := none
  audit : List Json := []
  chain : List Json := []

/-- `capability_switchboard_load_state`. -/
def loadState (file : Option Json) : Json :=
  let raw := file.getD (.ofFields [])
  .ofFields [("schema_id", .str "capability_switchboard_state"), ("schema_version", .str "1.0"),
    ("updated_at", (raw.get? "updated_at").getD .null), ("switches", .obj (fieldsOf raw "switches"))]

/-- `capability_switchboard_chain_rows`. -/
def chainRows (chain : List Json) : List Json :=
  chain.filter fun row => text? row "type" == some "capability_switchboard_chain_event"

def rowHash (row : Json) : String := ((text? row "hash").map (cleanText · 140)).getD ""

def rowPrev (row : Json) : String := ((text? row "prev_hash").map (cleanText · 140)).getD "GENESIS"

/-- `capability_switchboard_chain_tip`. -/
def chainTip (chain : List Json) : String :=
  match (chainRows chain).getLast? with
  | some row => if rowHash row = "" then "GENESIS" else rowHash row
  | none => "GENESIS"

/-- `obj.remove("hash")`. -/
def withoutHash : Json → Json
  | .obj fields => .obj (fields.filter fun f => f.1 != "hash")
  | other => other

/-- What `capability_switchboard_verify_chain` answers. -/
inductive ChainVerdict where
  | intact (entries : ℕ) (tipHash : String)
  | prevHashMismatch (entries index : ℕ) (expected actual : String)
  | hashMismatch (entries index : ℕ) (expected actual : String)

/-- The loop of `capability_switchboard_verify_chain`. -/
def checkRows (host : Host) (entries : ℕ) : ℕ → String → List Json → ChainVerdict
  | _, prev, [] => .intact entries prev
  | index, prev, row :: rows =>
    if rowPrev row ≠ prev then .prevHashMismatch entries index prev (rowPrev row)
    else
      let computed := rowDigest host (withoutHash row)
      if computed ≠ rowHash row then .hashMismatch entries index computed (rowHash row)
      else checkRows host entries (index + 1) (rowHash row) rows

/-- `capability_switchboard_verify_chain`. -/
def verifyChain (host : Host) (chain : List Json) : ChainVerdict :=
  checkRows host (chainRows chain).length 0 "GENESIS" (chainRows chain)

/-! ## The command `set` -/

/-- A run of the policy root script: it is not there, it cannot be started, or it ends. -/
inductive ScriptRun where
  | missing
  | spawnFailed (err : String)
  | finished (success : Bool) (code : ℤ) (payload : Option Json) (stderr : String)

/-- A denial of the policy root that did not come from the script. -/
def denial (reason : String) : Json :=
  .ofFields [("ok", .bool false), ("decision", .str "DENY"), ("reason", .str reason)]

/-- `capability_switchboard_run_policy_root`. -/
def runPolicyRoot : ScriptRun → Json
  | .missing => denial "policy_root_script_missing"
  | .spawnFailed err => denial ("policy_root_spawn_failed:" ++ err)
  | .finished success code payload stderr =>
    let payload := payload.getD (denial "policy_root_invalid_payload")
    let ok := success && flagOf payload "ok" false && text? payload "decision" == some "ALLOW"
    .ofFields [("ok", .bool ok), ("decision", (payload.get? "decision").getD (.str "DENY")),
      ("raw", payload), ("code", .ofInt code), ("stderr", .str (cleanText stderr 320))]

/-- The four readings of the clock. -/
structure Stamps where
  switchMs : ℕ
  stateMs : ℕ
  auditMs : ℕ
  chainMs : ℕ

/-- What the three writes fail with, where they do. -/
structure Faults where
  stateWrite : Option String := none
  auditAppend : Option String := none
  chainAppend : Option String := none

/-- A `set` with its flags, the script's run, the clock and the writes that fail. -/
structure SetCall where
  flags : List (String × String)
  script : ScriptRun
  stamps : Stamps
  faults : Faults := {}

/-- What a `set` that is let through is to write. -/
structure Plan where
  switch : String
  enabled : Bool
  approverId : String
  secondApproverId : String
  note : String
  policyRoot : Json

/-- An answer and its exit code. -/
abbrev Answer := Json × ℕ

/-- A `set` that is turned down. -/
def refusal (switch : Option String) (reason : String) (code : ℕ) : Answer :=
  (.ofFields ([("ok", .bool false), ("type", .str "capability_switchboard_set")] ++
    (switch.map fun id => ("switch", Json.str id)).toList ++ [("reason", .str reason)]), code)

/-- The two approvals a `set` names. -/
structure Approvals where
  approverId : String
  secondApproverId : String
  note : String
  secondNote : String

def approvalsOf (flags : List (String × String)) : Approvals where
  approverId := normalizeToken ((flags.lookup "approver-id").getD "") 120
  secondApproverId := normalizeToken ((flags.lookup "second-approver-id").getD "") 120
  note := cleanText ((flags.lookup "approval-note").getD "") 720
  secondNote := cleanText ((flags.lookup "second-approval-note").getD "") 720

/-- Why the approvals are not enough. -/
def dualControlError (policy : Json) (approvals : Approvals) : Option String :=
  let minNote := numberI64 (policy.get? "dual_control_min_note_len") 12 8 4096
  if requireDual policy then
    if approvals.approverId = "" ∨ approvals.secondApproverId = "" then
      some "dual_control_approver_missing"
    else if approvals.approverId = approvals.secondApproverId then
      some "dual_control_approver_must_differ"
    else if LaneUtils.bytes approvals.note.toList < minNote ∨
        LaneUtils.bytes approvals.secondNote.toList < minNote then
      some "approval_note_too_short"
    else none
  else none

/-- What the policy root says of a `set`, where it is asked. -/
def policyRootOf (policy row : Json) (script : ScriptRun) : Json :=
  let required := flagOf ((policy.get? "policy_root").getD .null) "required" true
  if flagOf row "require_policy_root" true || required then runPolicyRoot script
  else .ofFields [("ok", .bool true), ("decision", .str "ALLOW"),
    ("reason", .str "policy_root_not_required")]

/-- What a `set` checks before it writes anything. -/
def checkSet (policy : Json) (call : SetCall) : Except Answer Plan := do
  let switch := normalizeToken ((call.flags.lookup "switch").getD "") 120
  if switch = "" then throw (refusal none "missing_switch" 2)
  let some enabled := boolState (call.flags.lookup "state")
    | throw (refusal (some switch) "invalid_state" 2)
  let some row := switchPolicy policy switch
    | throw (refusal (some switch) "unknown_switch" 1)
  if flagOf row "security_locked" false && !enabled then
    throw (refusal (some switch) "security_locked_non_deactivatable" 1)
  let approvals := approvalsOf call.flags
  if let some reason := dualControlError policy approvals then
    throw (refusal (some switch) reason 1)
  let policyRoot := policyRootOf policy row call.script
  if !flagOf policyRoot "ok" false then
    throw ((refusal (some switch) "policy_root_denied" 1).1.setField "policy_root" policyRoot, 1)
  return { switch, enabled, policyRoot, note := approvals.note, approverId := approvals.approverId,
           secondApproverId := approvals.secondApproverId }

variable (host : Host) (policy : Json)

/-- The state a `set` writes. -/
def nextState (stamps : Stamps) (plan : Plan) (file : Option Json) : Json :=
  let state := loadState file
  let row := Json.ofFields [("enabled", .bool plan.enabled),
    ("updated_at", .str (host.nowIso stamps.switchMs)), ("updated_by", .str plan.approverId),
    ("reason", .str plan.note)]
  let state := state.setField "switches"
    (.obj (Json.insertField plan.switch row (fieldsOf state "switches")))
  state.setField "updated_at" (.str (host.nowIso stamps.stateMs))

def auditRow (stamps : Stamps) (plan : Plan) : Json :=
  .ofFields [("ts", .str (host.nowIso stamps.auditMs)), ("type", .str "capability_switchboard_set"),
    ("switch", .str plan.switch), ("enabled", .bool plan.enabled),
    ("approver_id", .str plan.approverId), ("second_approver_id", .str plan.secondApproverId),
    ("reason", .str plan.note), ("policy_root", plan.policyRoot)]

def chainFields (stamps : Stamps) (plan : Plan) (prevHash : String) : List (String × Json) :=
  [("ts", .str (host.nowIso stamps.chainMs)), ("type", .str "capability_switchboard_chain_event"),
    ("action", .str (if plan.enabled then "grant" else "revoke")), ("switch", .str plan.switch),
    ("enabled", .bool plan.enabled), ("approver_id", .str plan.approverId),
    ("second_approver_id", .str plan.secondApproverId), ("reason", .str plan.note),
    ("policy_scope", .str (policyScope policy)), ("prev_hash", .str prevHash)]

def chainRow (stamps : Stamps) (plan : Plan) (prevHash : String) : Json :=
  let row := Json.ofFields (chainFields host policy stamps plan prevHash)
  row.setField "hash" (.str (rowDigest host row))

/-- The audit log after a `set`: a row that cannot be appended is passed over. -/
def auditLog (call : SetCall) (plan : Plan) (audit : List Json) : List Json :=
  match call.faults.auditAppend with
  | some _ => audit
  | none => audit ++ [auditRow host call.stamps plan]

/-- What a `set` that is let through writes: the state, the audit log, the chain. -/
def applySet (call : SetCall) (plan : Plan) (files : Files) : Files × Answer :=
  match call.faults.stateWrite with
  | some err => (files, refusal (some plan.switch) ("state_write_failed:" ++ err) 1)
  | none =>
    let files := { files with
      state := some (nextState host call.stamps plan files.state)
      audit := auditLog host call plan files.audit }
    let row := chainRow host policy call.stamps plan (chainTip files.chain)
    match call.faults.chainAppend with
    | some err => (files, refusal (some plan.switch) ("hash_chain_append_failed:" ++ err) 1)
    | none =>
      ({ files with chain := files.chain ++ [row] },
        (.ofFields [("ok", .bool true), ("type", .str "capability_switchboard_set"),
          ("switch", .str plan.switch), ("enabled", .bool plan.enabled),
          ("policy_root", plan.policyRoot),
          ("hash_chain", .ofFields [("last_hash", (row.get? "hash").getD .null)])], 0))

/-- `run_capability_switchboard` with `set`. -/
def set (files : Files) (call : SetCall) : Files × Answer :=
  match checkSet policy call with
  | .error answer => (files, answer)
  | .ok plan => applySet host policy call plan files

/-- The files after a `set`. -/
def step (files : Files) (call : SetCall) : Files := (set host policy files call).1

/-! ## What the chain says -/

/-- The flag a row carries. -/
def enabled? (row : Json) : Option Bool := (row.get? "enabled").bind Json.asBool

/-- The flag the stored state has of a switch. -/
def storedEnabled (file : Option Json) (id : String) : Option Bool :=
  ((fieldsOf (loadState file) "switches").lookup id).bind enabled?

/-- The flag the last row of a switch gives it. -/
def replay (rows : List Json) (id : String) : Option Bool :=
  (rows.reverse.find? fun row => text? row "switch" == some id).bind enabled?

/-- A row that names two different approvers. -/
def TwoApprovers (row : Json) : Prop :=
  ∃ first second, text? row "approver_id" = some first ∧ text? row "second_approver_id" = some second ∧
    first ≠ "" ∧ second ≠ "" ∧ first ≠ second

/-- **The chain accounts for the state.** -/
structure Accounts (files : Files) : Prop where
  intact : ∃ entries tipHash, verifyChain host files.chain = .intact entries tipHash
  replayed : ∀ id, replay (chainRows files.chain) id = storedEnabled files.state id
  dual : requireDual policy = true → ∀ row ∈ chainRows files.chain, TwoApprovers row
  locked : ∀ id, securityLocked policy id = true → storedEnabled files.state id ≠ some false

/-- No append to the chain fails after the state has been written. -/
def Lands (call : SetCall) : Prop :=
  ∀ plan, checkSet policy call = .ok plan → call.faults.stateWrite = none →
    call.faults.chainAppend = none

/-! ### Verification -/

/-- A row whose hash is that of its other fields. -/
def Sealed (row : Json) : Prop := rowDigest host (withoutHash row) = rowHash row

/-- **What verification finds intact**: rows that are linked and sealed. -/
theorem checkRows_intact_iff {entries : ℕ} {rows : List Json} {index : ℕ} {prev : String} {n : ℕ}
    {tipHash : String} : checkRows host entries index prev rows = .intact n tipHash ↔
      Chain.Linked rowHash rowPrev prev rows ∧ (∀ row ∈ rows, Sealed host row) ∧ n = entries ∧
        tipHash = Chain.tip rowHash prev rows := by
  induction rows generalizing index prev with
  | nil => simp [checkRows, Chain.Linked, Chain.tip, eq_comm]
  | cons row rows ih =>
    rw [checkRows]
    by_cases hprev : rowPrev row = prev
    · rw [if_neg (not_not.mpr hprev)]
      by_cases hhash : rowDigest host (withoutHash row) = rowHash row
      · simp only [hhash, ne_eq, not_true_eq_false, if_false, ih, Chain.Linked, hprev, true_and,
          List.forall_mem_cons, Sealed, Chain.tip]
      · simp [hhash, Chain.Linked, Sealed]
    · simp [hprev, Chain.Linked]

theorem chainRows_append (chain rows : List Json) :
    chainRows (chain ++ rows) = chainRows chain ++ chainRows rows := List.filter_append _ _

section Digest

variable {host} (hdigest : HexDigests host)
include hdigest

/-- The tip that is read back is the chain's own. -/
theorem chainTip_eq {chain : List Json} (hsealed : ∀ row ∈ chainRows chain, Sealed host row) :
    chainTip chain = Chain.tip rowHash "GENESIS" (chainRows chain) := by
  rw [chainTip]
  cases h : chainRows chain using List.reverseRecOn with
  | nil => rfl
  | append_singleton rows row =>
    have hrow : rowHash row ≠ "" := by
      rw [← hsealed row (by simp [h])]
      exact rowDigest_ne_empty hdigest _
    simp [hrow]

end Digest

/-! ### The row a `set` adds -/

section ChainRow

variable (stamps : Stamps) (plan : Plan) (prevHash : String)

/-- The fields of a row are read back as they are written. -/
theorem chainRow_get? {key : String} (h : key ≠ "hash") :
    (chainRow host policy stamps plan prevHash).get? key =
      (chainFields host policy stamps plan prevHash).lookup key := by
  rw [chainRow, Json.get?_setField_ne h]
  exact Json.lookup_insertFields_nil (by simp [chainFields])

theorem chainRows_chainRow : chainRows [chainRow host policy stamps plan prevHash] =
    [chainRow host policy stamps plan prevHash] := by
  have htype : text? (chainRow host policy stamps plan prevHash) "type" =
      some "capability_switchboard_chain_event" := by
    rw [text?, chainRow_get? host policy stamps plan prevHash (by decide)]
    rfl
  simp [chainRows, htype]

theorem text?_switch_chainRow :
    text? (chainRow host policy stamps plan prevHash) "switch" = some plan.switch := by
  rw [text?, chainRow_get? host policy stamps plan prevHash (by decide)]
  rfl

theorem enabled?_chainRow :
    enabled? (chainRow host policy stamps plan prevHash) = some plan.enabled := by
  rw [enabled?, chainRow_get? host policy stamps plan prevHash (by decide)]
  rfl

theorem withoutHash_chainRow : withoutHash (chainRow host policy stamps plan prevHash) =
    .ofFields (chainFields host policy stamps plan prevHash) := by
  have hfresh : "hash" ∉ ((chainFields host policy stamps plan prevHash).foldl
      (fun out f => Json.insertField f.1 f.2 out) []).map Prod.fst := by
    intro hmem
    obtain ⟨f, hf, hkey⟩ := List.mem_map.mp hmem
    have hkeys : "hash" ∉ (chainFields host policy stamps plan prevHash).map Prod.fst := by
      simp [chainFields]
    obtain hf | hf := Json.mem_insertFields hf
    · exact hkeys (hkey ▸ List.mem_map_of_mem hf)
    · cases hf
  exact congrArg Json.obj (Json.filter_insertField hfresh)

variable {host} (hdigest : HexDigests host)
include hdigest

theorem rowHash_chainRow : rowHash (chainRow host policy stamps plan prevHash) =
    rowDigest host (.ofFields (chainFields host policy stamps plan prevHash)) := by
  rw [rowHash, text?, chainRow, Json.get?_setField_same Json.isObject_ofFields]
  exact cleanText_digest hdigest (by decide) _

theorem sealed_chainRow : Sealed host (chainRow host policy stamps plan prevHash) := by
  rw [Sealed, withoutHash_chainRow, rowHash_chainRow policy stamps plan prevHash hdigest]

/-- A row that names the tip of a sealed chain extends it. -/
theorem rowPrev_chainRow {chain : List Json} (hsealed : ∀ row ∈ chainRows chain, Sealed host row) :
    rowPrev (chainRow host policy stamps plan (chainTip chain)) =
      Chain.tip rowHash "GENESIS" (chainRows chain) := by
  have hclean : cleanText (chainTip chain) 140 = chainTip chain := by
    rw [chainTip_eq hdigest hsealed]
    obtain htip | ⟨row, hrow, htip⟩ := @Chain.tip_eq _ _ rowHash "GENESIS" (chainRows chain)
    · rw [htip]
      decide
    · rw [htip, ← hsealed row hrow]
      exact cleanText_digest hdigest (by decide) _
  rw [rowPrev, text?, chainRow_get? host policy stamps plan _ (by decide),
    ← chainTip_eq hdigest hsealed]
  exact hclean

end ChainRow

/-! ### The plan of a `set` -/

/-- What a `set` that is let through is known to respect. -/
structure Respects (plan : Plan) : Prop where
  locked : securityLocked policy plan.switch = true → plan.enabled = true
  dual : requireDual policy = true →
    plan.approverId ≠ "" ∧ plan.secondApproverId ≠ "" ∧ plan.approverId ≠ plan.secondApproverId

theorem dualControlError_none {approvals : Approvals} (h : dualControlError policy approvals = none)
    (hdual : requireDual policy = true) : approvals.approverId ≠ "" ∧
      approvals.secondApproverId ≠ "" ∧ approvals.approverId ≠ approvals.secondApproverId := by
  simp only [dualControlError, hdual, if_true] at h
  split at h
  · cases h
  · rename_i hnamed
    split at h
    · cases h
    · rename_i hdiffer
      exact ⟨fun he => hnamed (.inl he), fun he => hnamed (.inr he), hdiffer⟩

theorem respects_of_checkSet {call : SetCall} {plan : Plan} (h : checkSet policy call = .ok plan) :
    Respects policy plan := by
  simp only [checkSet, bind, Except.bind, throw, throwThe, MonadExceptOf.throw, pure,
    Except.pure] at h
  split at h
  · cases h
  split at h
  · rename_i enabled _
    split at h
    · rename_i row hrow
      split at h
      · cases h
      · rename_i hlocked
        split at h
        · cases h
        · rename_i hdual
          split at h
          · cases h
          · obtain rfl := Except.ok.inj h
            constructor
            · intro hlock
              simp only [securityLocked, hrow, Option.map_some, Option.getD_some] at hlock
              simpa [hlock] using hlocked
            · exact dualControlError_none policy (Option.eq_none_iff_forall_ne_some.mpr hdual)
    · cases h
  · cases h

/-! ### The state a `set` writes -/

theorem fieldsOf_loadState (file : Option Json) : fieldsOf (loadState file) "switches" =
    fieldsOf (file.getD (.ofFields [])) "switches" := by
  rw [fieldsOf, loadState, Json.get?_ofFields_mem (by simp)
    (List.mem_cons_of_mem _ (List.mem_cons_of_mem _ (List.mem_cons_of_mem _ List.mem_cons_self)))]
  rfl

/-- The flag of the switch is written, every other one is kept. -/
theorem storedEnabled_nextState (stamps : Stamps) (plan : Plan) (file : Option Json) (id : String) :
    storedEnabled (some (nextState host stamps plan file)) id =
      if id = plan.switch then some plan.enabled else storedEnabled file id := by
  have hfields : fieldsOf (loadState (some (nextState host stamps plan file))) "switches" =
      Json.insertField plan.switch (.ofFields [("enabled", .bool plan.enabled),
        ("updated_at", .str (host.nowIso stamps.switchMs)), ("updated_by", .str plan.approverId),
        ("reason", .str plan.note)]) (fieldsOf (loadState file) "switches") := by
    rw [fieldsOf_loadState, Option.getD_some, fieldsOf, nextState, Json.get?_setField_ne (by decide),
      Json.get?_setField_same rfl]
    rfl
  rw [storedEnabled, hfields]
  split
  · rename_i hid
    rw [hid, Json.lookup_insertField_same, Option.bind_some, enabled?,
      Json.get?_ofFields_mem (by simp) List.mem_cons_self]
    rfl
  · rename_i hid
    rw [Json.lookup_insertField_ne hid, storedEnabled]

/-- A row added to the chain speaks for its switch alone. -/
theorem replay_append (rows : List Json) (stamps : Stamps) (plan : Plan) (prevHash id : String) :
    replay (rows ++ [chainRow host policy stamps plan prevHash]) id =
      if id = plan.switch then some plan.enabled else replay rows id := by
  rw [replay, List.reverse_append, List.reverse_singleton, List.singleton_append, List.find?_cons,
    text?_switch_chainRow]
  split
  · rename_i hid
    have hid : plan.switch = id := by simpa using hid
    rw [if_pos hid.symm, Option.bind_some, enabled?_chainRow]
  · rename_i hid
    have hid : plan.switch ≠ id := by simpa using hid
    rw [if_neg hid.symm, replay]

theorem twoApprovers_chainRow {plan : Plan} (hrespects : Respects policy plan)
    (hdual : requireDual policy = true) (stamps : Stamps) (prevHash : String) :
    TwoApprovers (chainRow host policy stamps plan prevHash) := by
  obtain ⟨hfirst, hsecond, hdiffer⟩ := hrespects.dual hdual
  refine ⟨plan.approverId, plan.secondApproverId, ?_, ?_, hfirst, hsecond, hdiffer⟩
  · rw [text?, chainRow_get? host policy stamps plan prevHash (by decide)]
    rfl
  · rw [text?, chainRow_get? host policy stamps plan prevHash (by decide)]
    rfl

/-! ## Runs -/

def answeredOk (answer : Answer) : Bool := flagOf answer.1 "ok" false

/-- The files a `set` leaves that has written all there was to write. -/
def landed (files : Files) (call : SetCall) (plan : Plan) : Files where
  state := some (nextState host call.stamps plan files.state)
  audit := auditLog host call plan files.audit
  chain := files.chain ++ [chainRow host policy call.stamps plan (chainTip files.chain)]

theorem applySet_landed (files : Files) {call : SetCall} (plan : Plan)
    (hwrite : call.faults.stateWrite = none) (happend : call.faults.chainAppend = none) :
    (applySet host policy call plan files).1 = landed host policy files call plan ∧
      answeredOk (applySet host policy call plan files).2 = true := by
  rw [applySet, hwrite, happend]
  refine ⟨rfl, ?_⟩
  rw [answeredOk, flagOf, Json.get?_ofFields_mem (by simp) List.mem_cons_self]
  rfl

/-- What a `set` does: nothing, or it writes its plan to state and chain. -/
theorem set_cases (files : Files) {call : SetCall} (hlands : Lands policy call) :
    (set host policy files call).1 = files ∨
      ∃ plan, Respects policy plan ∧ answeredOk (set host policy files call).2 = true ∧
        (set host policy files call).1 = landed host policy files call plan := by
  cases hcheck : checkSet policy call with
  | error answer =>
    left
    unfold set
    rw [hcheck]
  | ok plan =>
    have hset : set host policy files call = applySet host policy call plan files := by
      unfold set
      rw [hcheck]
    rw [hset]
    cases hwrite : call.faults.stateWrite with
    | some err =>
      left
      rw [applySet, hwrite]
    | none =>
      obtain ⟨hfiles, hok⟩ := applySet_landed host policy files plan hwrite (hlands plan hcheck hwrite)
      exact .inr ⟨plan, respects_of_checkSet policy hcheck, hok, hfiles⟩

theorem accounts_empty : Accounts host policy {} where
  intact := ⟨0, "GENESIS", rfl⟩
  replayed _ := rfl
  dual _ row hrow := by cases hrow
  locked _ _ h := by cases h

section Accounts

variable {host} (hdigest : HexDigests host)
include hdigest

theorem accounts_set {files : Files} (h : Accounts host policy files) {call : SetCall}
    (hlands : Lands policy call) : Accounts host policy (set host policy files call).1 := by
  obtain hsame | ⟨plan, hrespects, -, hwritten⟩ := set_cases host policy files hlands
  · rwa [hsame]
  · obtain ⟨n, tipHash, hintact⟩ := h.intact
    obtain ⟨hlinked, hsealed, -, -⟩ := (checkRows_intact_iff host).mp hintact
    rw [hwritten]
    have hrows : chainRows (landed host policy files call plan).chain = chainRows files.chain ++
        [chainRow host policy call.stamps plan (chainTip files.chain)] := by
      rw [landed, chainRows_append, chainRows_chainRow]
    have hstored (id : String) : storedEnabled (landed host policy files call plan).state id =
        if id = plan.switch then some plan.enabled else storedEnabled files.state id :=
      storedEnabled_nextState host call.stamps plan files.state id
    constructor
    · refine ⟨_, _, (checkRows_intact_iff host).mpr ⟨?_, ?_, rfl, rfl⟩⟩
      · rw [hrows, Chain.Linked.concat_iff]
        exact ⟨hlinked, rowPrev_chainRow policy call.stamps plan hdigest hsealed⟩
      · intro row hrow
        rw [hrows, List.mem_append, List.mem_singleton] at hrow
        obtain hrow | rfl := hrow
        · exact hsealed row hrow
        · exact sealed_chainRow policy call.stamps plan _ hdigest
    · intro id
      rw [hrows, replay_append, hstored, h.replayed id]
    · intro hdual row hrow
      rw [hrows, List.mem_append, List.mem_singleton] at hrow
      obtain hrow | rfl := hrow
      · exact h.dual hdual row hrow
      · exact twoApprovers_chainRow host policy hrespects hdual call.stamps _
    · intro id hlock
      rw [hstored]
      split
      · rename_i hid
        rw [hrespects.locked (hid ▸ hlock)]
        simp
      · exact h.locked id hlock

/-- **The chain accounts for the state** in every run in which no append to the chain fails once
the state has been written, and a `set` that answers with an error leaves the state alone. -/
theorem chain_accounts (file : Option Json) (calls : List SetCall)
    (hlands : ∀ call ∈ calls, Lands (loadPolicy file) call) :
    (∀ n, Accounts host (loadPolicy file)
      (Runs.before (step host (loadPolicy file)) {} calls n)) ∧
    ∀ n call, calls[n]? = some call →
      let files := Runs.before (step host (loadPolicy file)) {} calls n
      answeredOk (set host (loadPolicy file) files call).2 = false →
        (set host (loadPolicy file) files call).1.state = files.state := by
  have hmeets : Runs.Meets (step host (loadPolicy file)) (fun _ call => Lands (loadPolicy file) call)
      {} calls := Runs.Meets.of_forall fun call hcall _ => hlands call hcall
  constructor
  · refine fun n => hmeets.before (fun files call h hcall => ?_) (accounts_empty host _) n
    exact accounts_set (loadPolicy file) hdigest h hcall
  · intro n call hcall files hanswer
    obtain hsame | ⟨plan, -, hok, -⟩ := set_cases host (loadPolicy file) files
      (hlands call (List.mem_of_getElem? hcall))
    · rw [hsame]
    · rw [hok] at hanswer
      cases hanswer

end Accounts

/-- An approved `set` that turns a switch off. -/
def revoke (faults : Faults) : SetCall where
  flags := [("switch", "autonomy"), ("state", "off"), ("approver-id", "first"),
    ("second-approver-id", "second"), ("approval-note", "stand down now"),
    ("second-approval-note", "stand down now")]
  script := .finished true 0 (some (.ofFields [("ok", .bool true), ("decision", .str "ALLOW")])) ""
  stamps := ⟨0, 0, 0, 0⟩
  faults := faults

theorem chain_accounts_revoke :
    Accounts oneDigestHost (loadPolicy none)
      (Runs.before (step oneDigestHost (loadPolicy none)) {} [revoke {}] 1) :=
  (chain_accounts oneDigestHost_digests none [revoke {}] (by
    intro call hcall plan _ _
    obtain rfl := List.mem_singleton.mp hcall
    rfl)).1 1

/-- A `set` whose row cannot be appended answers with an error, and has turned the switch off. -/
theorem revoke_unaccounted :
    let files := set plainHost (loadPolicy none) {} (revoke { chainAppend := some "disk full" })
    answeredOk files.2 = false ∧ files.1.state ≠ none ∧
      storedEnabled files.1.state "autonomy" = some false ∧
      ¬Accounts plainHost (loadPolicy none) files.1 := by
  intro files
  have hstored : storedEnabled files.1.state "autonomy" = some false := by decide
  have hreplay : replay (chainRows files.1.chain) "autonomy" = none := by decide
  refine ⟨by decide, ?_, hstored, fun h => ?_⟩
  · intro hnone
    rw [hnone] at hstored
    cases hstored
  · have hsame := h.replayed "autonomy"
    rw [hreplay, hstored] at hsame
    cases hsame

end Protheus.Security.Switchboard
