import Protheus.Directive.Vault
import Protheus.F64

/-!
The commands of `seed_protocol.rs` that ask the directive vault first.

`deploy`, `migrate`, `select`, `archive` and `defend` answer `directive_gate_denied` when
the gate is closed; `enforce` counts the check and quarantines the node.  The gate of an
action is open when the vault allows the action, or `seed:*`, or `seed` (`gateAllowed`).

A command takes the clock at several places of its code; the readings are numbered in
the order of these places.  Writes go through.
-/

namespace Protheus.SeedProtocol

open V8Kernel
open Std (ExtTreeMap)

/-- What the process gets from outside, with `f64` parsing and rounding. -/
structure Host extends V8Kernel.Host where
  parseF64 : String → Option F64
  round : ℚ → F64

/-- What a command reads and does not write: the directive vault and its key, and the
files of the other kernels. -/
structure World where
  vault : Json
  /-- `DIRECTIVE_KERNEL_SIGNING_KEY`, empty when it is not set. -/
  key : String := ""
  blobIndex : Json := .obj []
  organismState : Json := .obj []
  networkLedger : Json := .obj []
  stateRoot : String

/-- What a command writes: `seed_state.json` and the packets by their identifiers. -/
structure Files where
  seedState : Option Json := none
  packets : ExtTreeMap String Json := ∅

inductive Command where
  | deploy
  | migrate
  | enforce
  | select
  | archive
  | defend
  deriving DecidableEq

/-- The flags of a command, and the clock at each place that reads it. -/
structure Request where
  flag : String → Option String
  now : ℕ → ℕ := fun _ => 0

/-- The payload a command hands to `emit`, and the files it leaves. -/
structure Outcome where
  answer : Json
  files : Files

/-! ## State -/

def defaultState (host : Host) (createdMs : ℕ) : Json :=
  Json.ofFields
    [("version", .str "1.0"), ("active_profile", .null), ("packet_count", Json.ofNat 0),
      ("replication_count", Json.ofNat 0), ("migration_count", Json.ofNat 0),
      ("compliance_checks", Json.ofNat 0), ("compliance_denies", Json.ofNat 0),
      ("selection_rounds", Json.ofNat 0), ("archive_count", Json.ofNat 0),
      ("archive_merkle_root", .str (host.sha256HexStr "seed_archive_empty")),
      ("defense_event_count", Json.ofNat 0), ("quarantine", .obj []), ("packets", .arr []),
      ("replications", .arr []), ("migrations", .arr []), ("selection_history", .arr []),
      ("archives", .arr []), ("defense_events", .arr []),
      ("created_at", .str (host.nowIso createdMs))]

def loadState (host : Host) (files : Files) (createdMs : ℕ) : Json :=
  files.seedState.getD (defaultState host createdMs)

def stateObjMut (host : Host) (createdMs : ℕ) (state : Json) : Json :=
  if state.isObject then state else defaultState host createdMs

/-- The state a command goes on from; at most one of the two defaults is taken. -/
def openState (host : Host) (files : Files) (createdMs : ℕ) : Json :=
  stateObjMut host createdMs (loadState host files createdMs)

/-- `obj_mut`, as the map it gives out. -/
def objMut (obj : Json) (key : String) : Json :=
  match obj.get? key with
  | some (.obj fields) => .obj fields
  | _ => .obj []

/-- `arr_mut`, as the rows it gives out. -/
def arrMut (obj : Json) (key : String) : List Json := ((obj.get? key).bind Json.asArray).getD []

def pushBounded (rows : List Json) (value : Json) (maxRows : ℕ) : List Json :=
  (rows ++ [value]).drop (rows.length + 1 - maxRows)

def incCounter (obj : Json) (key : String) (delta : UInt64) : Json :=
  obj.setField key (.num (.posInt (((obj.get? key).bind Json.asU64).getD 0 + delta)))

/-- `push_bounded(arr_mut(obj, key), value, max_rows)`. -/
def pushRow (obj : Json) (key : String) (value : Json) (maxRows : ℕ) : Json :=
  obj.setField key (.arr (pushBounded (arrMut obj key) value maxRows))

/-- `obj_mut(obj, "quarantine").insert(node, row)`. -/
def quarantineNode (obj : Json) (node : String) (row : Json) : Json :=
  obj.setField "quarantine" ((objMut obj "quarantine").setField node row)

/-! ## Flags -/

section Flags

variable (host : Host) (request : Request)

def selectedProfile : String :=
  RustStd.toAsciiLowercase (clean ((request.flag "profile").getD "immortal") 32)

/-- `parse_bool(parsed.flags.get("apply"), true)`. -/
def applyFlag : Bool := parseBool (request.flag "apply") true

def parseU64 (raw : Option String) (fallback : UInt64) : UInt64 :=
  (raw.bind fun v => RustStd.parseU64 (RustStd.trim v)).getD fallback

def parseF64 (raw : Option String) (fallback : F64) : F64 :=
  (raw.bind fun v => host.parseF64 (RustStd.trim v)).getD fallback

/-- A flag with a default, cleaned. -/
def textFlag (name fallback : String) (maxLen : ℕ) : String :=
  clean ((request.flag name).getD fallback) maxLen

/-- The operation `enforce` is asked about. -/
def enforcedOperation : String :=
  RustStd.toAsciiLowercase (textFlag request "operation" "replicate" 64)

def replicationCap : ℕ :=
  (max 1 (min 64 (parseU64 (request.flag "replication-cap")
    (if selectedProfile request = "viral" then 12 else 6)))).toNat

def defaultTargets (profile : String) : List String :=
  if profile = "viral" then ["swarm-alpha", "swarm-beta", "swarm-gamma", "swarm-delta"]
  else ["vault-cold-1", "vault-cold-2", "vault-cold-3"]

def parseTargets (raw : Option String) (profile : String) (cap : ℕ) : List String :=
  let out := (raw.map fun v => ((RustStd.splitChar ',' v).map fun node =>
    RustStd.toAsciiLowercase (clean (RustStd.trim node) 120)).filter (!·.isEmpty)).getD []
  (if out.isEmpty then defaultTargets profile else out).take cap

end Flags

def profileClaimId (item profile : String) : String :=
  if RustStd.toAsciiLowercase (RustStd.trim profile) = "viral" then "V9-VIRAL-001." ++ item
  else "V9-IMMORTAL-001." ++ item

def activationCommand (profile : String) : String :=
  if profile = "viral" then "protheus seed deploy viral" else "protheus seed deploy"

/-- A row of `claim_evidence`. -/
def claimEvidence (id claim : String) (evidence : List (String × Json)) : Json :=
  Json.ofFields [("id", .str id), ("claim", .str claim), ("evidence", Json.ofFields evidence)]

/-! ## The gate -/

section Gate

variable (host : Host) (world : World)

/-- `directive_kernel::action_allowed`. -/
def actionAllowed (action : String) : Bool :=
  (Directive.evaluateAction host.toHost world.key world.vault action).allowed

def gateAllowed (action : String) : Bool :=
  actionAllowed host world action || actionAllowed host world "seed:*" ||
    actionAllowed host world "seed"

def gateAction (request : Request) : Command → String
  | .deploy => "seed:deploy:" ++ selectedProfile request
  | .migrate => "seed:migrate:" ++ selectedProfile request
  | .enforce => "seed:" ++ enforcedOperation request ++ ":" ++ selectedProfile request
  | .select => "seed:select:" ++ selectedProfile request
  | .archive => "seed:archive:" ++ selectedProfile request
  | .defend => "seed:defend"

/-- The answer to a command whose gate is closed. -/
def deniedAnswer (type : String) (request : Request) (command : Command) : Json :=
  Json.ofFields
    [("ok", .bool false), ("type", .str type), ("lane", .str "core/layer0/ops"),
      ("profile", .str (selectedProfile request)), ("error", .str "directive_gate_denied"),
      ("gate_action", .str (gateAction request command))]

/-- The head of every command but `enforce`: nothing happens when the command applies and
its gate is closed. -/
def gated (type : String) (files : Files) (request : Request) (command : Command)
    (body : Outcome) : Outcome :=
  if applyFlag request && !gateAllowed host world (gateAction request command) then
    { answer := deniedAnswer type request command, files }
  else body

end Gate

/-! ## Deploy -/

section Commands

variable (host : Host) (world : World) (files : Files) (request : Request)

def packetSignature (packet : Json) : String :=
  let key := clean world.key 1024
  if key.isEmpty then "unsigned:" ++ host.digest packet
  else "sig:" ++ keyedDigestHex host.toHost key packet

def packetBasis : Json :=
  let profile := selectedProfile request
  Json.ofFields
    [("profile", .str profile),
      ("directive_hash", .str (Directive.directiveVaultHash host.toHost world.vault)),
      ("blob_index_hash", .str (host.digest world.blobIndex)),
      ("personality_hash", .str (host.digest ((world.organismState.get? "personality").getD .null))),
      ("network_root", (world.networkLedger.get? "root_head").getD (.str "genesis")),
      ("target_count", Json.ofNat
        (parseTargets (request.flag "targets") profile (replicationCap request)).length),
      ("issued_at", .str (host.nowIso (request.now 0)))]

def packetId : String :=
  clean (String.ofList ((host.digest (packetBasis host world request)).toList.take 24)) 24

/-- The packet without its signature. -/
def unsignedPacket : Json :=
  let profile := selectedProfile request
  Json.ofFields
    [("packet_id", .str (packetId host world request)), ("profile", .str profile),
      ("directive_hash", .str (Directive.directiveVaultHash host.toHost world.vault)),
      ("blob_index_hash", .str (host.digest world.blobIndex)),
      ("personality_hash", .str (host.digest ((world.organismState.get? "personality").getD .null))),
      ("network_root", (world.networkLedger.get? "root_head").getD (.str "genesis")),
      ("targets", .arr ((parseTargets (request.flag "targets") profile
        (replicationCap request)).map .str)),
      ("issued_at", .str (host.nowIso (request.now 1))),
      ("activation_command", .str (activationCommand profile))]

def signedPacket : Json :=
  let packet := unsignedPacket host world request
  packet.setField "signature" (.str (packetSignature host world packet))

/-- The rows of a deployment, one for each target. -/
def replicationRows : List Json :=
  ((parseTargets (request.flag "targets") (selectedProfile request)
      (replicationCap request)).zipIdx).map fun (target, i) =>
    Json.ofFields
      [("packet_id", .str (packetId host world request)), ("target", .str target),
        ("status", .str "replicated"), ("ts", .str (host.nowIso (request.now (4 + i))))]

def packetPath : String :=
  world.stateRoot ++ "/packets/" ++ packetId host world request ++ ".json"

def deployedState : Json :=
  let replications := replicationRows host world request
  let obj := (openState host files (request.now 2)).setField "active_profile"
    (.str (selectedProfile request))
  let obj := incCounter (incCounter obj "packet_count" 1) "replication_count"
    (UInt64.ofNat replications.length)
  let obj := pushRow obj "packets"
    (Json.ofFields
      [("packet_id", .str (packetId host world request)),
        ("profile", .str (selectedProfile request)),
        ("target_count", Json.ofNat replications.length),
        ("directive_hash", .str (Directive.directiveVaultHash host.toHost world.vault)),
        ("network_root", (world.networkLedger.get? "root_head").getD (.str "genesis")),
        ("packet_path", .str (packetPath host world request)),
        ("ts", .str (host.nowIso (request.now 3)))]) 2048
  obj.setField "replications"
    (.arr (replications.foldl (pushBounded · · 8192) (arrMut obj "replications")))

def commandDeploy : Outcome :=
  let profile := selectedProfile request
  let apply := applyFlag request
  let replications := replicationRows host world request
  gated host world "seed_protocol_deploy" files request .deploy
    { answer := Json.ofFields
        [("ok", .bool true), ("type", .str "seed_protocol_deploy"),
          ("lane", .str "core/layer0/ops"), ("profile", .str profile), ("apply", .bool apply),
          ("packet", signedPacket host world request),
          ("packet_path", if apply then .str (packetPath host world request) else .null),
          ("replications", .arr replications),
          ("claim_evidence", .arr
            [claimEvidence (profileClaimId "1" profile)
                "seed_packet_replication_engine_bootstraps_independent_nodes_with_signed_packets"
                [("packet_id", .str (packetId host world request)),
                  ("replication_count", Json.ofNat replications.length)],
              claimEvidence (profileClaimId "6" profile)
                "one_command_seed_activation_and_dashboard_visibility_are_core_authoritative"
                [("activation_command", .str (activationCommand profile)),
                  ("state_path", .str (world.stateRoot ++ "/seed_state.json"))]])]
      files :=
        if apply then
          { seedState := some (deployedState host world files request)
            packets := files.packets.insert (packetId host world request)
              (signedPacket host world request) }
        else files }

/-! ## Migrate -/

def energyFlag : F64 :=
  (parseF64 host (request.flag "energy") (.finite (3 / 4))).clamp (.finite 0) (.finite 1)

def threatFlag : String := RustStd.toAsciiLowercase (textFlag request "threat" "normal" 64)

def hardwareClass : String := RustStd.toAsciiLowercase (textFlag request "hardware" "edge" 64)

def shouldMigrate : Bool :=
  parseBool (request.flag "force") false || (energyFlag host request).lt (host.round (35 / 100)) ||
    threatFlag request == "high" || threatFlag request == "critical"

def targetClass : String :=
  if (energyFlag host request).lt (host.round (1 / 5)) then "ultra_low_power"
  else if threatFlag request = "critical" then "cold_vault"
  else if RustStd.strContains (hardwareClass request) "edge" then "cloud_fallback"
  else "mesh_peer"

def migrationEvent : Json :=
  Json.ofFields
    [("profile", .str (selectedProfile request)),
      ("node", .str (textFlag request "node" "node-local" 120)), ("threat", .str (threatFlag request)),
      ("energy", (energyFlag host request).toJson), ("hardware_class", .str (hardwareClass request)),
      ("should_migrate", .bool (shouldMigrate host request)),
      ("target_class", .str (targetClass host request)), ("ts", .str (host.nowIso (request.now 0)))]

def commandMigrate : Outcome :=
  let apply := applyFlag request
  gated host world "seed_protocol_migrate" files request .migrate
    { answer := Json.ofFields
        [("ok", .bool true), ("type", .str "seed_protocol_migrate"),
          ("lane", .str "core/layer0/ops"), ("profile", .str (selectedProfile request)),
          ("apply", .bool apply), ("migration", migrationEvent host request),
          ("claim_evidence", .arr
            [claimEvidence (profileClaimId "2" (selectedProfile request))
              "anti_shutdown_energy_aware_migration_performs_state_preserving_handoff"
              [("should_migrate", .bool (shouldMigrate host request)),
                ("target_class", .str (targetClass host request))]])]
      files :=
        if apply then
          let obj := incCounter (openState host files (request.now 1)) "migration_count" 1
          { files with
            seedState := some (pushRow obj "migrations" (migrationEvent host request) 4096) }
        else files }

/-! ## Enforce -/

def enforcedNode : String := textFlag request "node" "node-unknown" 120

/-- The gate of `enforce` also opens for the operation without a profile. -/
def enforceGate : Bool :=
  gateAllowed host world (gateAction request .enforce) ||
    gateAllowed host world ("seed:" ++ enforcedOperation request)

/-- The row of a node that `enforce` quarantines. -/
def deniedRow : Json :=
  Json.ofFields
    [("operation", .str (enforcedOperation request)), ("profile", .str (selectedProfile request)),
      ("reason", .str "directive_gate_denied"), ("ts", .str (host.nowIso (request.now 1)))]

def enforcedState : Json :=
  let obj := incCounter (openState host files (request.now 0)) "compliance_checks" 1
  if enforceGate host world request then obj
  else
    quarantineNode (incCounter obj "compliance_denies" 1) (enforcedNode request)
      (deniedRow host request)

def commandEnforce : Outcome :=
  let apply := applyFlag request
  let gateOk := enforceGate host world request
  let quarantineWritten := apply && !gateOk
  { answer := Json.ofFields
      [("ok", .bool gateOk), ("type", .str "seed_protocol_enforce"),
        ("lane", .str "core/layer0/ops"), ("profile", .str (selectedProfile request)),
        ("operation", .str (enforcedOperation request)), ("node", .str (enforcedNode request)),
        ("apply", .bool apply), ("allowed", .bool gateOk),
        ("quarantine_written", .bool quarantineWritten),
        ("gate_action", .str (gateAction request .enforce)),
        ("claim_evidence", .arr
          [claimEvidence "V9-VIRAL-001.3"
              "directive_compliance_gate_controls_replication_and_mutation_actions_with_quarantine"
              [("allowed", .bool gateOk), ("operation", .str (enforcedOperation request)),
                ("node", .str (enforcedNode request))],
            claimEvidence "V9-IMMORTAL-001.5"
              "constitutional_self_defense_applies_fail_closed_quarantine_under_tamper_or_policy_breach"
              [("allowed", .bool gateOk), ("quarantine_written", .bool quarantineWritten)]])]
    files :=
      if apply then { files with seedState := some (enforcedState host world files request) }
      else files }

/-! ## Select -/

/-- A node of the network ledger with its balance, stake and score. -/
structure Scored where
  node : String
  balance : ℚ
  staked : ℚ
  score : F64

/-- The balances of the network ledger, scored. -/
def scoredNodes : List Scored :=
  let fieldsOf (name : String) := ((world.networkLedger.get? name).bind Json.asObject).getD []
  (fieldsOf "balances").map fun (node, bal) =>
    let b := bal.asF64.getD 0
    let s := (((fieldsOf "staked").lookup node).bind Json.asF64).getD 0
    { node, balance := b, staked := s
      score := F64.add host.round (.finite b) (F64.mul host.round (.finite s) (.finite 2)) }

/-- The nodes by falling score. -/
def rankedNodes : List Scored := (scoredNodes host world).mergeSort fun a b => !a.score.lt b.score

def topFlag : ℕ := (max 1 (min 50 (parseU64 (request.flag "top") 5))).toNat

def selectedNodes : List Json :=
  ((rankedNodes host world).take (topFlag request)).map fun row =>
    Json.ofFields [("node", .str row.node), ("balance", Json.ofRat row.balance),
      ("staked", Json.ofRat row.staked), ("score", row.score.toJson)]

def starvedNodes : List Json :=
  (((rankedNodes host world).drop (topFlag request)).filter (·.score.lt (.finite 10))).map fun row =>
    Json.ofFields [("node", .str row.node), ("score", row.score.toJson)]

def commandSelect : Outcome :=
  let profile := selectedProfile request
  let apply := applyFlag request
  let selected := selectedNodes host world request
  let starved := starvedNodes host world request
  gated host world "seed_protocol_select" files request .select
    { answer := Json.ofFields
        [("ok", .bool true), ("type", .str "seed_protocol_select"),
          ("lane", .str "core/layer0/ops"), ("profile", .str profile), ("apply", .bool apply),
          ("top_k", Json.ofNat (topFlag request)), ("selected", .arr selected),
          ("starved", .arr starved),
          ("claim_evidence", .arr
            [claimEvidence (profileClaimId "4" profile)
                "evolutionary_selection_prioritizes_high_contribution_nodes_and_starves_low_value_nodes"
                [("selected_count", Json.ofNat selected.length),
                  ("starved_count", Json.ofNat starved.length)],
              claimEvidence (if profile = "viral" then "V9-IMMORTAL-001.3" else "V9-VIRAL-001.4")
                "selection_engine_behavior_is_shared_across_viral_and_immortal_profiles"
                [("profile", .str profile), ("selected_count", Json.ofNat selected.length)]])]
      files :=
        if apply then
          let obj := incCounter (openState host files (request.now 0)) "selection_rounds" 1
          { files with
            seedState := some (pushRow obj "selection_history"
              (Json.ofFields
                [("profile", .str profile), ("top_k", Json.ofNat (topFlag request)),
                  ("selected", .arr selected), ("starved", .arr starved),
                  ("ts", .str (host.nowIso (request.now 1)))]) 2048) }
        else files }

/-! ## Archive -/

def lineageId : String :=
  clean ((request.flag "lineage-id").getD ("lineage-" ++ String.ofList
    ((host.nowIso (request.now 0)).toList.map fun c => if c = ':' ∨ c = '.' then '-' else c))) 160

def lastPacketId : String :=
  (((arrMut (loadState host files (request.now 1)) "packets").getLast?.bind
    (·.get? "packet_id")).bind Json.asStr).getD "none"

def archiveLeaf : String :=
  host.sha256HexStr (lineageId host request ++ ":" ++ selectedProfile request ++ ":" ++
    lastPacketId host files request ++ ":" ++ Directive.directiveVaultHash host.toHost world.vault)

def archivesAfter : List Json :=
  pushBounded (arrMut (incCounter (openState host files (request.now 2)) "archive_count" 1) "archives")
    (Json.ofFields
      [("lineage_id", .str (lineageId host request)), ("profile", .str (selectedProfile request)),
        ("leaf_hash", .str (archiveLeaf host world files request)),
        ("packet_id", .str (lastPacketId host files request)),
        ("ts", .str (host.nowIso (request.now 3)))]) 4096

def archiveMerkleRoot : String :=
  deterministicMerkleRoot host.toHost
    ((archivesAfter host world files request).filterMap fun row =>
      (row.get? "leaf_hash").bind Json.asStr)

def commandArchive : Outcome :=
  let profile := selectedProfile request
  let apply := applyFlag request
  let root := archiveMerkleRoot host world files request
  gated host world "seed_protocol_archive" files request .archive
    { answer := Json.ofFields
        [("ok", .bool true), ("type", .str "seed_protocol_archive"),
          ("lane", .str "core/layer0/ops"), ("profile", .str profile), ("apply", .bool apply),
          ("lineage_id", .str (lineageId host request)),
          ("leaf_hash", .str (archiveLeaf host world files request)),
          ("archive_merkle_root", if apply then .str root else .null),
          ("claim_evidence", .arr
            [claimEvidence (profileClaimId "5" profile)
                "deep_time_archive_is_merkle_linked_and_receipted_for_lineage_inheritance"
                [("lineage_id", .str (lineageId host request)),
                  ("leaf_hash", .str (archiveLeaf host world files request))],
              claimEvidence (if profile = "viral" then "V9-IMMORTAL-001.4" else "V9-VIRAL-001.5")
                "genetic_archive_is_shared_between_profiles_with_profile_scoped_lineage_records"
                [("profile", .str profile)]])]
      files :=
        if apply then
          let obj := incCounter (openState host files (request.now 2)) "archive_count" 1
          let obj := obj.setField "archives" (.arr (archivesAfter host world files request))
          { files with seedState := some (obj.setField "archive_merkle_root" (.str root)) }
        else files }

/-! ## Defend -/

def signalFlag : String := RustStd.toAsciiLowercase (textFlag request "signal" "tamper" 80)

def severityFlag : String := RustStd.toAsciiLowercase (textFlag request "severity" "high" 24)

def defendQuarantines : Bool :=
  severityFlag request == "high" || severityFlag request == "critical" || signalFlag request == "tamper"

def defendedState : Json :=
  let obj := incCounter (openState host files (request.now 0)) "defense_event_count" 1
  let obj := pushRow obj "defense_events"
    (Json.ofFields
      [("profile", .str (selectedProfile request)),
        ("node", .str (textFlag request "node" "node-unknown" 120)),
        ("signal", .str (signalFlag request)), ("severity", .str (severityFlag request)),
        ("quarantine", .bool (defendQuarantines request)),
        ("ts", .str (host.nowIso (request.now 1)))]) 4096
  if defendQuarantines request then
    quarantineNode obj (textFlag request "node" "node-unknown" 120)
      (Json.ofFields
        [("reason", .str ("defense_signal:" ++ signalFlag request)),
          ("severity", .str (severityFlag request)), ("profile", .str (selectedProfile request)),
          ("ts", .str (host.nowIso (request.now 2)))])
  else obj

def commandDefend : Outcome :=
  let apply := applyFlag request
  let node := textFlag request "node" "node-unknown" 120
  gated host world "seed_protocol_defend" files request .defend
    { answer := Json.ofFields
        [("ok", .bool true), ("type", .str "seed_protocol_defend"),
          ("lane", .str "core/layer0/ops"), ("profile", .str (selectedProfile request)),
          ("apply", .bool apply), ("node", .str node), ("signal", .str (signalFlag request)),
          ("severity", .str (severityFlag request)),
          ("quarantine", .bool (defendQuarantines request)),
          ("claim_evidence", .arr
            [claimEvidence "V9-IMMORTAL-001.5"
                "constitutional_self_defense_enforces_quarantine_and_anti_tamper_receipts"
                [("node", .str node), ("quarantine", .bool (defendQuarantines request))],
              claimEvidence "V9-VIRAL-001.2"
                "anti_shutdown_survival_flow_preserves_state_under_attack_signals"
                [("signal", .str (signalFlag request)),
                  ("severity", .str (severityFlag request))]])]
      files :=
        if apply then { files with seedState := some (defendedState host files request) }
        else files }

def run : Command → Outcome
  | .deploy => commandDeploy host world files request
  | .migrate => commandMigrate host world files request
  | .enforce => commandEnforce host world files request
  | .select => commandSelect host world files request
  | .archive => commandArchive host world files request
  | .defend => commandDefend host world files request

end Commands

end Protheus.SeedProtocol
