import Protheus.F64
import Protheus.Lib.Chain
import Protheus.Lib.Runs
import Protheus.V8Kernel

/-!
The token ledger of `network_protocol.rs` and the commands of `network_protocol_run.rs`
that commit to it.

A commit appends a row to `events.jsonl`, moves the heads of the ledger on and stores
`ledger.json`, in this order.  `InStep` says that the two files agree.  A commit whose
row is written while its ledger is not (`Torn`) leaves a row the ledger knows nothing
of; nothing else breaks the chains (`chained_step_iff`).  The root is that of the
amounts in memory; the text of a float is not always read as the float it was printed
from, and so an amount may move under the root (`ReadBack`).
-/

namespace Protheus.Network.TokenLedger

open V8Kernel Runs

/-- What comes from outside, with the rounding of float arithmetic, the float a printed
float is read as, and `{:.n}`. -/
structure Host extends V8Kernel.Host where
  round : ℚ → F64
  reread : ℚ → ℚ
  fixed : ℕ → F64 → String

/-- A JSON object. -/
abbrev Map := List (String × Json)

/-- The two files; `none` before the ledger is first stored.  The ledger file holds an
object, since nothing else is ever stored there. -/
structure Files where
  ledger : Option Map := none
  events : List Json := []

def defaultLedger : Map :=
  Json.insertFields
    [("version", .str "1.0"), ("balances", .obj []), ("staked", .obj []),
      ("event_head", .str "genesis"), ("root_head", .str "genesis"), ("height", Json.ofNat 0),
      ("root_history", .arr []),
      ("emission", Json.ofFields
        [("halving_interval", Json.ofNat 210000), ("initial_issuance", Json.ofRat 50),
          ("epoch", Json.ofNat 0), ("issuance_per_epoch", Json.ofRat 50),
          ("next_halving_height", Json.ofNat 210000)]),
      ("zk_claims", .obj [])] []

/-- The ledger as its text is read. -/
def loadLedger (host : Host) (files : Files) : Map :=
  match files.ledger with
  | some ledger => Json.rereadFields host.reread ledger
  | none => defaultLedger

/-- `map_mut`, as the map it gives out. -/
def mapMut (obj : Map) (key : String) : Map :=
  match obj.lookup key with
  | some (.obj fields) => fields
  | _ => []

/-- `array_mut`, as the rows it gives out. -/
def arrayMut (obj : Map) (key : String) : List Json :=
  match obj.lookup key with
  | some (.arr rows) => rows
  | _ => []

/-- The amount of an account in a map of the ledger. -/
def balanceOf (obj : Map) (key account : String) : F64 :=
  .finite ((((mapMut obj key).lookup account).bind Json.asF64).getD 0)

/-- `put_balance` and `put_stake`. -/
def putAmount (obj : Map) (key account : String) (value : F64) : Map :=
  Json.insertField key
    (.obj (Json.insertField account (value.max (.finite 0)).toJson (mapMut obj key))) obj

def putBalance (obj : Map) (account : String) (value : F64) : Map :=
  putAmount obj "balances" account value

def putStake (obj : Map) (account : String) (value : F64) : Map :=
  putAmount obj "staked" account value

/-- A text field of the ledger, `genesis` when it is missing. -/
def headOf (obj : Map) (key : String) : String := ((obj.lookup key).bind Json.asStr).getD "genesis"

def heightOf (obj : Map) : UInt64 := ((obj.lookup "height").bind Json.asU64).getD 0

def amountLeaves (host : Host) (label : String) (amounts : Map) : List String :=
  amounts.map fun entry =>
    label ++ ":" ++ entry.1 ++ ":" ++ host.fixed 8 (.finite (entry.2.asF64.getD 0))

def leavesForRoot (host : Host) (ledger : Map) (policyHash : String) : List String :=
  (amountLeaves host "balance" (mapMut ledger "balances") ++
    amountLeaves host "staked" (mapMut ledger "staked") ++
    ["event_head:" ++ headOf ledger "event_head", "height:" ++ toString (heightOf ledger).toNat,
      "policy:" ++ policyHash]).insertionSort (· ≤ ·)

def computeGlobalRoot (host : Host) (ledger : Map) (policyHash : String) : String :=
  deterministicMerkleRoot host.toHost (leavesForRoot host ledger policyHash)

/-! ## Commits -/

/-- What a process finds outside the two files while it runs: the directive gate, the
policy hash, the clock at its readings, and which of its writes go through. -/
structure Surroundings where
  actionAllowed : String → Bool
  policyHash : String
  payloadMs : ℕ := 0
  eventMs : ℕ := 0
  rootMs : ℕ := 0
  eventWritten : Bool := true
  ledgerWritten : Bool := true

inductive CommitError where
  | eventAppendFailed
  | rootProgressionMismatch
  | ledgerStoreFailed
  deriving DecidableEq

structure Commit where
  ledger : Map
  kind : String
  payload : Json

/-- The part of an event that is hashed. -/
def eventBase (host : Host) (env : Surroundings) (commit : Commit) : Json :=
  Json.ofFields
    [("kind", .str (clean commit.kind 64)),
      ("height", .num (.posInt (heightOf commit.ledger + 1))),
      ("ts", .str (host.nowIso env.eventMs)),
      ("prev_event_hash", .str (headOf commit.ledger "event_head")),
      ("payload", commit.payload)]

def eventRow (host : Host) (env : Surroundings) (commit : Commit) : Json :=
  let base := eventBase host env commit
  Json.ofFields [("event_hash", .str (host.digest base)), ("event", base)]

/-- The ledger with the new height and event head, before its root is computed. -/
def advanced (host : Host) (env : Surroundings) (commit : Commit) : Map :=
  Json.insertField "event_head" (.str (host.digest (eventBase host env commit)))
    (Json.insertField "height" (.num (.posInt (heightOf commit.ledger + 1))) commit.ledger)

/-- The text of a field of a row of the root history. -/
def rootField (row : Json) (name : String) : Option String := (row.get? name).bind Json.asStr

/-- The row a commit adds to the root history. -/
def rootRow (host : Host) (env : Surroundings) (commit : Commit) : Json :=
  Json.ofFields
    [("height", .num (.posInt (heightOf commit.ledger + 1))),
      ("root", .str (computeGlobalRoot host (advanced host env commit) env.policyHash)),
      ("prev_root", .str (headOf (advanced host env commit) "root_head")),
      ("policy_hash", .str env.policyHash), ("ts", .str (host.nowIso env.rootMs))]

/-- The ledger a commit stores. -/
def committed (host : Host) (env : Surroundings) (commit : Commit) : Map :=
  let obj := advanced host env commit
  let obj := Json.insertField "root_head"
    (.str (computeGlobalRoot host (advanced host env commit) env.policyHash)) obj
  Json.insertField "root_history"
    (.arr (arrayMut obj "root_history" ++ [rootRow host env commit])) obj

/-- `commit_ledger`: an error after the row is written leaves the row. -/
def commitLedger (host : Host) (env : Surroundings) (files : Files) (commit : Commit) :
    Except CommitError Map × Files :=
  if !env.eventWritten then (.error .eventAppendFailed, files)
  else
    let files := { files with events := files.events ++ [eventRow host env commit] }
    let obj := advanced host env commit
    let expectedPrev :=
      ((arrayMut obj "root_history").getLast?.bind (rootField · "root")).getD "genesis"
    if expectedPrev ≠ headOf obj "root_head" then (.error .rootProgressionMismatch, files)
    else if !env.ledgerWritten then (.error .ledgerStoreFailed, files)
    else
      let ledger := committed host env commit
      (.ok ledger, { files with ledger := some ledger })

/-! ## Commands -/

/-- A command with its flags; a number flag is what it parses to. -/
inductive Command where
  | igniteBitcoin (apply : Bool) (seed : Option String)
  | tokenomics (name : String) (action agent : Option String) (amount : Option F64)
      (reason : Option String)
  | contribution (agent contributionType : Option String) (score reward stake slash : Option F64)
      (strict : Bool)
  | emission (height interval : Option UInt64) (initial : Option F64)
  | zkClaim (claimId commitment challenge publicInput : Option String) (strict : Bool)
  | deductNexusBalance (account : String) (amount : F64) (reason : String)
  /-- The row is the oracle's answer, which carries no event hash. -/
  | oracleQuery (query : Json)
  /-- A command that touches neither file. -/
  | report

section Commands

variable (host : Host) (env : Surroundings) (files : Files)

/-- `ignite-bitcoin`: a ledger that is there already is left alone. -/
def igniteBitcoin (apply : Bool) (seed : Option String) : Option Commit :=
  if apply && env.actionAllowed "tokenomics:ignite-bitcoin" && files.ledger.isNone then
    some {
      ledger := putStake (putBalance defaultLedger "organism:treasury" (.finite 1000000))
        "organism:treasury" (.finite 0)
      kind := "ignite_bitcoin"
      payload := Json.ofFields [("seed", .str (clean (seed.getD "genesis") 96))] }
  else none

/-- `stake`, `reward` and `slash`. -/
def tokenomicsUpdate (name : String) (action agent : Option String) (amount : Option F64)
    (reason : Option String) : Option Commit :=
  let action := (action.map fun v => RustStd.toAsciiLowercase (RustStd.trim v)).getD name
  let agent := clean (agent.getD "shadow:default") 120
  let amount := (amount.getD (.finite 10)).max (.finite 0)
  let reason := clean (reason.getD "proof_of_useful_intelligence") 220
  let ledger := loadLedger host files
  let gateOk := env.actionAllowed ("tokenomics:" ++ action ++ ":" ++ agent ++ ":" ++ reason)
  if !gateOk && action != "slash" then none
  else
    let balance := balanceOf ledger "balances" agent
    let nextBalance :=
      if action = "slash" then (F64.sub host.round balance amount).max (.finite 0)
      else F64.add host.round balance amount
    let stake := balanceOf ledger "staked" agent
    let nextStake :=
      if action = "stake" then F64.add host.round stake amount
      else if action = "slash" then (F64.sub host.round stake amount).max (.finite 0)
      else stake
    some {
      ledger := putStake (putBalance ledger agent nextBalance) agent nextStake
      kind := "tokenomics_update"
      payload := Json.ofFields
        [("action", .str action), ("agent", .str agent), ("amount", amount.toJson),
          ("reason", .str reason), ("balance_after", nextBalance.toJson),
          ("stake_after", nextStake.toJson)] }

/-- The reward for a score by the kind of contribution. -/
def rewardMultiplier (contributionType : String) : F64 :=
  host.round <| match contributionType with
    | "compute" => 1
    | "memory" => 11 / 10
    | "rl" => 12 / 10
    | "breakthrough" => 16 / 10
    | _ => 9 / 10

def contribution (agent contributionType : Option String) (score reward stake slash : Option F64)
    (strict : Bool) : Option Commit :=
  let agent := clean (agent.getD "shadow:default") 120
  let kind := RustStd.toAsciiLowercase (clean (contributionType.getD "compute") 24)
  let score := (score.getD (host.round (6 / 10))).clamp (.finite 0) (.finite 1)
  let reward := reward.getD (.finite (-1))
  let reward :=
    if reward.lt (.finite 0) then
      F64.mul host.round (F64.mul host.round score (.finite 100)) (rewardMultiplier host kind)
    else reward
  let stake := (stake.getD (F64.mul host.round reward (.finite (1 / 2)))).max (.finite 0)
  let slash := (slash.getD (.finite 0)).max (.finite 0)
  let gateOk := env.actionAllowed
    ("tokenomics:contribution:" ++ agent ++ ":" ++ kind ++ ":" ++ host.fixed 4 score)
  if strict && !gateOk then none
  else
    let ledger := loadLedger host files
    let update (key : String) (gain : F64) : F64 :=
      (F64.sub host.round (F64.add host.round (balanceOf ledger key agent) gain) slash).max
        (.finite 0)
    some {
      ledger := putStake (putBalance ledger agent (update "balances" reward)) agent
        (update "staked" stake)
      kind := "useful_contribution"
      payload := Json.ofFields
        [("type", .str "useful_intelligence_contribution"), ("ts", .str (host.nowIso env.payloadMs)),
          ("agent", .str agent), ("contribution_type", .str kind), ("score", score.toJson),
          ("reward", reward.toJson), ("stake", stake.toJson), ("slash", slash.toJson)] }

/-- `epoch as i32`. -/
def asI32 (n : UInt64) : ℤ :=
  if n.toNat % 2 ^ 32 < 2 ^ 31 then n.toNat % 2 ^ 32 else n.toNat % 2 ^ 32 - 2 ^ 32

def emission (height interval : Option UInt64) (initial : Option F64) : Option Commit :=
  if !env.actionAllowed "tokenomics:emission" then none
  else
    let height := height.getD 0
    let interval := max (interval.getD 210000) 1
    let initial := (initial.getD (.finite 50)).max (.finite 0)
    let epoch := height / interval
    let issuance := F64.div host.round initial (host.round ((2 : ℚ) ^ asI32 epoch))
    some {
      ledger := Json.insertField "emission"
        (Json.ofFields
          [("halving_interval", .num (.posInt interval)), ("initial_issuance", initial.toJson),
            ("epoch", .num (.posInt epoch)), ("issuance_per_epoch", issuance.toJson),
            ("next_halving_height", .num (.posInt ((epoch + 1) * interval)))])
        (loadLedger host files)
      kind := "emission_update"
      payload := Json.ofFields
        [("height", .num (.posInt height)), ("epoch", .num (.posInt epoch)),
          ("issuance", issuance.toJson)] }

def zkClaim (claimId commitment challenge publicInput : Option String) (strict : Bool) :
    Option Commit :=
  if !env.actionAllowed "tokenomics:zk-claim" then none
  else
    let claimId := clean (claimId.getD "claim:unknown") 140
    let commitment := clean (commitment.getD "") 256
    let challenge := clean (challenge.getD "") 256
    let publicInput := clean (publicInput.getD "directive-compliant") 320
    let expected := host.sha256HexStr (commitment ++ ":" ++ publicInput)
    let verified := !commitment.isEmpty && !challenge.isEmpty && eqIgnoreAsciiCase challenge expected
    let ledger := loadLedger host files
    some {
      ledger := Json.insertField "zk_claims"
        (.obj (Json.insertField claimId
          (Json.ofFields
            [("commitment", .str commitment), ("challenge", .str challenge),
              ("public_input", .str publicInput), ("expected_challenge", .str expected),
              ("verified", .bool verified), ("strict", .bool strict),
              ("ts", .str (host.nowIso env.payloadMs))])
          (mapMut ledger "zk_claims"))) ledger
      kind := "zk_claim"
      payload := Json.ofFields
        [("claim_id", .str claimId), ("verified", .bool verified), ("strict", .bool strict)] }

def deductNexusBalance (account : String) (amount : F64) (reason : String) : Option Commit :=
  let ledger := loadLedger host files
  let current := balanceOf ledger "balances" account
  if current.lt amount then none
  else
    some {
      ledger := putBalance ledger account (F64.sub host.round current amount)
      kind := "nexus_debit"
      payload := Json.ofFields
        [("account", .str (clean account 120)), ("amount", amount.toJson),
          ("reason", .str (clean reason 220))] }

/-- The commit a command asks for, if it gets that far. -/
def commitOf : Command → Option Commit
  | .igniteBitcoin apply seed => igniteBitcoin env files apply seed
  | .tokenomics name action agent amount reason =>
    tokenomicsUpdate host env files name action agent amount reason
  | .contribution agent kind score reward stake slash strict =>
    contribution host env files agent kind score reward stake slash strict
  | .emission height interval initial => emission host env files height interval initial
  | .zkClaim claimId commitment challenge publicInput strict =>
    zkClaim host env files claimId commitment challenge publicInput strict
  | .deductNexusBalance account amount reason => deductNexusBalance host files account amount reason
  | .oracleQuery _ | .report => none

end Commands

/-- A process: what it does and what it finds around it. -/
structure Request where
  command : Command
  env : Surroundings

/-- The files after a process. -/
def step (host : Host) (files : Files) (request : Request) : Files :=
  match request.command with
  | .oracleQuery query =>
    if request.env.eventWritten then
      { files with events := files.events ++ [Json.ofFields [("oracle_query", query)]] }
    else files
  | command =>
    match commitOf host request.env files command with
    | none => files
    | some commit => (commitLedger host request.env files commit).2

/-! ## The files in step -/

/-- The rows of the log that carry an event hash. -/
def hashedRows (events : List Json) : List Json :=
  events.filter fun row => (row.get? "event_hash").isSome

def rowHash (row : Json) : String := ((row.get? "event_hash").bind Json.asStr).getD ""

def eventField (row : Json) (name : String) : Option Json :=
  (row.get? "event").bind fun event => event.get? name

def rowPrev (row : Json) : String := ((eventField row "prev_event_hash").bind Json.asStr).getD ""

def rootOf (row : Json) : String := (rootField row "root").getD "genesis"

def prevRootOf (row : Json) : String := (rootField row "prev_root").getD ""

def policyOf (row : Json) : String := (rootField row "policy_hash").getD ""

/-- **The log and the heads of the ledger agree**, and the last root is that of the ledger as
it was written.  Heights are counted as the `u64` they are. -/
structure Chained (host : Host) (files : Files) : Prop where
  heights : ∀ {i row}, (hashedRows files.events)[i]? = some row →
    eventField row "height" = some (Json.ofNat (i + 1))
  linked : Chain.Linked rowHash rowPrev "genesis" (hashedRows files.events)
  head : headOf (loadLedger host files) "event_head" =
    Chain.tip rowHash "genesis" (hashedRows files.events)
  height : heightOf (loadLedger host files) = UInt64.ofNat (hashedRows files.events).length
  counted : (arrayMut (loadLedger host files) "root_history").length = (hashedRows files.events).length
  progression : Chain.Linked rootOf prevRootOf "genesis" (arrayMut (loadLedger host files) "root_history")
  rootHead : headOf (loadLedger host files) "root_head" =
    Chain.tip rootOf "genesis" (arrayMut (loadLedger host files) "root_history")
  written : ∀ {row}, (arrayMut (loadLedger host files) "root_history").getLast? = some row →
    headOf (loadLedger host files) "root_head" =
      computeGlobalRoot host (files.ledger.getD defaultLedger) (policyOf row)

/-- **The log and the ledger agree**: the last root is that of the ledger as it is read. -/
structure InStep (host : Host) (files : Files) : Prop extends Chained host files where
  root : ∀ {row}, (arrayMut (loadLedger host files) "root_history").getLast? = some row →
    headOf (loadLedger host files) "root_head" =
      computeGlobalRoot host (loadLedger host files) (policyOf row)

theorem chained_empty (host : Host) : Chained host {} where
  heights h := by cases h
  linked := trivial
  head := (by decide : headOf defaultLedger "event_head" = "genesis")
  height := (by decide : heightOf defaultLedger = 0)
  counted := (by decide : (arrayMut defaultLedger "root_history").length = 0)
  progression := trivial
  rootHead := (by decide : headOf defaultLedger "root_head" = "genesis")
  written h := by cases h

theorem inStep_empty (host : Host) : InStep host {} where
  toChained := chained_empty host
  root h := by cases h

/-- The fields of a ledger that only a commit writes. -/
def headKeys : List String := ["event_head", "root_head", "height", "root_history"]

/-- Every command edits the loaded ledger beside its heads. -/
def Keeps (ledger ledger' : Map) : Prop := ∀ key ∈ headKeys, ledger'.lookup key = ledger.lookup key

theorem Keeps.insertField {ledger ledger' : Map} (h : Keeps ledger ledger') {key : String}
    {value : Json} (hkey : key ∉ headKeys) : Keeps ledger (Json.insertField key value ledger') := by
  intro k hk
  rw [Json.lookup_insertField_ne (by rintro rfl; exact hkey hk)]
  exact h k hk

theorem Keeps.refl (ledger : Map) : Keeps ledger ledger := fun _ _ => rfl

theorem Keeps.putBalance {ledger ledger' : Map} (h : Keeps ledger ledger') {account : String}
    {value : F64} : Keeps ledger (putBalance ledger' account value) :=
  h.insertField (by decide)

theorem Keeps.putStake {ledger ledger' : Map} (h : Keeps ledger ledger') {account : String}
    {value : F64} : Keeps ledger (putStake ledger' account value) :=
  h.insertField (by decide)

/-- **What a command commits** differs from the ledger it loaded beside the heads only. -/
theorem commitOf_keeps {host : Host} {env : Surroundings} {files : Files} {command : Command}
    {commit : Commit} (h : commitOf host env files command = some commit) :
    Keeps (loadLedger host files) commit.ledger := by
  cases command with
  | igniteBitcoin apply seed =>
    simp only [commitOf, igniteBitcoin] at h
    split at h
    · rename_i hnone
      cases h
      have : loadLedger host files = defaultLedger := by
        rw [Bool.and_eq_true, Option.isNone_iff_eq_none] at hnone
        rw [loadLedger, hnone.2]
      exact this ▸ (Keeps.refl _).putBalance.putStake
    · cases h
  | tokenomics name action agent amount reason =>
    simp only [commitOf, tokenomicsUpdate] at h
    split at h
    · cases h
    · cases h
      exact (Keeps.refl _).putBalance.putStake
  | contribution agent kind score reward stake slash strict =>
    simp only [commitOf, contribution] at h
    split at h
    · cases h
    · cases h
      exact (Keeps.refl _).putBalance.putStake
  | emission height interval initial =>
    simp only [commitOf, emission] at h
    split at h
    · cases h
    · cases h
      exact (Keeps.refl _).insertField (by decide)
  | zkClaim claimId commitment challenge publicInput strict =>
    simp only [commitOf, zkClaim] at h
    split at h
    · cases h
    · cases h
      exact (Keeps.refl _).insertField (by decide)
  | deductNexusBalance account amount reason =>
    simp only [commitOf, deductNexusBalance] at h
    split at h
    · cases h
    · cases h
      exact (Keeps.refl _).putBalance
  | oracleQuery query => cases h
  | report => cases h

section Keeps

variable {ledger ledger' : Map} (h : Keeps ledger ledger')
include h

theorem Keeps.headOf {key : String} (hkey : key ∈ headKeys) :
    headOf ledger' key = headOf ledger key := by
  rw [TokenLedger.headOf, h key hkey, TokenLedger.headOf]

theorem Keeps.heightOf : heightOf ledger' = heightOf ledger := by
  rw [TokenLedger.heightOf, h "height" (by decide), TokenLedger.heightOf]

theorem Keeps.rootHistory : arrayMut ledger' "root_history" = arrayMut ledger "root_history" := by
  rw [arrayMut, h "root_history" (by decide), arrayMut]

end Keeps

/-! ## What a commit writes -/

section Commit

variable {host : Host} {env : Surroundings} {commit : Commit}

theorem lookup_advanced {key : String} (h : key ≠ "event_head") (h' : key ≠ "height") :
    (advanced host env commit).lookup key = commit.ledger.lookup key := by
  rw [advanced, Json.lookup_insertField_ne h, Json.lookup_insertField_ne h']

theorem lookup_committed {key : String} (h : key ≠ "root_head") (h' : key ≠ "root_history") :
    (committed host env commit).lookup key = (advanced host env commit).lookup key := by
  rw [committed, Json.lookup_insertField_ne h', Json.lookup_insertField_ne h]

theorem headOf_advanced_event : headOf (advanced host env commit) "event_head" =
    host.digest (eventBase host env commit) := by
  rw [headOf, advanced, Json.lookup_insertField_same]
  rfl

theorem heightOf_advanced :
    heightOf (advanced host env commit) = heightOf commit.ledger + 1 := by
  rw [heightOf, advanced, Json.lookup_insertField_ne (by decide), Json.lookup_insertField_same]
  rfl

/-- The root is computed from fields that storing the root does not touch. -/
theorem computeGlobalRoot_committed (policyHash : String) :
    computeGlobalRoot host (committed host env commit) policyHash =
      computeGlobalRoot host (advanced host env commit) policyHash := by
  have hmap (key : String) (h : key ≠ "root_head") (h' : key ≠ "root_history") :
      mapMut (committed host env commit) key = mapMut (advanced host env commit) key := by
    rw [mapMut, lookup_committed h h', mapMut]
  have hhead : headOf (committed host env commit) "event_head" =
      headOf (advanced host env commit) "event_head" := by
    rw [headOf, lookup_committed (by decide) (by decide), headOf]
  have hheight : heightOf (committed host env commit) = heightOf (advanced host env commit) := by
    rw [heightOf, lookup_committed (by decide) (by decide), heightOf]
  rw [computeGlobalRoot, leavesForRoot, hmap "balances" (by decide) (by decide),
    hmap "staked" (by decide) (by decide), hhead, hheight, computeGlobalRoot, leavesForRoot]

theorem arrayMut_committed : arrayMut (committed host env commit) "root_history" =
    arrayMut commit.ledger "root_history" ++ [rootRow host env commit] := by
  have hobj : arrayMut (Json.insertField "root_head"
      (.str (computeGlobalRoot host (advanced host env commit) env.policyHash))
      (advanced host env commit)) "root_history" = arrayMut commit.ledger "root_history" := by
    rw [arrayMut, Json.lookup_insertField_ne (by decide), lookup_advanced (by decide) (by decide),
      arrayMut]
  rw [arrayMut, committed, Json.lookup_insertField_same, hobj]

theorem headOf_committed_root : headOf (committed host env commit) "root_head" =
    computeGlobalRoot host (advanced host env commit) env.policyHash := by
  rw [headOf, committed, Json.lookup_insertField_ne (by decide), Json.lookup_insertField_same]
  rfl

theorem get?_eventRow_hash : (eventRow host env commit).get? "event_hash" =
    some (.str (host.digest (eventBase host env commit))) :=
  Json.get?_ofFields (f := ("event_hash", _)) (by simp) (List.mem_cons_self)

theorem rowHash_eventRow :
    rowHash (eventRow host env commit) = host.digest (eventBase host env commit) := by
  rw [rowHash, get?_eventRow_hash]
  rfl

theorem eventField_eventRow {name : String} :
    eventField (eventRow host env commit) name = (eventBase host env commit).get? name := by
  have : (eventRow host env commit).get? "event" = some (eventBase host env commit) :=
    Json.get?_ofFields (f := ("event", _)) (by simp) (List.mem_cons_of_mem _ List.mem_cons_self)
  rw [eventField, this]
  rfl

theorem height_eventRow : eventField (eventRow host env commit) "height" =
    some (.num (.posInt (heightOf commit.ledger + 1))) := by
  rw [eventField_eventRow]
  exact Json.get?_ofFields (f := ("height", _)) (by simp) (by simp)

theorem rowPrev_eventRow :
    rowPrev (eventRow host env commit) = headOf commit.ledger "event_head" := by
  have : (eventBase host env commit).get? "prev_event_hash" =
      some (.str (headOf commit.ledger "event_head")) :=
    Json.get?_ofFields (f := ("prev_event_hash", _)) (by simp) (by simp)
  rw [rowPrev, eventField_eventRow, this]
  rfl

theorem rootOf_rootRow : rootOf (rootRow host env commit) =
    computeGlobalRoot host (advanced host env commit) env.policyHash := by
  have hget : (rootRow host env commit).get? "root" =
      some (.str (computeGlobalRoot host (advanced host env commit) env.policyHash)) :=
    Json.get?_ofFields (f := ("root", _)) (by simp) (by simp)
  rw [rootOf, rootField, hget]
  rfl

theorem prevRootOf_rootRow :
    prevRootOf (rootRow host env commit) = headOf (advanced host env commit) "root_head" := by
  have hget : (rootRow host env commit).get? "prev_root" =
      some (.str (headOf (advanced host env commit) "root_head")) :=
    Json.get?_ofFields (f := ("prev_root", _)) (by simp) (by simp)
  rw [prevRootOf, rootField, hget]
  rfl

theorem policyOf_rootRow : policyOf (rootRow host env commit) = env.policyHash := by
  have hget : (rootRow host env commit).get? "policy_hash" = some (.str env.policyHash) :=
    Json.get?_ofFields (f := ("policy_hash", _)) (by simp) (by simp)
  rw [policyOf, rootField, hget]
  rfl

end Commit

/-! ## Reading back -/

section Reread

variable (f : ℚ → ℚ) (ledger : Map) (key : String)

@[simp] theorem rootField_reread (row : Json) (name : String) :
    rootField (row.reread f) name = rootField row name := by
  rw [rootField, Json.get?_reread, Option.bind_map, rootField]
  exact congrArg _ (funext fun value => Json.asStr_reread f value)

@[simp] theorem headOf_reread : headOf (Json.rereadFields f ledger) key = headOf ledger key := by
  rw [headOf, Json.lookup_rereadFields, Option.bind_map, headOf]
  exact congrArg (Option.getD · _) (congrArg _ (funext fun value => Json.asStr_reread f value))

@[simp] theorem heightOf_reread : heightOf (Json.rereadFields f ledger) = heightOf ledger := by
  rw [heightOf, Json.lookup_rereadFields, Option.bind_map, heightOf]
  exact congrArg (Option.getD · _) (congrArg _ (funext fun value => Json.asU64_reread f value))

theorem arrayMut_reread : arrayMut (Json.rereadFields f ledger) key =
    (arrayMut ledger key).map (Json.reread f) := by
  rw [arrayMut, Json.lookup_rereadFields, arrayMut]
  rcases ledger.lookup key with _ | _ | _ | (_ | _ | _) | _ | rows | _ <;> try rfl
  exact Json.rereadItems_eq_map f rows

theorem mapMut_reread : mapMut (Json.rereadFields f ledger) key =
    Json.rereadFields f (mapMut ledger key) := by
  rw [mapMut, Json.lookup_rereadFields, mapMut]
  rcases ledger.lookup key with _ | _ | _ | (_ | _ | _) | _ | _ | _ <;> rfl

end Reread

/-- Every amount prints to eight decimals as it does once it is read back. -/
def ReadBack (host : Host) (ledger : Map) : Prop :=
  ∀ key ∈ ["balances", "staked"], ∀ entry ∈ mapMut ledger key,
    host.fixed 8 (.finite ((entry.2.reread host.reread).asF64.getD 0)) =
      host.fixed 8 (.finite (entry.2.asF64.getD 0))

/-- The new heads are no amounts. -/
theorem ReadBack.committed {host : Host} {env : Surroundings} {commit : Commit}
    (h : ReadBack host commit.ledger) : ReadBack host (committed host env commit) := by
  intro key hkey
  have hmap : mapMut (TokenLedger.committed host env commit) key = mapMut commit.ledger key := by
    have hne : key ≠ "root_head" ∧ key ≠ "root_history" ∧ key ≠ "event_head" ∧ key ≠ "height" := by
      revert key
      decide
    rw [mapMut, lookup_committed hne.1 hne.2.1, lookup_advanced hne.2.2.1 hne.2.2.2, mapMut]
  rw [hmap]
  exact h key hkey

theorem ReadBack.computeGlobalRoot {host : Host} {ledger : Map} (h : ReadBack host ledger)
    (policyHash : String) : computeGlobalRoot host (Json.rereadFields host.reread ledger) policyHash =
      computeGlobalRoot host ledger policyHash := by
  have hleaves {key label : String} (hkey : key ∈ ["balances", "staked"]) :
      amountLeaves host label (mapMut (Json.rereadFields host.reread ledger) key) =
        amountLeaves host label (mapMut ledger key) := by
    rw [mapMut_reread, Json.rereadFields_eq_map, amountLeaves, List.map_map, amountLeaves]
    exact List.map_congr_left fun entry hentry => congrArg _ (h key hkey entry hentry)
  rw [TokenLedger.computeGlobalRoot, leavesForRoot, hleaves (by simp), hleaves (by simp), headOf_reread,
    heightOf_reread, TokenLedger.computeGlobalRoot, leavesForRoot]

/-! ## Steps and runs -/

section Steps

variable {host : Host} {env : Surroundings} {files : Files} {commit : Commit}

theorem hashedRows_append_eventRow {events : List Json} :
    hashedRows (events ++ [eventRow host env commit]) =
      hashedRows events ++ [eventRow host env commit] := by
  rw [hashedRows, List.filter_append, List.filter_singleton, get?_eventRow_hash]
  rfl

/-- A row the ledger knows nothing of takes the files apart. -/
theorem Chained.torn (h : Chained host files) :
    ¬ Chained host { files with events := files.events ++ [eventRow host env commit] } := by
  intro htorn
  have hcounted := htorn.counted
  rw [hashedRows_append_eventRow, List.length_append] at hcounted
  have hbefore : (arrayMut (loadLedger host files) "root_history").length =
      (hashedRows files.events).length + 1 := hcounted
  rw [h.counted] at hbefore
  omega

/-- Files in step never fail the check of the root progression. -/
theorem Chained.progresses (h : Chained host files)
    (hkeeps : Keeps (loadLedger host files) commit.ledger) :
    ((arrayMut (advanced host env commit) "root_history").getLast?.bind (rootField · "root")).getD
      "genesis" = headOf (advanced host env commit) "root_head" := by
  have hroots : arrayMut (advanced host env commit) "root_history" =
      arrayMut (loadLedger host files) "root_history" := by
    rw [arrayMut, lookup_advanced (by decide) (by decide), ← arrayMut, hkeeps.rootHistory]
  have hhead : headOf (advanced host env commit) "root_head" =
      headOf (loadLedger host files) "root_head" := by
    rw [headOf, lookup_advanced (by decide) (by decide), ← headOf, hkeeps.headOf (by decide)]
  rw [hroots, hhead, h.rootHead]
  generalize arrayMut (loadLedger host files) "root_history" = roots
  induction roots using List.reverseRecOn with
  | nil => rfl
  | append_singleton roots row _ => simp [rootOf]

/-- A commit that goes through keeps the files chained. -/
theorem Chained.stored (h : Chained host files)
    (hkeeps : Keeps (loadLedger host files) commit.ledger) :
    Chained host
      { ledger := some (committed host env commit)
        events := files.events ++ [eventRow host env commit] } := by
  have hheight : heightOf commit.ledger = UInt64.ofNat (hashedRows files.events).length :=
    hkeeps.heightOf.trans h.height
  have hroots : arrayMut (Json.rereadFields host.reread (committed host env commit)) "root_history" =
      (arrayMut (loadLedger host files) "root_history").map (Json.reread host.reread) ++
        [(rootRow host env commit).reread host.reread] := by
    rw [arrayMut_reread, arrayMut_committed, hkeeps.rootHistory, List.map_append]
    rfl
  constructor
  · intro i row hrow
    rw [hashedRows_append_eventRow] at hrow
    obtain hlt | rfl | hgt := lt_trichotomy i (hashedRows files.events).length
    · rw [List.getElem?_append_left hlt] at hrow
      exact h.heights hrow
    · rw [List.getElem?_concat_length, Option.some.injEq] at hrow
      rw [← hrow, height_eventRow, hheight, Json.ofNat, UInt64.ofNat_add]
      rfl
    · rw [List.getElem?_eq_none (by simp; omega)] at hrow
      cases hrow
  · rw [hashedRows_append_eventRow, Chain.Linked.concat_iff]
    refine ⟨h.linked, ?_⟩
    rw [rowPrev_eventRow, hkeeps.headOf (by decide), h.head]
  · rw [hashedRows_append_eventRow, Chain.tip_append_singleton, rowHash_eventRow, loadLedger,
      headOf_reread, headOf, lookup_committed (by decide) (by decide), ← headOf, headOf_advanced_event]
  · rw [hashedRows_append_eventRow, loadLedger, heightOf_reread, heightOf,
      lookup_committed (by decide) (by decide), ← heightOf, heightOf_advanced, hheight,
      List.length_append, UInt64.ofNat_add]
    rfl
  · rw [hashedRows_append_eventRow, loadLedger, hroots, List.length_append, List.length_append,
      List.length_map, h.counted]
    rfl
  · rw [loadLedger, hroots, Chain.Linked.concat_iff, Chain.Linked.map_iff (by simp [rootOf])
      (by simp [prevRootOf]), Chain.tip_map (by simp [rootOf])]
    refine ⟨h.progression, ?_⟩
    rw [prevRootOf, rootField_reread, ← prevRootOf, prevRootOf_rootRow, headOf,
      lookup_advanced (by decide) (by decide), ← headOf, hkeeps.headOf (by decide), h.rootHead]
  · rw [loadLedger, hroots, Chain.tip_append_singleton, rootOf, rootField_reread, ← rootOf,
      rootOf_rootRow, headOf_reread, headOf_committed_root]
  · intro row hrow
    rw [loadLedger, hroots, List.getLast?_concat, Option.some.injEq] at hrow
    rw [loadLedger, headOf_reread, headOf_committed_root, ← hrow, policyOf, rootField_reread, ← policyOf,
      policyOf_rootRow, Option.getD_some, computeGlobalRoot_committed]

/-- The command appends its event row and fails to store the ledger. -/
def Torn (host : Host) (files : Files) (request : Request) : Prop :=
  (commitOf host request.env files request.command).isSome = true ∧
    request.env.eventWritten = true ∧ request.env.ledgerWritten = false

instance (host : Host) (files : Files) (request : Request) : Decidable (Torn host files request) :=
  inferInstanceAs (Decidable (_ ∧ _ ∧ _))

/-- A row without an event hash is no row of the chain. -/
theorem Chained.oracle (h : Chained host files) (query : Json) :
    Chained host { files with events := files.events ++ [Json.ofFields [("oracle_query", query)]] } := by
  have hrows : hashedRows (files.events ++ [Json.ofFields [("oracle_query", query)]]) =
      hashedRows files.events := by
    rw [hashedRows, List.filter_append, List.filter_singleton]
    simp [Json.ofFields, Json.insertField, Json.get?, List.lookup, hashedRows]
  exact {
    heights := by rw [hrows]; exact h.heights
    linked := by rw [hrows]; exact h.linked
    head := by rw [hrows]; exact h.head
    height := by rw [hrows]; exact h.height
    counted := by rw [hrows]; exact h.counted
    progression := h.progression
    rootHead := h.rootHead
    written := h.written }

/-- **What one command does** to files whose log holds a chain: it leaves the ledger alone and
the chain intact, or its row is written, and then the ledger with it unless the command is torn. -/
theorem Chained.step_cases {rows : List Json} (h : Chained host { files with events := rows })
    (request : Request) :
    (¬ Torn host files request ∧
        ∃ added, step host files request = { files with events := files.events ++ added } ∧
          Chained host { files with events := rows ++ added }) ∨
      ∃ commit, commitOf host request.env files request.command = some commit ∧
        request.env.eventWritten = true ∧ Keeps (loadLedger host files) commit.ledger ∧
        (Torn host files request ∧ step host files request =
            { files with events := files.events ++ [eventRow host request.env commit] } ∨
          ¬ Torn host files request ∧ step host files request =
            { ledger := some (committed host request.env commit)
              events := files.events ++ [eventRow host request.env commit] }) := by
  obtain ⟨command, env⟩ := request
  have hsame : Chained host { files with events := rows ++ [] } := by rwa [List.append_nil]
  cases hcommit : commitOf host env files command with
  | some commit =>
    have hkeeps := commitOf_keeps hcommit
    have hroot := @Chained.progresses host env _ commit h hkeeps
    have hstep : step host files { command, env } = (commitLedger host env files commit).2 := by
      cases command with
      | oracleQuery query => cases hcommit
      | _ => simp only [step, hcommit]
    cases hevent : env.eventWritten with
    | false =>
      refine .inl ⟨by simp [Torn, hevent], [], ?_, hsame⟩
      rw [hstep, commitLedger, hevent, if_pos (by rfl), List.append_nil]
    | true =>
      refine .inr ⟨commit, rfl, rfl, hkeeps, ?_⟩
      rw [hstep, commitLedger, hevent, if_neg (by simp)]
      dsimp only
      rw [if_neg (not_not.mpr hroot)]
      cases hledger : env.ledgerWritten with
      | false => exact .inl ⟨⟨by simp [hcommit], hevent, hledger⟩, rfl⟩
      | true => exact .inr ⟨by simp [Torn, hledger], rfl⟩
  | none =>
    refine .inl ⟨by simp [Torn, hcommit], ?_⟩
    cases command with
    | oracleQuery query =>
      simp only [step]
      split
      · exact ⟨_, rfl, h.oracle query⟩
      · exact ⟨[], by rw [List.append_nil], hsame⟩
    | _ => exact ⟨[], by simp only [step, hcommit, List.append_nil], hsame⟩

/-- **One command** keeps the files chained exactly when it is not torn. -/
theorem chained_step_iff {request : Request} (h : Chained host files) :
    Chained host (step host files request) ↔ ¬ Torn host files request := by
  obtain ⟨hnot, added, hstep, hadded⟩ | ⟨commit, -, -, hkeeps, ⟨htorn, hstep⟩ | ⟨hnot, hstep⟩⟩ :=
    h.step_cases request
  · exact iff_of_true (hstep ▸ hadded) hnot
  · exact iff_of_false (hstep ▸ h.torn) (not_not.mpr htorn)
  · exact iff_of_true (hstep ▸ h.stored hkeeps) hnot

/-- The amounts a command commits are read back as they were printed. -/
def Legible (host : Host) (files : Files) (request : Request) : Prop :=
  ∀ commit, commitOf host request.env files request.command = some commit →
    request.env.eventWritten = true → ReadBack host commit.ledger

/-- **One command** keeps the files in step when it is not torn and its amounts are read back. -/
theorem InStep.step (h : InStep host files) {request : Request}
    (hg : ¬ Torn host files request ∧ Legible host files request) :
    InStep host (step host files request) where
  toChained := (chained_step_iff h.toChained).mpr hg.1
  root := by
    obtain ⟨-, added, hstep, -⟩ | ⟨commit, hcommit, hevent, hkeeps, ⟨htorn, -⟩ | ⟨-, hstep⟩⟩ :=
      h.toChained.step_cases request
    · rw [hstep]
      exact h.root
    · exact absurd htorn hg.1
    · intro row hrow
      rw [hstep] at hrow ⊢
      rw [(h.toChained.stored hkeeps).written hrow]
      exact ((hg.2 commit hcommit hevent).committed.computeGlobalRoot _).symm

end Steps

/-- **When the log and the ledger stay in step**: in every state of a run of which no command
writes its event row and fails to store the ledger, and in which the amounts that are committed
print as they do once they are read back. -/
theorem inStep_throughout (host : Host) (requests : List Request)
    (h : Meets (step host) (fun files request => ¬ Torn host files request ∧ Legible host files request)
      {} requests) (n : ℕ) : InStep host (before (step host) {} requests n) :=
  h.before (fun _ _ h hg => h.step hg) (inStep_empty host) n

/-- The heads of the ledger agree with the log less so many of its rows. -/
def ChainedBut (host : Host) (files : Files) (lost : ℕ) : Prop :=
  ∃ rows, rows.Sublist files.events ∧ files.events.length = rows.length + lost ∧
    Chained host { files with events := rows }

theorem ChainedBut.step {host : Host} {files : Files} {lost : ℕ} (h : ChainedBut host files lost)
    (request : Request) : ChainedBut host (step host files request)
      (lost + if Torn host files request then 1 else 0) := by
  obtain ⟨rows, hsub, hlength, hrows⟩ := h
  obtain ⟨hnot, added, hstep, hadded⟩ | ⟨commit, -, -, hkeeps, ⟨htorn, hstep⟩ | ⟨hnot, hstep⟩⟩ :=
    hrows.step_cases request
  · rw [if_neg hnot, hstep]
    exact ⟨_, hsub.append_right _, by simp [hlength]; omega, hadded⟩
  · -- the row stays in the log and the ledger does not know of it
    rw [if_pos htorn, hstep]
    exact ⟨rows, hsub.trans (List.sublist_append_left _ _), by simp [hlength]; omega, hrows⟩
  · rw [if_neg hnot, hstep]
    exact ⟨_, hsub.append_right _, by simp [hlength]; omega, hrows.stored hkeeps⟩

/-- How many commands of a run are torn. -/
def tornCount (host : Host) : Files → List Request → ℕ :=
  tally (step host) fun files request => if Torn host files request then 1 else 0

/-- **What a torn run comes to**: the heads of the ledger agree with the log less one row for each torn
command, the last root is that of the ledger as it was written, and no command finds the root
progression broken. -/
theorem chained_but_torn (host : Host) (requests : List Request) :
    ChainedBut host (run (step host) {} requests) (tornCount host {} requests) ∧
      ∀ env command commit, commitOf host env (run (step host) {} requests) command = some commit →
        (commitLedger host env (run (step host) {} requests) commit).1 ≠ .error .rootProgressionMismatch := by
  have hrun : ∀ (requests : List Request) (files : Files) (lost : ℕ), ChainedBut host files lost →
      ChainedBut host (run (step host) files requests) (lost + tornCount host files requests) := by
    intro requests
    induction requests with
    | nil => exact fun files lost h => h
    | cons request requests ih =>
      intro files lost h
      rw [run_cons, tornCount, tally, ← Nat.add_assoc]
      exact ih _ _ (h.step request)
  have hlast := hrun requests {} 0 ⟨[], .slnil, rfl, chained_empty host⟩
  rw [Nat.zero_add] at hlast
  refine ⟨hlast, fun env command commit hcommit hbroken => ?_⟩
  obtain ⟨rows, -, -, h⟩ := hlast
  have hroot := @Chained.progresses host env _ commit h (commitOf_keeps hcommit)
  unfold commitLedger at hbroken
  cases hevent : env.eventWritten <;> cases hledger : env.ledgerWritten <;> simp [hevent, hledger, hroot] at hbroken

/-- A host for runs on concrete inputs, where one float is not read as it was printed. -/
def plainHost : Host := { V8Kernel.plainHost with
  round := .finite
  reread := fun q => if q = 1 / 10 then 1 / 5 else q
  fixed := fun _ x => match x with
    | .finite q => pointed q
    | .inf _ => "inf"
    | .nan => "NaN" }

def ignition (ledgerWritten : Bool) : Request where
  command := .igniteBitcoin true none
  env := { actionAllowed := fun _ => true, policyHash := "p", ledgerWritten }

def tornIgnition : Request := ignition false

def stakeTen : Request where
  command := .tokenomics "stake" none (some "a") none none
  env := { actionAllowed := fun _ => true, policyHash := "p" }

instance (host : Host) (ledger : Map) : Decidable (ReadBack host ledger) :=
  inferInstanceAs (Decidable (∀ key ∈ ["balances", "staked"], ∀ entry ∈ mapMut ledger key, _ = _))

/-- An ignition and a stake, both of which are stored. -/
theorem stake_inStep : InStep plainHost (before (step plainHost) {} [ignition true, stakeTen] 2) := by
  have hfirst : ∀ commit ∈ commitOf plainHost (ignition true).env {} (ignition true).command,
      ReadBack plainHost commit.ledger := by
    decide +kernel
  have hnext : ∀ commit ∈ commitOf plainHost stakeTen.env (step plainHost {} (ignition true)) stakeTen.command,
      ReadBack plainHost commit.ledger := by
    decide +kernel
  have hnot (files : Files) (request : Request) (h : request.env.ledgerWritten = true) :
      ¬ Torn plainHost files request := fun htorn => Bool.eq_false_iff.mp htorn.2.2 h
  exact inStep_throughout plainHost [ignition true, stakeTen]
    ⟨⟨hnot _ _ rfl, fun commit h _ => hfirst commit h⟩, ⟨hnot _ _ rfl, fun commit h _ => hnext commit h⟩, trivial⟩ 2

/-- The row of a torn commit stands in the log and in no ledger. -/
theorem tornIgnition_out_of_step : ¬ ∀ (host : Host) (requests : List Request) (n : ℕ),
    InStep host (before (step host) {} requests n) := by
  intro h
  have hfirst : InStep plainHost (step plainHost {} tornIgnition) := h plainHost [tornIgnition] 1
  exact (chained_step_iff (chained_empty plainHost)).mp hfirst.toChained ⟨rfl, rfl, rfl⟩

end Protheus.Network.TokenLedger
