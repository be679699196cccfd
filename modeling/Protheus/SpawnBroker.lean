import Protheus.Lib.SharedFile
import Protheus.V8Kernel

/-!
The spawn broker of `spawn_broker.rs`: modules ask for cells of one pool.

The allocations stand in one file.  A command loads the file, drops what has expired,
works out what it may grant, and saves; nothing keeps another command from saving in
between.  A grant can therefore rest on allocations that are no longer there, and an
allocation can be lost.  But a command saves all of what it loaded, with its own change
in it, so the stored allocations never go over the pool: `stored_within_pool`.
-/

namespace Protheus.SpawnBroker

/-- The clock's texts: `parse_iso_ms`, `from_timestamp_millis` with `to_rfc3339`, and
`now_iso` at a reading of the clock. -/
structure Host where
  parseIsoMs : String → Option ℤ
  toRfc3339 : ℤ → Option String
  nowIso : ℤ → String

/-- `clamp_i64`. -/
def clampI64 (v lo hi : ℤ) : ℤ := if v < lo then lo else if hi < v then hi else v

structure QuotaPolicy where
  defaultMaxCells : ℤ
  modules : List (String × ℤ)

structure LeasePolicy where
  enabled : Bool
  defaultTtlSec : ℤ
  maxTtlSec : ℤ

/-- What the commands use of `SpawnPolicy`; the pool is in the hardware bounds. -/
structure SpawnPolicy where
  quotas : QuotaPolicy
  leases : LeasePolicy

structure Allocation where
  cells : ℤ
  ts : String
  reason : String
  leaseExpiresAt : Option String

structure BrokerState where
  version : ℤ
  ts : String
  allocations : List (String × Allocation)

/-! ## The state file -/

/-- `BTreeMap::insert`; the order of the rows does not matter. -/
def insertRow (name : String) (row : Allocation) (rows : List (String × Allocation)) :
    List (String × Allocation) :=
  (name, row) :: rows.filter fun r => r.1 ≠ name

/-- `BTreeMap::remove`. -/
def removeRow (name : String) (rows : List (String × Allocation)) : List (String × Allocation) :=
  rows.filter fun r => r.1 ≠ name

/-- `name.trim().to_ascii_lowercase()`. -/
def normalName (name : String) : String := RustStd.toAsciiLowercase (RustStd.trim name)

/-- A string field, trimmed; empty where there is none. -/
def textField (raw : Json) (key : String) : String :=
  RustStd.trim (((raw.get? key).bind Json.asStr).getD "")

/-- `parse_allocation`. -/
def parseAllocation (raw : Json) : Option Allocation :=
  if raw.isObject then
    let lease := textField raw "lease_expires_at"
    some
      { cells := clampI64 (((raw.get? "cells").bind Json.asI64).getD 0) 0 4096
        ts := textField raw "ts"
        reason := textField raw "reason"
        leaseExpiresAt := if lease = "" then none else some lease }
  else none

/-- The rows of an `allocations` object. -/
def parseRows (fields : List (String × Json)) : List (String × Allocation) :=
  fields.foldl
    (fun out f =>
      match parseAllocation f.2 with
      | some row => insertRow (normalName f.1) row out
      | none => out)
    []

/-- `load_state`, of a file that holds the given JSON; `none` where there is no file or
no JSON in it. -/
def loadState (host : Host) (nowMs : ℤ) (file : Option Json) : BrokerState :=
  match file.filter Json.isObject with
  | none => { version := 1, ts := host.nowIso nowMs, allocations := [] }
  | some raw =>
    { version := ((raw.get? "version").bind Json.asI64).getD 1
      ts := RustStd.trim (((raw.get? "ts").bind Json.asStr).getD (host.nowIso nowMs))
      allocations := parseRows (((raw.get? "allocations").bind Json.asObject).getD []) }

/-- A row as `state_to_value` writes it. -/
def rowToValue (name : String) (row : Allocation) : Json :=
  .ofFields [("module", .str name), ("cells", .ofInt row.cells), ("ts", .str row.ts),
    ("reason", .str row.reason),
    ("lease_expires_at", (row.leaseExpiresAt.map Json.str).getD .null)]

/-- `state_to_value`. -/
def stateToValue (state : BrokerState) : Json :=
  .ofFields [("version", .ofInt state.version), ("ts", .str state.ts),
    ("allocations", .ofFields (state.allocations.map fun r => (r.1, rowToValue r.1 r.2)))]

/-! ## Expiry and limits -/

/-- `is_expired`, at a reading of the clock. -/
def isExpired (host : Host) (nowMs : ℤ) (row : Allocation) : Bool :=
  match row.leaseExpiresAt.bind host.parseIsoMs with
  | none => false
  | some ms => ms ≤ nowMs

/-- `prune_expired`: what is left, and whether anything went. -/
def pruneExpired (host : Host) (nowMs : ℤ) (state : BrokerState) : BrokerState × Bool :=
  let kept := state.allocations.filter fun r => !isExpired host nowMs r.2
  let changed := kept.length != state.allocations.length
  ({ state with
      allocations := kept
      ts := if changed then host.nowIso nowMs else state.ts }, changed)

/-- `normalize_module_name`. -/
def normalizeModuleName (raw : Option String) : String :=
  let name := normalName (raw.getD "reflex")
  if name = "" then "reflex" else name

/-- The cells of some rows. -/
def cellsOf (rows : List (String × Allocation)) : ℤ := (rows.map fun r => max r.2.cells 0).sum

/-- `cells_for`. -/
def cellsFor (state : BrokerState) (module : String) : ℤ :=
  max (((state.allocations.lookup module).map Allocation.cells).getD 0) 0

/-- `sum_allocations`. -/
def sumAllocations (state : BrokerState) (skipModule : String) : ℤ :=
  cellsOf (state.allocations.filter fun r => r.1 ≠ skipModule)

structure Limits where
  module : String
  globalMaxCells : ℤ
  moduleQuotaMaxCells : ℤ
  moduleCurrentCells : ℤ
  allocatedOtherCells : ℤ
  allocatedTotalCells : ℤ
  freeGlobalCells : ℤ
  maxCells : ℤ

/-- `module_quota_max`. -/
def moduleQuotaMax (policy : SpawnPolicy) (module : String) (globalMax : ℤ) : ℤ :=
  clampI64 ((policy.quotas.modules.lookup module).getD policy.quotas.defaultMaxCells) 0 globalMax

/-- `compute_limits`. -/
def computeLimits (policy : SpawnPolicy) (state : BrokerState) (module : String)
    (globalMaxCells : ℤ) : Limits :=
  let globalMax := max globalMaxCells 0
  let current := cellsFor state module
  let allocatedOther := sumAllocations state module
  let moduleQuota := moduleQuotaMax policy module globalMax
  { module := module
    globalMaxCells := globalMax
    moduleQuotaMaxCells := moduleQuota
    moduleCurrentCells := current
    allocatedOtherCells := allocatedOther
    allocatedTotalCells := allocatedOther + current
    freeGlobalCells := max (globalMax - (allocatedOther + current)) 0
    maxCells := max 0 (min moduleQuota (max (globalMax - allocatedOther) 0)) }

/-- `resolve_lease_expiry`, with the seconds the command asks for. -/
def resolveLeaseExpiry (host : Host) (policy : LeasePolicy) (leaseSec : Option ℤ) (nowMs : ℤ) :
    Option String :=
  if policy.enabled then
    let ttl := clampI64 (leaseSec.getD policy.defaultTtlSec) 5 policy.maxTtlSec
    host.toRfc3339 (nowMs + ttl * 1000)
  else none

/-! ## The commands -/

/-- The flags of a `request`. -/
structure Request where
  module : Option String
  requestedCells : Option ℤ
  reason : String
  apply : Bool
  leaseSec : Option ℤ

inductive Command where
  | status (module : Option String)
  | request (flags : Request)
  | release (module : Option String)

/-- What a step reads besides the state file: the clock, and whether the token budget has
the broker paused. -/
structure Reading where
  nowMs : ℤ
  autopaused : Bool

inductive Answer where
  | status (limits : Limits)
  | blocked (limits : Limits)
  | granted (limits : Limits) (cells : ℤ) (leaseExpiresAt : Option String)
  | released (cells : ℤ)

/-- Where a command is. -/
inductive Place where
  | start
  /-- Has dropped expired rows and is about to save what is left. -/
  | pruned (state : BrokerState)
  /-- About to work out its limits. -/
  | loaded (state : BrokerState)
  /-- About to save its change. -/
  | changed (state : BrokerState) (answer : Answer)
  | done (answer : Answer)

section Steps

variable (host : Host) (policy : SpawnPolicy) (globalMaxCells : ℤ)

/-- What a `request` makes of the state it has loaded. -/
def grant (flags : Request) (reading : Reading) (state : BrokerState) : Place :=
  let module := normalizeModuleName flags.module
  let limits := computeLimits policy state module globalMaxCells
  if reading.autopaused then .done (.blocked limits)
  else
    let requested := clampI64 (flags.requestedCells.getD 0) 0 4096
    let granted := max 0 (min requested limits.maxCells)
    let lease := resolveLeaseExpiry host policy.leases flags.leaseSec reading.nowMs
    let answer := .granted limits granted lease
    if flags.apply then
      let row : Allocation :=
        { cells := granted
          ts := host.nowIso reading.nowMs
          reason := String.ofList ((RustStd.trim flags.reason).toList.take 160)
          leaseExpiresAt := lease }
      .changed
        { version := 1
          ts := host.nowIso reading.nowMs
          allocations :=
            if granted ≤ 0 then removeRow module state.allocations
            else insertRow module row state.allocations }
        answer
    else .done answer

/-- What a command does with the state it has loaded. -/
def compute (command : Command) (reading : Reading) (state : BrokerState) : Place :=
  match command with
  | .status module =>
    .done (.status (computeLimits policy state (normalizeModuleName module) globalMaxCells))
  | .request flags => grant host policy globalMaxCells flags reading state
  | .release module =>
    let module := normalizeModuleName module
    .changed
      { version := 1
        ts := host.nowIso reading.nowMs
        allocations := removeRow module state.allocations }
      (.released (((state.allocations.lookup module).map Allocation.cells).getD 0))

/-- One step of `cmd_status`, `cmd_request` or `cmd_release`: a load, a computation or
a save. -/
def act (command : Command) (reading : Reading) (file : Option Json) :
    Place → Option Json × Place
  | .start =>
    let state := loadState host reading.nowMs file
    match command with
    | .release _ => (file, .loaded state)
    | _ =>
      let (kept, changed) := pruneExpired host reading.nowMs state
      (file, if changed then .pruned kept else .loaded kept)
  | .pruned state => (some (stateToValue state), .loaded state)
  | .loaded state => (file, compute host policy globalMaxCells command reading state)
  | .changed state answer => (some (stateToValue state), .done answer)
  | .done answer => (file, .done answer)

end Steps

/-! ## Counting cells -/

theorem cellsOf_cons (r : String × Allocation) (rows : List (String × Allocation)) :
    cellsOf (r :: rows) = max r.2.cells 0 + cellsOf rows := by
  rw [cellsOf, List.map_cons, List.sum_cons, cellsOf]

theorem cellsOf_nonneg (rows : List (String × Allocation)) : 0 ≤ cellsOf rows := by
  induction rows with
  | nil => exact Int.le_refl 0
  | cons r rows ih =>
    rw [cellsOf_cons]
    omega

theorem cellsOf_filter_le (keep : String × Allocation → Bool)
    (rows : List (String × Allocation)) : cellsOf (rows.filter keep) ≤ cellsOf rows := by
  induction rows with
  | nil => exact Int.le_refl 0
  | cons r rows ih =>
    rw [List.filter_cons]
    split
    · rw [cellsOf_cons, cellsOf_cons]
      omega
    · rw [cellsOf_cons]
      omega

theorem cellsOf_insertRow_le (name : String) (row : Allocation)
    (rows : List (String × Allocation)) :
    cellsOf (insertRow name row rows) ≤ max row.cells 0 + cellsOf rows := by
  have hfilter := cellsOf_filter_le (fun r => r.1 ≠ name) rows
  rw [insertRow, cellsOf_cons]
  exact Int.add_le_add_left hfilter _

/-- The cells a row of the file is read as. -/
def weight (raw : Json) : ℤ := max (((parseAllocation raw).map Allocation.cells).getD 0) 0

theorem cellsOf_parseRows_le (fields : List (String × Json)) :
    cellsOf (parseRows fields) ≤ (fields.map fun f => weight f.2).sum := by
  have hfold (out : List (String × Allocation)) :
      cellsOf (fields.foldl
        (fun out f =>
          match parseAllocation f.2 with
          | some row => insertRow (normalName f.1) row out
          | none => out) out) ≤ cellsOf out + (fields.map fun f => weight f.2).sum := by
    induction fields generalizing out with
    | nil => simp
    | cons f fields ih =>
      rw [List.foldl_cons, List.map_cons, List.sum_cons]
      refine Int.le_trans (ih _) ?_
      cases hparse : parseAllocation f.2 with
      | none =>
        have hweight : weight f.2 = 0 := by rw [weight, hparse]; rfl
        dsimp only
        omega
      | some row =>
        have hweight : weight f.2 = max row.cells 0 := by rw [weight, hparse]; rfl
        have hinsert := cellsOf_insertRow_le (normalName f.1) row out
        dsimp only
        omega
  have hempty : cellsOf [] = 0 := rfl
  have hstart := hfold []
  rw [hempty] at hstart
  rw [parseRows]
  omega

/-- An integer that is written and read again does not grow. -/
theorem asI64_ofInt_le (n : ℤ) : ((Json.ofInt n).asI64).getD 0 ≤ max n 0 := by
  rw [Json.ofInt]
  split
  · rename_i hneg
    have hlt : (Int64.ofInt n).toInt < 0 := by simpa using Int64.lt_iff_toInt_lt.mp hneg
    simp only [Json.asI64, Option.getD_some]
    omega
  · simp only [Json.asI64]
    split
    · have hle : (UInt64.ofNat n.toNat).toNat ≤ n.toNat := by
        rw [UInt64.toNat_ofNat']
        exact Nat.mod_le _ _
      simp only [Option.getD_some]
      omega
    · simp

theorem weight_rowToValue_le (name : String) (row : Allocation) :
    weight (rowToValue name row) ≤ max row.cells 0 := by
  have hcells : (rowToValue name row).get? "cells" = some (.ofInt row.cells) :=
    @Json.get?_ofFields [("module", .str name), ("cells", .ofInt row.cells), ("ts", .str row.ts),
      ("reason", .str row.reason),
      ("lease_expires_at", (row.leaseExpiresAt.map Json.str).getD .null)] (by simp)
      ("cells", .ofInt row.cells) (by simp)
  have hread := asI64_ofInt_le row.cells
  have hobject : (rowToValue name row).isObject = true := rfl
  rw [weight, parseAllocation, if_pos hobject]
  simp only [Option.map_some, Option.getD_some, hcells, Option.bind_some, clampI64]
  split
  · omega
  · split
    · omega
    · omega

/-- The weights of an object's fields are those of what was put in, or less. -/
theorem sum_weight_ofFields_le (fields : List (String × Json)) :
    (((Json.ofFields fields).asObject.getD []).map fun f => weight f.2).sum ≤
      (fields.map fun f => weight f.2).sum := by
  have hnonneg (raw : Json) : 0 ≤ weight raw := le_max_right _ _
  have hinsert (key : String) (value : Json) (out : List (String × Json)) :
      ((Json.insertField key value out).map fun f => weight f.2).sum ≤
        weight value + (out.map fun f => weight f.2).sum := by
    induction out with
    | nil => simp [Json.insertField]
    | cons g out ih =>
      obtain ⟨k, v⟩ := g
      have hv := hnonneg v
      simp only [Json.insertField]
      split
      · simp
      · split
        · simp
          omega
        · simp only [List.map_cons, List.sum_cons]
          omega
  have hfold (out : List (String × Json)) :
      ((fields.foldl (fun out f => Json.insertField f.1 f.2 out) out).map
          fun f => weight f.2).sum ≤
        (out.map fun f => weight f.2).sum + (fields.map fun f => weight f.2).sum := by
    induction fields generalizing out with
    | nil => simp
    | cons f fields ih =>
      have hnext := ih (Json.insertField f.1 f.2 out)
      have hthis := hinsert f.1 f.2 out
      rw [List.foldl_cons, List.map_cons, List.sum_cons]
      omega
  have hstart := hfold []
  rw [List.map_nil, List.sum_nil, Int.zero_add] at hstart
  exact hstart

/-- The rows of a state file. -/
def storedRows (file : Option Json) : List (String × Allocation) :=
  match file.filter Json.isObject with
  | none => []
  | some raw => parseRows (((raw.get? "allocations").bind Json.asObject).getD [])

theorem loadState_allocations (host : Host) (nowMs : ℤ) (file : Option Json) :
    (loadState host nowMs file).allocations = storedRows file := by
  unfold loadState storedRows
  cases file.filter Json.isObject with
  | none => rfl
  | some raw => rfl

/-- What is saved is no more than what is in hand. -/
theorem cellsOf_stored_le (state : BrokerState) :
    cellsOf (storedRows (some (stateToValue state))) ≤ cellsOf state.allocations := by
  let rows := state.allocations.map fun r => (r.1, rowToValue r.1 r.2)
  have hread : (stateToValue state).get? "allocations" = some (.ofFields rows) :=
    @Json.get?_ofFields [("version", .ofInt state.version), ("ts", .str state.ts),
      ("allocations", .ofFields rows)] (by simp) ("allocations", .ofFields rows) (by simp)
  have hrows : storedRows (some (stateToValue state)) =
      parseRows ((Json.ofFields rows).asObject.getD []) := by
    have hobject : (some (stateToValue state)).filter Json.isObject =
        some (stateToValue state) := rfl
    rw [storedRows, hobject]
    dsimp only
    rw [hread]
    rfl
  have hweights : (rows.map fun f => weight f.2).sum ≤ cellsOf state.allocations := by
    rw [List.map_map, cellsOf]
    exact List.sum_le_sum fun r _ => weight_rowToValue_le r.1 r.2
  rw [hrows]
  exact (cellsOf_parseRows_le _).trans ((sum_weight_ofFields_le rows).trans hweights)

/-! ## The pool -/

theorem cellsOf_pruneExpired_le (host : Host) (nowMs : ℤ) (state : BrokerState) :
    cellsOf (pruneExpired host nowMs state).1.allocations ≤ cellsOf state.allocations :=
  cellsOf_filter_le _ _

theorem maxCells_le (policy : SpawnPolicy) (state : BrokerState) (module : String)
    (globalMaxCells : ℤ) : (computeLimits policy state module globalMaxCells).maxCells ≤
      max (max globalMaxCells 0 - sumAllocations state module) 0 := by
  simp only [computeLimits]
  omega

/-- A grant stays within what the other modules leave of the pool. -/
theorem cellsOf_grant_le {host : Host} {policy : SpawnPolicy} {globalMaxCells : ℤ}
    {flags : Request} {reading : Reading} {state state' : BrokerState} {answer : Answer}
    (hstate : cellsOf state.allocations ≤ globalMaxCells)
    (hgrant : grant host policy globalMaxCells flags reading state = .changed state' answer) :
    cellsOf state'.allocations ≤ globalMaxCells := by
  unfold grant at hgrant
  dsimp only at hgrant
  split at hgrant
  · cases hgrant
  · split at hgrant
    · let module := normalizeModuleName flags.module
      have hothers : sumAllocations state module ≤ cellsOf state.allocations :=
        cellsOf_filter_le _ _
      obtain ⟨rfl, -⟩ := Place.changed.inj hgrant
      dsimp only
      split
      · exact hothers.trans hstate
      · have hlimit := maxCells_le policy state module globalMaxCells
        have hnonneg := cellsOf_nonneg state.allocations
        rw [insertRow, cellsOf_cons]
        change max (max 0 (min _ (computeLimits policy state module globalMaxCells).maxCells)) 0 +
          sumAllocations state module ≤ globalMaxCells
        omega
    · cases hgrant

/-- The data a command has in hand fits the pool. -/
def Fits (globalMaxCells : ℤ) : Place → Prop
  | .pruned state | .loaded state | .changed state _ => cellsOf state.allocations ≤ globalMaxCells
  | .start | .done _ => True

/-- **One step** of a command keeps the stored allocations, and those in hand, within the
pool. -/
theorem act_within_pool (host : Host) (policy : SpawnPolicy) {globalMaxCells : ℤ}
    (command : Command) (reading : Reading) {file : Option Json} {place : Place}
    (hfile : cellsOf (storedRows file) ≤ globalMaxCells) (hplace : Fits globalMaxCells place) :
    cellsOf (storedRows (act host policy globalMaxCells command reading file place).1) ≤
        globalMaxCells ∧
      Fits globalMaxCells (act host policy globalMaxCells command reading file place).2 := by
  cases place with
  | start =>
    have hload : cellsOf (loadState host reading.nowMs file).allocations ≤ globalMaxCells := by
      rw [loadState_allocations]
      exact hfile
    have hprune := (cellsOf_pruneExpired_le host reading.nowMs _).trans hload
    have hkept : Fits globalMaxCells
        (if (pruneExpired host reading.nowMs (loadState host reading.nowMs file)).2 then
          .pruned (pruneExpired host reading.nowMs (loadState host reading.nowMs file)).1
        else .loaded (pruneExpired host reading.nowMs (loadState host reading.nowMs file)).1) := by
      split
      · exact hprune
      · exact hprune
    cases command with
    | status module => exact ⟨hfile, hkept⟩
    | request flags => exact ⟨hfile, hkept⟩
    | release module => exact ⟨hfile, hload⟩
  | pruned state => exact ⟨(cellsOf_stored_le state).trans hplace, hplace⟩
  | loaded state =>
    refine ⟨hfile, ?_⟩
    cases command with
    | status module => exact trivial
    | release module => exact (cellsOf_filter_le _ _).trans hplace
    | request flags =>
      change Fits globalMaxCells (grant host policy globalMaxCells flags reading state)
      cases hgrant : grant host policy globalMaxCells flags reading state with
      | changed state' answer => exact cellsOf_grant_le hplace hgrant
      | start | done answer => exact trivial
      | pruned state' | loaded state' =>
        unfold grant at hgrant
        dsimp only at hgrant
        split at hgrant
        · cases hgrant
        · split at hgrant
          · cases hgrant
          · cases hgrant
  | changed state answer => exact ⟨(cellsOf_stored_le state).trans hplace, trivial⟩
  | done answer => exact ⟨hfile, trivial⟩

/-- The cells of the allocations of a state file that have not expired. -/
def liveCells (host : Host) (nowMs : ℤ) (file : Option Json) : ℤ :=
  cellsOf ((storedRows file).filter fun r => !isExpired host nowMs r.2)

/-- **The pool is never oversubscribed in the stored state.**  However the steps of any
number of commands interleave, and whatever the clock shows at each, the live
allocations of the state file fit the pool, where the allocations did at the start. -/
theorem stored_within_pool {ι : Type*} [DecidableEq ι] (host : Host) (policy : SpawnPolicy)
    (globalMaxCells : ℤ) (commands : ι → Command) (file : Option Json)
    (hfile : cellsOf (storedRows file) ≤ globalMaxCells) (events : List (ι × Reading)) (n : ℕ)
    (nowMs : ℤ) :
    liveCells host nowMs
        (Runs.before
          (SharedFile.step fun p => act host policy globalMaxCells (commands p))
          { file := file, place := fun _ => .start } events n).file ≤ globalMaxCells := by
  let start : SharedFile.State ι (Option Json) Place := { file := file, place := fun _ => .start }
  have hact (p : ι) (reading : Reading) (file : Option Json) (place : Place)
      (hfile : cellsOf (storedRows file) ≤ globalMaxCells) (hplace : Fits globalMaxCells place) :=
    act_within_pool host policy (commands p) reading hfile hplace
  have hgood := @SharedFile.file_good ι (Option Json) Place Reading _
    (fun p => act host policy globalMaxCells (commands p))
    (fun file => cellsOf (storedRows file) ≤ globalMaxCells) (fun _ => Fits globalMaxCells)
    hact start hfile (fun _ => trivial) events n
  exact (cellsOf_filter_le _ _).trans hgood

/-- A clock whose texts are its milliseconds. -/
def tickHost : Host where
  parseIsoMs := String.toInt?
  toRfc3339 ms := some (toString ms)
  nowIso := toString

/-- Every module may have three cells, for five seconds or longer. -/
def threeEach : SpawnPolicy :=
  { quotas := { defaultMaxCells := 3, modules := [] }
    leases := { enabled := true, defaultTtlSec := 5, maxTtlSec := 60 } }

/-- Two modules ask for three cells each of a pool of four, and both load the state before
the other one saves: both are granted what they ask for, and one grant is lost. -/
def race : List (Fin 2 × Reading) :=
  [0, 1, 2].flatMap fun nowMs => (List.finRange 2).map fun p => (p, ⟨nowMs, false⟩)

theorem race_within_pool :
    liveCells tickHost 3 (Runs.before
      (SharedFile.step fun p : Fin 2 => act tickHost threeEach 4
        (.request ⟨some (if p = 0 then "swarm" else "reflex"), some 3, "", true, none⟩))
      { file := none, place := fun _ => .start } race 6).file ≤ 4 :=
  stored_within_pool tickHost threeEach 4 _ none (by decide) race 6 3

end Protheus.SpawnBroker
