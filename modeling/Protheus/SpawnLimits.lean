import Protheus.F64
import Protheus.LaneUtils
import Protheus.SpawnBroker

/-!
What the spawn broker grants under a policy and a hardware plan, one command at a time.

A command runs to its end before the next one starts (`complete`).  What it grants keeps to what
was asked for, to the quota of the module and to what the other unexpired allocations leave of
the pool, and its lease ends after `max_ttl_sec` (`grants_within_limits`).  The live cells stay
within the pool as long as the clock is not put back and shows a year that the texts of the
leases can show.
-/

namespace Protheus.SpawnBroker

/-! ## Policy -/

structure PoolPolicy where
  minCells : ℤ
  maxCells : ℤ
  reserveCpuThreads : F64
  reserveRamGb : F64
  estimatedCpuThreadsPerCell : F64
  estimatedRamGbPerCell : F64
  maxCellsByHardware : List (String × ℤ)

/-- `SpawnPolicy` with the version and the pool. -/
structure BrokerPolicy extends SpawnPolicy where
  version : String
  pool : PoolPolicy

/-- A row of a table of caps, by its normal name; the last one of a name is kept. -/
def insertCap (name : String) (cap : ℤ) (caps : List (String × ℤ)) : List (String × ℤ) :=
  (normalName name, cap) :: caps.filter fun c => c.1 ≠ normalName name

/-- The table an object stands for. -/
def capsOf (cap : Json → ℤ) (fields : List (String × Json)) : List (String × ℤ) :=
  fields.foldl (fun caps f => insertCap f.1 (cap f.2) caps) []

section Policy

variable (round : ℚ → F64)

/-- `clamp_f64`. -/
def clampF64 (v lo hi : F64) : F64 := v.clamp lo hi

def defaultPolicy : BrokerPolicy where
  version := "1.0"
  pool :=
    { minCells := 0
      maxCells := 6
      reserveCpuThreads := .finite 2
      reserveRamGb := .finite 4
      estimatedCpuThreadsPerCell := .finite 1
      estimatedRamGbPerCell := round (12 / 10)
      maxCellsByHardware := [("tiny", 1), ("small", 2), ("medium", 3), ("large", 4), ("xlarge", 6)] }
  quotas := { defaultMaxCells := 2, modules := [] }
  leases := { enabled := true, defaultTtlSec := 300, maxTtlSec := 3600 }

/-- The `pool` of a policy file. -/
def loadPool (pool : PoolPolicy) (fields : List (String × Json)) : PoolPolicy :=
  let int (key : String) (fallback : ℤ) : ℤ := ((fields.lookup key).bind Json.asI64).getD fallback
  let float (key : String) (fallback lo hi : F64) : F64 :=
    clampF64 ((((fields.lookup key).bind Json.asF64).map round).getD fallback) lo hi
  let minCells := clampI64 (int "min_cells" pool.minCells) 0 4096
  let maxCells := clampI64 (int "max_cells" pool.maxCells) minCells 8192
  let caps := ((fields.lookup "max_cells_by_hardware").bind Json.asObject).map
    (capsOf fun v => clampI64 (v.asI64.getD maxCells) 0 maxCells)
  { minCells
    maxCells
    reserveCpuThreads :=
      float "reserve_cpu_threads" pool.reserveCpuThreads (.finite 0) (.finite 4096)
    reserveRamGb := float "reserve_ram_gb" pool.reserveRamGb (.finite 0) (.finite 4096)
    estimatedCpuThreadsPerCell :=
      float "estimated_cpu_threads_per_cell" pool.estimatedCpuThreadsPerCell (round (1 / 10))
        (.finite 512)
    estimatedRamGbPerCell :=
      float "estimated_ram_gb_per_cell" pool.estimatedRamGbPerCell (round (1 / 10)) (.finite 512)
    maxCellsByHardware :=
      match caps with
      | some (cap :: caps) => cap :: caps
      | _ => pool.maxCellsByHardware }

/-- The `quotas` of a policy file. -/
def loadQuotas (quotas : QuotaPolicy) (maxCells : ℤ) (fields : List (String × Json)) : QuotaPolicy :=
  let defaultMaxCells := clampI64
    (((fields.lookup "default_max_cells").bind Json.asI64).getD quotas.defaultMaxCells) 0 maxCells
  { defaultMaxCells
    modules :=
      (((fields.lookup "modules").bind Json.asObject).map
        (capsOf fun row =>
          clampI64 (((row.get? "max_cells").bind Json.asI64).getD defaultMaxCells) 0 maxCells)).getD
        quotas.modules }

/-- The `leases` of a policy file. -/
def loadLeases (leases : LeasePolicy) (fields : List (String × Json)) : LeasePolicy :=
  let defaultTtlSec := clampI64
    (((fields.lookup "default_ttl_sec").bind Json.asI64).getD leases.defaultTtlSec) 5 172800
  { enabled := ((fields.lookup "enabled").bind Json.asBool).getD leases.enabled
    defaultTtlSec
    maxTtlSec := clampI64
      (((fields.lookup "max_ttl_sec").bind Json.asI64).getD leases.maxTtlSec) defaultTtlSec 172800 }

/-- `load_policy`, of a file that holds the given JSON. -/
def loadPolicy (file : Option Json) : BrokerPolicy :=
  let policy := defaultPolicy round
  match file with
  | none => policy
  | some raw =>
    let part (key : String) := (raw.get? key).bind Json.asObject
    let pool := ((part "pool").map (loadPool round policy.pool)).getD policy.pool
    { version := (((raw.get? "version").bind Json.asStr).map RustStd.trim).getD policy.version
      pool
      quotas := ((part "quotas").map (loadQuotas policy.quotas pool.maxCells)).getD policy.quotas
      leases := ((part "leases").map (loadLeases policy.leases)).getD policy.leases }

/-! ## Hardware -/

structure HardwareBounds where
  hardwareClass : Option String
  cpuThreads : Option F64
  ramGb : Option F64
  capByClass : ℤ
  capByCpu : ℤ
  capByRam : ℤ
  globalMaxCells : ℤ

/-- `f64::floor` and `as i64`. -/
def floorI64 : F64 → ℤ
  | .finite q => clampI64 ⌊q⌋ (-2 ^ 63) (2 ^ 63 - 1)
  | .inf negative => if negative then -2 ^ 63 else 2 ^ 63 - 1
  | .nan => 0

/-- The cells that fit what a machine has of something, less the reserve. -/
def capBy (amount : Option F64) (reserve perCell : F64) (maxCells : ℤ) : ℤ :=
  match amount with
  | some amount =>
    let free := (F64.sub round amount reserve).max (.finite 0)
    max (floorI64 (F64.div round free perCell)) 0
  | none => maxCells

/-- `hardware_bounds`. -/
def hardwareBounds (policy : BrokerPolicy) (payload : Json) : HardwareBounds :=
  let pool := policy.pool
  let profile := (payload.get? "profile").bind Json.asObject
  let field (key : String) := profile.bind (·.lookup key)
  let hardwareClass := (((field "hardware_class").bind Json.asStr).map normalName).filter (· ≠ "")
  let cpuThreads := ((field "cpu_threads").bind Json.asF64).map round
  let ramGb := ((field "ram_gb").bind Json.asF64).map round
  let capByClass := (hardwareClass.bind (pool.maxCellsByHardware.lookup ·)).getD pool.maxCells
  let capByCpu :=
    capBy round cpuThreads pool.reserveCpuThreads pool.estimatedCpuThreadsPerCell pool.maxCells
  let capByRam := capBy round ramGb pool.reserveRamGb pool.estimatedRamGbPerCell pool.maxCells
  { hardwareClass
    cpuThreads
    ramGb
    capByClass
    capByCpu
    capByRam
    globalMaxCells :=
      max pool.minCells (min pool.maxCells (min capByClass (min capByCpu capByRam))) }

end Policy

/-! ## What every policy that is loaded keeps to -/

section LoadedPolicy

variable {round : ℚ → F64}

theorem le_clampI64 {v lo hi : ℤ} (h : lo ≤ hi) : lo ≤ clampI64 v lo hi := by
  unfold clampI64
  split
  · exact le_rfl
  · split
    · exact h
    · omega

theorem clampI64_le {v lo hi : ℤ} (h : lo ≤ hi) : clampI64 v lo hi ≤ hi := by
  unfold clampI64
  split
  · exact h
  · split
    · exact le_rfl
    · omega

theorem nonneg_of_mem_capsOf {cap : Json → ℤ} (hcap : ∀ v, 0 ≤ cap v) (fields : List (String × Json)) :
    ∀ c ∈ capsOf cap fields, 0 ≤ c.2 := by
  have hfold (caps : List (String × ℤ)) (hcaps : ∀ c ∈ caps, 0 ≤ c.2) :
      ∀ c ∈ fields.foldl (fun caps f => insertCap f.1 (cap f.2) caps) caps, 0 ≤ c.2 := by
    induction fields generalizing caps with
    | nil => exact hcaps
    | cons f fields ih =>
      refine ih _ fun c hc => ?_
      obtain rfl | hc := List.mem_cons.mp hc
      · exact hcap f.2
      · exact hcaps c (List.mem_of_mem_filter hc)
  exact hfold [] (by simp)

def quotaOf (quotas : QuotaPolicy) (module : String) : ℤ :=
  (quotas.modules.lookup module).getD quotas.defaultMaxCells

theorem quotaOf_nonneg_of {quotas : QuotaPolicy} (hdefault : 0 ≤ quotas.defaultMaxCells)
    (hmodules : ∀ c ∈ quotas.modules, 0 ≤ c.2) (module : String) : 0 ≤ quotaOf quotas module := by
  unfold quotaOf
  cases hlookup : quotas.modules.lookup module with
  | none => exact hdefault
  | some cap =>
    obtain ⟨before, after, hrows, -⟩ := List.lookup_eq_some_iff.mp hlookup
    exact hmodules (module, cap) (by rw [hrows]; simp)

theorem maxCells_nonneg (fields : List (String × Json)) (pool : PoolPolicy) :
    0 ≤ (loadPool round pool fields).maxCells := by
  have hmin : 0 ≤ (loadPool round pool fields).minCells := le_clampI64 (by norm_num)
  have hle : (loadPool round pool fields).minCells ≤ 4096 := clampI64_le (by norm_num)
  have hmax : (loadPool round pool fields).minCells ≤ (loadPool round pool fields).maxCells :=
    le_clampI64 (by omega)
  omega

/-- A loaded policy has no negative quota and lets leases last at least five seconds. -/
theorem loadPolicy_spec (file : Option Json) :
    (∀ module, 0 ≤ quotaOf (loadPolicy round file).quotas module) ∧
      5 ≤ (loadPolicy round file).leases.maxTtlSec := by
  have hdefault : (∀ module, 0 ≤ quotaOf (defaultPolicy round).quotas module) ∧
      5 ≤ (defaultPolicy round).leases.maxTtlSec := by
    refine ⟨quotaOf_nonneg_of ?_ ?_, ?_⟩
    · simp [defaultPolicy]
    · simp [defaultPolicy]
    · simp [defaultPolicy]
  cases file with
  | none => exact hdefault
  | some raw =>
    constructor
    · have hpool : 0 ≤ (loadPolicy round (some raw)).pool.maxCells := by
        simp only [loadPolicy]
        cases (raw.get? "pool").bind Json.asObject with
        | none => simp [defaultPolicy]
        | some fields => exact maxCells_nonneg fields _
      have hquotas : (loadPolicy round (some raw)).quotas =
          (((raw.get? "quotas").bind Json.asObject).map
            (loadQuotas (defaultPolicy round).quotas (loadPolicy round (some raw)).pool.maxCells)).getD
            (defaultPolicy round).quotas := rfl
      rw [hquotas]
      generalize (loadPolicy round (some raw)).pool.maxCells = maxCells at hpool
      cases (raw.get? "quotas").bind Json.asObject with
      | none => exact hdefault.1
      | some fields =>
        refine quotaOf_nonneg_of (le_clampI64 hpool) ?_
        simp only [Option.map_some, Option.getD_some, loadQuotas]
        cases (fields.lookup "modules").bind Json.asObject with
        | none => simp [defaultPolicy]
        | some rows =>
          simp only [Option.map_some, Option.getD_some]
          exact nonneg_of_mem_capsOf (fun v => le_clampI64 hpool) rows
    · have hleases : (loadPolicy round (some raw)).leases =
          (((raw.get? "leases").bind Json.asObject).map
            (loadLeases (defaultPolicy round).leases)).getD (defaultPolicy round).leases := rfl
      rw [hleases]
      cases (raw.get? "leases").bind Json.asObject with
      | none => exact hdefault.2
      | some fields =>
        have hlo : 5 ≤ (loadLeases (defaultPolicy round).leases fields).defaultTtlSec :=
          le_clampI64 (by norm_num)
        have hhi : (loadLeases (defaultPolicy round).leases fields).defaultTtlSec ≤ 172800 :=
          clampI64_le (by norm_num)
        exact hlo.trans (le_clampI64 hhi)

end LoadedPolicy

/-! ## What is saved reads back -/

section ReadBack

/-- A row as it is read back. -/
def Allocation.reread (row : Allocation) : Allocation where
  cells := row.cells
  ts := RustStd.trim row.ts
  reason := RustStd.trim row.reason
  leaseExpiresAt := (row.leaseExpiresAt.map RustStd.trim).filter (· ≠ "")

/-- The names of the rows are normal and differ, and the cells are in the range of the file. -/
structure Named (rows : List (String × Allocation)) : Prop where
  nodup : (rows.map Prod.fst).Nodup
  normal : ∀ r ∈ rows, normalName r.1 = r.1
  cells : ∀ r ∈ rows, 0 ≤ r.2.cells ∧ r.2.cells ≤ 4096

@[simp] theorem normalName_normalName (name : String) : normalName (normalName name) = normalName name :=
  LaneUtils.toAsciiLowercase_trim_idem name

theorem normalName_normalizeModuleName (raw : Option String) :
    normalName (normalizeModuleName raw) = normalizeModuleName raw := by
  unfold normalizeModuleName
  dsimp only
  split
  · decide
  · exact normalName_normalName _

theorem trim_empty : RustStd.trim "" = "" := rfl

theorem parseAllocation_rowToValue {name : String} {row : Allocation}
    (hcells : 0 ≤ row.cells ∧ row.cells ≤ 4096) :
    parseAllocation (rowToValue name row) = some row.reread := by
  let fields : List (String × Json) :=
    [("module", .str name), ("cells", .ofInt row.cells), ("ts", .str row.ts),
      ("reason", .str row.reason),
      ("lease_expires_at", (row.leaseExpiresAt.map Json.str).getD .null)]
  have hnodup : (fields.map Prod.fst).Nodup := by simp [fields]
  have hget {key : String} {value : Json} (h : (key, value) ∈ fields) :
      (rowToValue name row).get? key = some value := Json.get?_ofFields_mem hnodup h
  have hcell : (rowToValue name row).get? "cells" = some (.ofInt row.cells) :=
    hget (by simp [fields])
  have hts : (rowToValue name row).get? "ts" = some (.str row.ts) := hget (by simp [fields])
  have hreason : (rowToValue name row).get? "reason" = some (.str row.reason) :=
    hget (by simp [fields])
  have hlease : (rowToValue name row).get? "lease_expires_at" =
      some ((row.leaseExpiresAt.map Json.str).getD .null) := hget (by simp [fields])
  have hclamp : clampI64 row.cells 0 4096 = row.cells := by
    rw [clampI64, if_neg (by omega), if_neg (by omega)]
  have hread : (Json.ofInt row.cells).asI64 = some row.cells :=
    Json.asI64_ofInt_of_mem (by omega) (by omega)
  have hobject : (rowToValue name row).isObject = true := rfl
  rw [parseAllocation, if_pos hobject]
  simp only [textField, hcell, hts, hreason, hlease, Option.bind_some, hread, Option.getD_some, hclamp, Json.asStr, Allocation.reread]
  cases row.leaseExpiresAt with
  | none => simp [trim_empty]
  | some text =>
    by_cases htext : RustStd.trim text = ""
    · simp [htext, Option.filter_some]
    · simp [htext, Option.filter_some]

/-- What is made of one row of an object. -/
def readRow (out : List (String × Allocation)) (f : String × Json) : List (String × Allocation) :=
  match parseAllocation f.2 with
  | some row => insertRow (normalName f.1) row out
  | none => out

theorem parseRows_eq (fields : List (String × Json)) : parseRows fields = fields.foldl readRow [] := rfl

/-- The rows of an object whose names are normal and differ, each of which can be read. -/
theorem parseRows_perm {fields : List (String × Json)} {row : Json → Allocation}
    (hparse : ∀ f ∈ fields, parseAllocation f.2 = some (row f.2))
    (hnormal : ∀ f ∈ fields, normalName f.1 = f.1) (hnodup : (fields.map Prod.fst).Nodup) :
    (parseRows fields).Perm (fields.map fun f => (f.1, row f.2)) := by
  have hfold (out : List (String × Allocation)) (hout : ∀ f ∈ fields, f.1 ∉ out.map Prod.fst) :
      (fields.foldl readRow out).Perm ((fields.map fun f => (f.1, row f.2)) ++ out) := by
    induction fields generalizing out with
    | nil => rfl
    | cons f fields ih =>
      obtain ⟨hf, hfields⟩ := List.nodup_cons.mp hnodup
      have hnew : f.1 ∉ out.map Prod.fst := hout f (by simp)
      have hput : insertRow (normalName f.1) (row f.2) out = (f.1, row f.2) :: out := by
        rw [hnormal f (by simp), insertRow, List.filter_eq_self.mpr]
        intro r hr
        have hne : r.1 ≠ f.1 := fun heq => hnew (heq ▸ List.mem_map_of_mem hr)
        simpa using hne
      rw [List.foldl_cons, readRow, hparse f (by simp)]
      dsimp only
      rw [hput]
      refine (ih (fun g hg => hparse g (by simp [hg])) (fun g hg => hnormal g (by simp [hg])) hfields _
        fun g hg => ?_).trans List.perm_middle
      have hne : g.1 ≠ f.1 := fun heq => hf (heq ▸ List.mem_map_of_mem hg)
      have hold := hout g (by simp [hg])
      rw [List.map_cons, List.mem_cons, not_or]
      exact ⟨hne, hold⟩
  have hstart := hfold [] (by simp)
  rwa [List.append_nil, ← parseRows_eq] at hstart

/-- What is saved reads back as the rows that were saved. -/
theorem storedRows_stateToValue {state : BrokerState} (h : Named state.allocations) :
    (storedRows (some (stateToValue state))).Perm
      (state.allocations.map fun r => (r.1, r.2.reread)) := by
  let rows := state.allocations.map fun r => (r.1, rowToValue r.1 r.2)
  have hread : (stateToValue state).get? "allocations" = some (.ofFields rows) :=
    @Json.get?_ofFields [("version", .ofInt state.version), ("ts", .str state.ts),
      ("allocations", .ofFields rows)] (by simp) ("allocations", .ofFields rows) (by simp)
  have hobject : (some (stateToValue state)).filter Json.isObject = some (stateToValue state) := rfl
  have hnames : rows.map Prod.fst = state.allocations.map Prod.fst := by
    rw [List.map_map]
    rfl
  have hfields : (Json.insertFields rows []).Perm rows := by
    have hperm := @Json.insertFields_perm rows [] (by rw [List.append_nil, hnames]; exact h.nodup)
    rwa [List.append_nil] at hperm
  have hstored : storedRows (some (stateToValue state)) = parseRows (Json.insertFields rows []) := by
    rw [storedRows, hobject]
    dsimp only
    rw [hread]
    rfl
  let row (raw : Json) : Allocation := (parseAllocation raw).getD ⟨0, "", "", none⟩
  have hrow : ∀ f ∈ rows, ∃ r ∈ state.allocations, f = (r.1, rowToValue r.1 r.2) := by
    intro f hf
    obtain ⟨r, hr, rfl⟩ := List.mem_map.mp hf
    exact ⟨r, hr, rfl⟩
  have hparsed := @parseRows_perm (Json.insertFields rows []) row ?_ ?_ ?_
  · rw [hstored]
    refine hparsed.trans ((hfields.map _).trans ?_)
    rw [List.map_map]
    refine List.Perm.of_eq (List.map_congr_left fun r hr => ?_)
    simp [row, parseAllocation_rowToValue (h.cells r hr)]
  · intro f hf
    obtain ⟨r, hr, rfl⟩ := hrow f (hfields.mem_iff.mp hf)
    simp [row, parseAllocation_rowToValue (h.cells r hr)]
  · intro f hf
    obtain ⟨r, hr, rfl⟩ := hrow f (hfields.mem_iff.mp hf)
    exact h.normal r hr
  · rw [(hfields.map Prod.fst).nodup_iff, hnames]
    exact h.nodup

theorem Named.filter {rows : List (String × Allocation)} (h : Named rows)
    (keep : String × Allocation → Bool) : Named (rows.filter keep) where
  nodup := h.nodup.sublist (List.filter_sublist.map Prod.fst)
  normal r hr := h.normal r (List.mem_of_mem_filter hr)
  cells r hr := h.cells r (List.mem_of_mem_filter hr)

theorem Named.insertRow {rows : List (String × Allocation)} (h : Named rows) {name : String}
    {row : Allocation} (hname : normalName name = name) (hcells : 0 ≤ row.cells ∧ row.cells ≤ 4096) :
    Named (insertRow name row rows) := by
  have hrest := h.filter fun r => r.1 ≠ name
  refine ⟨List.nodup_cons.mpr ⟨fun hmem => ?_, hrest.nodup⟩, fun r hr => ?_, fun r hr => ?_⟩
  · obtain ⟨r, hr, hsame⟩ := List.mem_map.mp hmem
    have hne : r.1 ≠ name := by simpa using List.of_mem_filter hr
    exact hne hsame
  · obtain rfl | hr := List.mem_cons.mp hr
    · exact hname
    · exact hrest.normal r hr
  · obtain rfl | hr := List.mem_cons.mp hr
    · exact hcells
    · exact hrest.cells r hr

theorem parseAllocation_sound {raw : Json} {row : Allocation} (h : parseAllocation raw = some row) :
    (0 ≤ row.cells ∧ row.cells ≤ 4096) ∧ row.reread = row := by
  unfold parseAllocation at h
  split at h
  · obtain rfl := Option.some.inj h
    refine ⟨⟨le_clampI64 (by norm_num), clampI64_le (by norm_num)⟩, ?_⟩
    have htrim (key : String) : RustStd.trim (textField raw key) = textField raw key :=
      LaneUtils.trim_trim _
    by_cases hlease : textField raw "lease_expires_at" = ""
    · simp [Allocation.reread, htrim, hlease]
    · simp [Allocation.reread, htrim, hlease, Option.filter_some]
  · cases h

/-- The rows of a file are named, and read back as they are. -/
theorem storedRows_named (file : Option Json) :
    Named (storedRows file) ∧ ∀ r ∈ storedRows file, r.2.reread = r.2 := by
  have hfold (fields : List (String × Json)) (out : List (String × Allocation))
      (hout : Named out ∧ ∀ r ∈ out, r.2.reread = r.2) :
      Named (fields.foldl readRow out) ∧ ∀ r ∈ fields.foldl readRow out, r.2.reread = r.2 := by
    induction fields generalizing out with
    | nil => exact hout
    | cons f fields ih =>
      rw [List.foldl_cons]
      refine ih _ ?_
      rw [readRow]
      cases hparse : parseAllocation f.2 with
      | none => exact hout
      | some row =>
        obtain ⟨hcells, hreread⟩ := parseAllocation_sound hparse
        refine ⟨hout.1.insertRow (normalName_normalName f.1) hcells, fun r hr => ?_⟩
        obtain rfl | hr := List.mem_cons.mp hr
        · exact hreread
        · exact hout.2 r (List.mem_of_mem_filter hr)
  unfold storedRows
  cases file.filter Json.isObject with
  | none => exact ⟨⟨by simp, by simp, by simp⟩, by simp⟩
  | some raw => exact hfold _ [] ⟨⟨by simp, by simp, by simp⟩, by simp⟩

end ReadBack

/-! ## One command from its start to its end -/

/-- The rows that have not expired. -/
def unexpired (host : Host) (nowMs : ℤ) (rows : List (String × Allocation)) :
    List (String × Allocation) :=
  rows.filter fun r => !isExpired host nowMs r.2

section Complete

variable (host : Host) (policy : SpawnPolicy) (globalMaxCells : ℤ)

/-- A command that nothing comes between: it loads at the first time and works at the second. -/
def complete (command : Command) (loadMs : ℤ) (reading : Reading) (file : Option Json) :
    Option Json × Place :=
  let act := act host policy globalMaxCells command
  let opening : Reading := { reading with nowMs := loadMs }
  let (file, place) := act opening file .start
  let (file, place) :=
    match place with
    | .pruned state => act opening file (.pruned state)
    | place => (file, place)
  let (file, place) := act reading file place
  act reading file place

/-- What `prune_expired` leaves of a file, and the file after it. -/
def pruneFile (loadMs : ℤ) (file : Option Json) : BrokerState × Option Json :=
  let (state, changed) := pruneExpired host loadMs (loadState host loadMs file)
  (state, if changed then some (stateToValue state) else file)

/-- How a command ends. -/
def finish (file : Option Json) : Place → Option Json × Place
  | .changed state answer => (some (stateToValue state), .done answer)
  | place => (file, place)

variable {host policy globalMaxCells} {loadMs : ℤ} {reading : Reading} {file : Option Json}

@[simp] theorem finish_changed (state : BrokerState) (answer : Answer) :
    finish file (.changed state answer) = (some (stateToValue state), .done answer) := rfl

@[simp] theorem finish_done (answer : Answer) :
    finish file (.done answer) = (file, .done answer) := rfl

theorem compute_ends (command : Command) (state : BrokerState) :
    (∃ state' answer,
      compute host policy globalMaxCells command reading state = .changed state' answer) ∨
      ∃ answer, compute host policy globalMaxCells command reading state = .done answer := by
  cases command with
  | status module => exact .inr ⟨_, rfl⟩
  | release module => exact .inl ⟨_, _, rfl⟩
  | request flags =>
    unfold compute grant
    dsimp only
    split
    · exact .inr ⟨_, rfl⟩
    · split
      · exact .inl ⟨_, _, rfl⟩
      · exact .inr ⟨_, rfl⟩

theorem act_act_loaded (command : Command) (state : BrokerState) :
    act host policy globalMaxCells command reading
        (act host policy globalMaxCells command reading file (.loaded state)).1
        (act host policy globalMaxCells command reading file (.loaded state)).2 =
      finish file (compute host policy globalMaxCells command reading state) := by
  obtain ⟨state', answer, hcompute⟩ | ⟨answer, hcompute⟩ :=
    @compute_ends host policy globalMaxCells reading command state
  · simp [act, hcompute, finish]
  · simp [act, hcompute, finish]

theorem complete_release (module : Option String) :
    complete host policy globalMaxCells (.release module) loadMs reading file =
      finish file (compute host policy globalMaxCells (.release module) reading
        (loadState host loadMs file)) :=
  act_act_loaded (.release module) (loadState host loadMs file)

theorem complete_of_prunes {command : Command} (h : ∀ module, command ≠ .release module) :
    complete host policy globalMaxCells command loadMs reading file =
      finish (pruneFile host loadMs file).2
        (compute host policy globalMaxCells command reading (pruneFile host loadMs file).1) := by
  have hstart : act host policy globalMaxCells command { reading with nowMs := loadMs } file .start =
      (file, if (pruneExpired host loadMs (loadState host loadMs file)).2 then
        .pruned (pruneExpired host loadMs (loadState host loadMs file)).1
        else .loaded (pruneExpired host loadMs (loadState host loadMs file)).1) := by
    cases command with
    | status module => rfl
    | request flags => rfl
    | release module => exact absurd rfl (h module)
  unfold complete pruneFile
  dsimp only
  rw [hstart]
  cases (pruneExpired host loadMs (loadState host loadMs file)).2 with
  | true => exact act_act_loaded _ _
  | false => exact act_act_loaded _ _

/-- What is left after the expired rows are dropped, in hand and in the file. -/
theorem pruneFile_spec (host : Host) (loadMs : ℤ) (file : Option Json) :
    (pruneFile host loadMs file).1.allocations = unexpired host loadMs (storedRows file) ∧
      (storedRows (pruneFile host loadMs file).2).Perm (unexpired host loadMs (storedRows file)) := by
  have hstate : (pruneFile host loadMs file).1.allocations =
      unexpired host loadMs (storedRows file) := by
    rw [← loadState_allocations host loadMs file]
    rfl
  refine ⟨hstate, ?_⟩
  obtain ⟨hnamed, hreread⟩ := storedRows_named file
  by_cases hchanged : (pruneExpired host loadMs (loadState host loadMs file)).2 = true
  · have hfile : (pruneFile host loadMs file).2 = some (stateToValue (pruneFile host loadMs file).1) := by
      simp [pruneFile, hchanged]
    have hkept : Named (pruneFile host loadMs file).1.allocations := by
      rw [hstate]
      exact hnamed.filter _
    rw [hfile]
    refine (storedRows_stateToValue hkept).trans (List.Perm.of_eq ?_)
    rw [hstate]
    refine (List.map_congr_left fun r hr => ?_).trans (List.map_id _)
    rw [hreread r (List.mem_of_mem_filter hr)]
    rfl
  · have hfile : (pruneFile host loadMs file).2 = file := by
      simp [pruneFile, hchanged]
    have hlength : (unexpired host loadMs (storedRows file)).length = (storedRows file).length := by
      rw [← loadState_allocations host loadMs file]
      simpa [pruneExpired, unexpired, -List.length_filter_eq_length_iff] using hchanged
    rw [hfile]
    exact List.Perm.of_eq (List.filter_sublist.eq_of_length hlength).symm

end Complete

/-! ## What a request is granted -/

section Grant

variable {host : Host} {policy : SpawnPolicy} {globalMaxCells : ℤ} {reading : Reading}

/-- The cells a request gets of the state it has loaded. -/
def grantedCells (policy : SpawnPolicy) (globalMaxCells : ℤ) (flags : Request) (state : BrokerState) :
    ℤ :=
  max 0 (min (clampI64 (flags.requestedCells.getD 0) 0 4096)
    (computeLimits policy state (normalizeModuleName flags.module) globalMaxCells).maxCells)

/-- The row a request puts in. -/
def grantedRow (host : Host) (policy : SpawnPolicy) (globalMaxCells : ℤ) (flags : Request)
    (nowMs : ℤ) (state : BrokerState) : Allocation where
  cells := grantedCells policy globalMaxCells flags state
  ts := host.nowIso nowMs
  reason := String.ofList ((RustStd.trim flags.reason).toList.take 160)
  leaseExpiresAt := resolveLeaseExpiry host policy.leases flags.leaseSec nowMs

/-- The state a request leaves. -/
def grantedState (host : Host) (policy : SpawnPolicy) (globalMaxCells : ℤ) (flags : Request)
    (nowMs : ℤ) (state : BrokerState) : BrokerState where
  version := 1
  ts := host.nowIso nowMs
  allocations :=
    if grantedCells policy globalMaxCells flags state ≤ 0 then
      removeRow (normalizeModuleName flags.module) state.allocations
    else insertRow (normalizeModuleName flags.module)
      (grantedRow host policy globalMaxCells flags nowMs state) state.allocations

theorem grant_cases (flags : Request) (state : BrokerState) :
    let limits := computeLimits policy state (normalizeModuleName flags.module) globalMaxCells
    let answer := Answer.granted limits (grantedCells policy globalMaxCells flags state)
      (resolveLeaseExpiry host policy.leases flags.leaseSec reading.nowMs)
    (reading.autopaused = true ∧
        grant host policy globalMaxCells flags reading state = .done (.blocked limits)) ∨
      (reading.autopaused = false ∧ flags.apply = false ∧
        grant host policy globalMaxCells flags reading state = .done answer) ∨
      (reading.autopaused = false ∧ flags.apply = true ∧
        grant host policy globalMaxCells flags reading state =
          .changed (grantedState host policy globalMaxCells flags reading.nowMs state) answer) := by
  unfold grant
  dsimp only
  cases reading.autopaused with
  | true => exact .inl ⟨rfl, rfl⟩
  | false =>
    cases flags.apply with
    | false => exact .inr (.inl ⟨rfl, rfl, rfl⟩)
    | true => exact .inr (.inr ⟨rfl, rfl, rfl⟩)

/-- The rows that a request saves. -/
theorem storedRows_grantedState {flags : Request} {nowMs : ℤ} {state : BrokerState}
    (hnamed : Named state.allocations) (hread : ∀ r ∈ state.allocations, r.2.reread = r.2)
    (hcells : 0 ≤ grantedCells policy globalMaxCells flags state ∧
      grantedCells policy globalMaxCells flags state ≤ 4096) :
    (storedRows
      (some (stateToValue (grantedState host policy globalMaxCells flags nowMs state)))).Perm
      (if grantedCells policy globalMaxCells flags state ≤ 0 then
        removeRow (normalizeModuleName flags.module) state.allocations
      else (normalizeModuleName flags.module,
          (grantedRow host policy globalMaxCells flags nowMs state).reread) ::
        removeRow (normalizeModuleName flags.module) state.allocations) := by
  have hothers (name : String) :
      (removeRow name state.allocations).map (fun r => (r.1, r.2.reread)) =
        removeRow name state.allocations := by
    refine (List.map_congr_left fun r hr => ?_).trans (List.map_id _)
    rw [hread r (List.mem_of_mem_filter hr)]
    rfl
  have hstate : Named (grantedState host policy globalMaxCells flags nowMs state).allocations := by
    unfold grantedState
    dsimp only
    split
    · exact hnamed.filter _
    · exact hnamed.insertRow (normalName_normalizeModuleName _) hcells
  refine (storedRows_stateToValue hstate).trans (List.Perm.of_eq ?_)
  unfold grantedState
  dsimp only
  split
  · exact hothers _
  · rw [insertRow, List.map_cons]
    dsimp only
    exact List.cons_eq_cons.mpr ⟨rfl, hothers (normalizeModuleName flags.module)⟩

theorem grantedCells_nonneg (flags : Request) (state : BrokerState) :
    0 ≤ grantedCells policy globalMaxCells flags state := le_max_left _ _

/-- What is granted keeps to the request, to the quota and to what is left of the pool. -/
theorem grantedCells_le (hpool : 0 ≤ globalMaxCells) (flags : Request) (state : BrokerState)
    (hquota : 0 ≤ quotaOf policy.quotas (normalizeModuleName flags.module)) :
    grantedCells policy globalMaxCells flags state ≤ max (flags.requestedCells.getD 0) 0 ∧
      grantedCells policy globalMaxCells flags state ≤ 4096 ∧
      grantedCells policy globalMaxCells flags state ≤
        quotaOf policy.quotas (normalizeModuleName flags.module) ∧
      grantedCells policy globalMaxCells flags state ≤
        max (globalMaxCells - sumAllocations state (normalizeModuleName flags.module)) 0 := by
  have hrequested : clampI64 (flags.requestedCells.getD 0) 0 4096 ≤
      max (flags.requestedCells.getD 0) 0 := by
    rw [clampI64]
    split
    · omega
    · split
      · omega
      · omega
  have hbound : clampI64 (flags.requestedCells.getD 0) 0 4096 ≤ 4096 := clampI64_le (by norm_num)
  have hmodule : moduleQuotaMax policy (normalizeModuleName flags.module) (max globalMaxCells 0) ≤
      quotaOf policy.quotas (normalizeModuleName flags.module) := by
    rw [moduleQuotaMax, clampI64]
    change (if quotaOf policy.quotas _ < 0 then 0 else
      if max globalMaxCells 0 < quotaOf policy.quotas _ then max globalMaxCells 0 else _) ≤ _
    split
    · omega
    · split
      · omega
      · exact le_rfl
  simp only [grantedCells, computeLimits]
  refine ⟨?_, ?_, ?_, ?_⟩
  · omega
  · omega
  · omega
  · omega

end Grant

/-! ## Runs -/

/-- A command with all that it reads but the state file. -/
structure Call where
  command : Command
  policy : Option Json
  payload : Json
  loadMs : ℤ
  reading : Reading

/-- The first millisecond of the year 10000, from which on `to_rfc3339` writes what
`parse_from_rfc3339` does not take. -/
def yearTenThousand : ℤ := 253402300800000

/-- What `chrono` promises of the texts of the leases up to there. -/
structure Chrono (host : Host) : Prop where
  parse_toRfc3339 : ∀ ms, 0 ≤ ms → ms < yearTenThousand → ∃ text, host.toRfc3339 ms = some text ∧
    RustStd.trim text = text ∧ text ≠ "" ∧ host.parseIsoMs text = some ms

section Runs

variable (host : Host) (round : ℚ → F64)

namespace Call

def brokerPolicy (call : Call) : BrokerPolicy := loadPolicy round call.policy

def globalMaxCells (call : Call) : ℤ :=
  (hardwareBounds round (call.brokerPolicy round) call.payload).globalMaxCells

/-- The file after a call, and its answer. -/
def ends (call : Call) (file : Option Json) : Option Json × Place :=
  complete host (call.brokerPolicy round).toSpawnPolicy (call.globalMaxCells round) call.command
    call.loadMs call.reading file

end Call

def step (file : Option Json) (call : Call) : Option Json := (call.ends host round file).1

/-- The unexpired rows of the other modules. -/
def otherRows (call : Call) (module : String) (file : Option Json) : List (String × Allocation) :=
  (unexpired host call.loadMs (storedRows file)).filter fun r => r.1 ≠ module

/-- What a request may be granted and may leave. -/
structure Within (file : Option Json) (call : Call) : Prop where
  granted : ∀ flags limits cells lease, call.command = .request flags →
    (call.ends host round file).2 = .done (.granted limits cells lease) →
    let module := normalizeModuleName flags.module
    (0 ≤ cells ∧ cells ≤ max (flags.requestedCells.getD 0) 0) ∧
      cells ≤ quotaOf (call.brokerPolicy round).quotas module ∧
      cells ≤ max (call.globalMaxCells round - cellsOf (otherRows host call module file)) 0
  stored : ∀ flags limits cells lease, call.command = .request flags →
    (call.ends host round file).2 = .done (.granted limits cells lease) → flags.apply = true →
    let module := normalizeModuleName flags.module
    ∃ row, row.cells = cells ∧ (storedRows (step host round file call)).Perm
      (if cells ≤ 0 then otherRows host call module file
      else (module, row) :: otherRows host call module file)
  untouched : ∀ flags, call.command = .request flags →
    (call.reading.autopaused = true ∨ flags.apply = false) →
    (storedRows (step host round file call)).Perm (unexpired host call.loadMs (storedRows file))

def leaseEnd (leases : LeasePolicy) (flags : Request) (nowMs : ℤ) : ℤ :=
  nowMs + clampI64 (flags.leaseSec.getD leases.defaultTtlSec) 5 leases.maxTtlSec * 1000

/-- A row comes from a request, and where its lease has an end that can be written it expires
`max_ttl_sec` after the grant or before. -/
def Lapses (call : Call) (r : String × Allocation) : Prop :=
  ∃ flags, call.command = .request flags ∧ r.1 = normalizeModuleName flags.module ∧
    let leases := (call.brokerPolicy round).leases
    (leases.enabled = true → 0 ≤ leaseEnd leases flags call.reading.nowMs →
      leaseEnd leases flags call.reading.nowMs < yearTenThousand →
      ∀ nowMs, call.reading.nowMs + leases.maxTtlSec * 1000 ≤ nowMs → isExpired host nowMs r.2 = true)

/-- No reading of the clock is before the last one. -/
def Forward : ℤ → List Call → Prop
  | _, [] => True
  | nowMs, call :: calls =>
    nowMs ≤ call.loadMs ∧ call.loadMs ≤ call.reading.nowMs ∧ Forward call.reading.nowMs calls

/-- The last reading of the clock. -/
def clockAfter (nowMs : ℤ) (calls : List Call) : ℤ :=
  calls.foldl (fun _ call => call.reading.nowMs) nowMs

end Runs

section Steps

variable {host : Host} {round : ℚ → F64} {file : Option Json} {call : Call}

theorem globalMaxCells_nonneg (call : Call) : 0 ≤ call.globalMaxCells round := by
  have hpool : 0 ≤ (call.brokerPolicy round).pool.minCells := by
    unfold Call.brokerPolicy loadPolicy
    cases call.policy with
    | none => simp [defaultPolicy]
    | some raw =>
      dsimp only
      cases (raw.get? "pool").bind Json.asObject with
      | none => simp [defaultPolicy]
      | some fields => exact le_clampI64 (by norm_num)
  exact hpool.trans (le_max_left _ _)

/-- How a request ends: it is blocked, or answers without a change, or is applied. -/
theorem request_cases {flags : Request} (h : call.command = .request flags) :
    let policy := (call.brokerPolicy round).toSpawnPolicy
    let state := (pruneFile host call.loadMs file).1
    let limits :=
      computeLimits policy state (normalizeModuleName flags.module) (call.globalMaxCells round)
    let answer := Answer.granted limits (grantedCells policy (call.globalMaxCells round) flags state)
      (resolveLeaseExpiry host policy.leases flags.leaseSec call.reading.nowMs)
    (call.reading.autopaused = true ∧
        call.ends host round file = ((pruneFile host call.loadMs file).2, .done (.blocked limits))) ∨
      (call.reading.autopaused = false ∧ flags.apply = false ∧
        call.ends host round file = ((pruneFile host call.loadMs file).2, .done answer)) ∨
      (call.reading.autopaused = false ∧ flags.apply = true ∧
        call.ends host round file =
          (some (stateToValue (grantedState host policy (call.globalMaxCells round) flags
            call.reading.nowMs state)), .done answer)) := by
  have hends : call.ends host round file = finish (pruneFile host call.loadMs file).2
      (grant host (call.brokerPolicy round).toSpawnPolicy (call.globalMaxCells round) flags
        call.reading (pruneFile host call.loadMs file).1) := by
    unfold Call.ends
    rw [h]
    exact complete_of_prunes (by simp)
  dsimp only
  rw [hends]
  obtain ⟨hpaused, hgrant⟩ | ⟨hpaused, happly, hgrant⟩ | ⟨hpaused, happly, hgrant⟩ :=
    @grant_cases host (call.brokerPolicy round).toSpawnPolicy (call.globalMaxCells round)
      call.reading flags (pruneFile host call.loadMs file).1
  · exact .inl ⟨hpaused, by rw [hgrant, finish_done]⟩
  · exact .inr (.inl ⟨hpaused, happly, by rw [hgrant, finish_done]⟩)
  · exact .inr (.inr ⟨hpaused, happly, by rw [hgrant, finish_changed]⟩)

theorem removeRow_pruneFile (module : String) :
    removeRow module (pruneFile host call.loadMs file).1.allocations =
      otherRows host call module file := by
  rw [(pruneFile_spec host call.loadMs file).1]
  rfl

theorem grantedCells_pruneFile_le (flags : Request) :
    let policy := (call.brokerPolicy round).toSpawnPolicy
    let cells := grantedCells policy (call.globalMaxCells round) flags
      (pruneFile host call.loadMs file).1
    cells ≤ max (flags.requestedCells.getD 0) 0 ∧ cells ≤ 4096 ∧
      cells ≤ quotaOf policy.quotas (normalizeModuleName flags.module) ∧
      cells ≤ max (call.globalMaxCells round -
        cellsOf (otherRows host call (normalizeModuleName flags.module) file)) 0 := by
  have hle := @grantedCells_le (call.brokerPolicy round).toSpawnPolicy (call.globalMaxCells round)
    (globalMaxCells_nonneg call) flags (pruneFile host call.loadMs file).1
    ((loadPolicy_spec call.policy).1 _)
  have hothers : sumAllocations (pruneFile host call.loadMs file).1 (normalizeModuleName flags.module) =
      cellsOf (otherRows host call (normalizeModuleName flags.module) file) :=
    congrArg cellsOf (removeRow_pruneFile _)
  rwa [hothers] at hle

theorem storedRows_applied (flags : Request) :
    let policy := (call.brokerPolicy round).toSpawnPolicy
    let state := (pruneFile host call.loadMs file).1
    let module := normalizeModuleName flags.module
    (storedRows (some (stateToValue
        (grantedState host policy (call.globalMaxCells round) flags call.reading.nowMs state)))).Perm
      (if grantedCells policy (call.globalMaxCells round) flags state ≤ 0 then
        otherRows host call module file
      else (module, (grantedRow host policy (call.globalMaxCells round) flags call.reading.nowMs
          state).reread) :: otherRows host call module file) := by
  obtain ⟨hnamed, hreread⟩ := storedRows_named file
  have hrows := (pruneFile_spec host call.loadMs file).1
  have hkept : Named (pruneFile host call.loadMs file).1.allocations := by
    rw [hrows]
    exact hnamed.filter _
  have hread : ∀ r ∈ (pruneFile host call.loadMs file).1.allocations, r.2.reread = r.2 := by
    intro r hr
    rw [hrows] at hr
    exact hreread r (List.mem_of_mem_filter hr)
  have hperm := @storedRows_grantedState host (call.brokerPolicy round).toSpawnPolicy
    (call.globalMaxCells round) flags call.reading.nowMs _ hkept hread
    ⟨grantedCells_nonneg flags _, (grantedCells_pruneFile_le flags).2.1⟩
  rwa [removeRow_pruneFile] at hperm

/-- Every call keeps to the limits. -/
theorem within (host : Host) (round : ℚ → F64) (file : Option Json) (call : Call) :
    Within host round file call := by
  refine ⟨fun flags limits cells lease hcommand hanswer => ?_,
    fun flags limits cells lease hcommand hanswer happly => ?_, fun flags hcommand hidle => ?_⟩
  · obtain ⟨hrequested, -, hquota, hpool⟩ := @grantedCells_pruneFile_le host round file call flags
    have hcells : cells = grantedCells (call.brokerPolicy round).toSpawnPolicy
        (call.globalMaxCells round) flags (pruneFile host call.loadMs file).1 := by
      obtain ⟨-, hends⟩ | ⟨-, -, hends⟩ | ⟨-, -, hends⟩ :=
      @request_cases host round file call flags hcommand
      · rw [hends] at hanswer
        exact absurd (Place.done.inj hanswer) (by simp)
      · rw [hends] at hanswer
        exact ((Answer.granted.inj (Place.done.inj hanswer)).2.1).symm
      · rw [hends] at hanswer
        exact ((Answer.granted.inj (Place.done.inj hanswer)).2.1).symm
    rw [hcells]
    exact ⟨⟨grantedCells_nonneg _ _, hrequested⟩, hquota, hpool⟩
  · obtain ⟨-, hends⟩ | ⟨-, hidle, -⟩ | ⟨-, -, hends⟩ :=
      @request_cases host round file call flags hcommand
    · rw [hends] at hanswer
      exact absurd (Place.done.inj hanswer) (by simp)
    · rw [hidle] at happly
      cases happly
    · rw [hends] at hanswer
      have hcells := (Answer.granted.inj (Place.done.inj hanswer)).2.1
      refine ⟨(grantedRow host (call.brokerPolicy round).toSpawnPolicy (call.globalMaxCells round) flags
        call.reading.nowMs (pruneFile host call.loadMs file).1).reread, hcells, ?_⟩
      rw [step, hends, ← hcells]
      exact storedRows_applied flags
  · have hpruned := (pruneFile_spec host call.loadMs file).2
    obtain ⟨-, hends⟩ | ⟨-, -, hends⟩ | ⟨hrunning, happly, -⟩ :=
      @request_cases host round file call flags hcommand
    · rw [step, hends]
      exact hpruned
    · rw [step, hends]
      exact hpruned
    · rw [hrunning, happly] at hidle
      simp at hidle

theorem status_ends {module : Option String} (h : call.command = .status module) :
    step host round file call = (pruneFile host call.loadMs file).2 := by
  unfold step Call.ends
  rw [h, complete_of_prunes (by simp)]
  rfl

theorem release_ends {module : Option String} (h : call.command = .release module) :
    (storedRows (step host round file call)).Perm
      (removeRow (normalizeModuleName module) (storedRows file)) := by
  obtain ⟨hnamed, hreread⟩ := storedRows_named file
  unfold step Call.ends
  rw [h, complete_release]
  unfold compute
  rw [finish_changed]
  dsimp only
  rw [loadState_allocations]
  refine (storedRows_stateToValue (hnamed.filter _)).trans (List.Perm.of_eq ?_)
  refine (List.map_congr_left fun r hr => ?_).trans (List.map_id _)
  rw [hreread r (List.mem_of_mem_filter hr)]
  rfl

/-- The lease of the row a request saves. -/
theorem isExpired_grantedRow (hchrono : Chrono host) {policy : SpawnPolicy} {globalMaxCells : ℤ}
    {flags : Request} {nowMs : ℤ} {state : BrokerState} (henabled : policy.leases.enabled = true)
    (hmax : 5 ≤ policy.leases.maxTtlSec) (hlo : 0 ≤ leaseEnd policy.leases flags nowMs)
    (hhi : leaseEnd policy.leases flags nowMs < yearTenThousand) {t : ℤ}
    (ht : nowMs + policy.leases.maxTtlSec * 1000 ≤ t) :
    isExpired host t (grantedRow host policy globalMaxCells flags nowMs state).reread = true := by
  obtain ⟨text, htext, htrim, hne, hparse⟩ := hchrono.parse_toRfc3339 _ hlo hhi
  have hlease : resolveLeaseExpiry host policy.leases flags.leaseSec nowMs = some text := by
    rw [resolveLeaseExpiry, if_pos henabled]
    exact htext
  have hread : (grantedRow host policy globalMaxCells flags nowMs state).reread.leaseExpiresAt =
      some text := by
    simp [Allocation.reread, grantedRow, hlease, htrim, hne, Option.filter_some]
  have hend : leaseEnd policy.leases flags nowMs ≤ t := by
    have hclamp : clampI64 (flags.leaseSec.getD policy.leases.defaultTtlSec) 5
        policy.leases.maxTtlSec ≤ policy.leases.maxTtlSec := clampI64_le hmax
    unfold leaseEnd
    omega
  rw [isExpired, hread, Option.bind_some, hparse]
  simpa using hend

/-- The rows after a call were there before it, or the call is a request that put them in. -/
theorem rows_step (hchrono : Chrono host) {r : String × Allocation}
    (hr : r ∈ storedRows (step host round file call)) :
    r ∈ storedRows file ∨ Lapses host round call r := by
  have hpruned {r : String × Allocation} (hr : r ∈ storedRows (pruneFile host call.loadMs file).2) :
      r ∈ storedRows file :=
    List.mem_of_mem_filter ((pruneFile_spec host call.loadMs file).2.mem_iff.mp hr)
  cases hcommand : call.command with
  | status module =>
    rw [status_ends hcommand] at hr
    exact .inl (hpruned hr)
  | release module => exact .inl (List.mem_of_mem_filter ((release_ends hcommand).mem_iff.mp hr))
  | request flags =>
    obtain ⟨-, hends⟩ | ⟨-, -, hends⟩ | ⟨-, -, hends⟩ :=
      @request_cases host round file call flags hcommand
    · rw [step, hends] at hr
      exact .inl (hpruned hr)
    · rw [step, hends] at hr
      exact .inl (hpruned hr)
    · rw [step, hends] at hr
      have hmem := (storedRows_applied flags).mem_iff.mp hr
      have hother (h : r ∈ otherRows host call (normalizeModuleName flags.module) file) :
          r ∈ storedRows file := List.mem_of_mem_filter (List.mem_of_mem_filter h)
      split at hmem
      · exact .inl (hother hmem)
      · obtain hnew | hmem := List.mem_cons.mp hmem
        · have hname : r.1 = normalizeModuleName flags.module := by rw [hnew]
          refine .inr ⟨flags, hcommand, hname, fun henabled hlo hhi t ht => ?_⟩
          rw [hnew]
          exact isExpired_grantedRow hchrono henabled (loadPolicy_spec call.policy).2 hlo hhi ht
        · exact .inl (hother hmem)

/-! ## The live total -/

theorem isExpired_mono {row : Allocation} {ms t : ℤ} (hle : ms ≤ t)
    (h : isExpired host ms row = true) : isExpired host t row = true := by
  unfold isExpired at h ⊢
  split
  · rename_i hnone
    rw [hnone] at h
    cases h
  · rename_i expiry hsome
    rw [hsome] at h
    simp only [decide_eq_true_eq] at h ⊢
    omega

theorem cellsOf_perm {rows rows' : List (String × Allocation)} (h : rows.Perm rows') :
    cellsOf rows = cellsOf rows' := (h.map _).sum_eq

theorem cellsOf_filter_le_of {keep keep' : String × Allocation → Bool}
    (himp : ∀ r, keep r = true → keep' r = true) (rows : List (String × Allocation)) :
    cellsOf (rows.filter keep) ≤ cellsOf (rows.filter keep') := by
  have hsame : rows.filter keep = (rows.filter keep').filter keep := by
    rw [List.filter_filter]
    refine List.filter_congr fun r _ => ?_
    cases hkeep : keep r with
    | false => simp
    | true => simp [himp r hkeep]
  rw [hsame]
  exact cellsOf_filter_le _ _

/-- As time goes by, less is live. -/
theorem liveCells_anti {ms t : ℤ} (hle : ms ≤ t) : liveCells host t file ≤ liveCells host ms file := by
  refine cellsOf_filter_le_of (fun r hr => ?_) (storedRows file)
  cases hexpired : isExpired host ms r.2 with
  | false => rfl
  | true =>
    rw [isExpired_mono hle hexpired] at hr
    exact hr

/-- **One call** keeps the live total within the pool. -/
theorem liveCells_step {globalMaxCells ms : ℤ} (hpool : call.globalMaxCells round = globalMaxCells)
    (hms : ms ≤ call.loadMs) (hload : call.loadMs ≤ call.reading.nowMs)
    (hlive : liveCells host ms file ≤ globalMaxCells) :
    liveCells host call.reading.nowMs (step host round file call) ≤ globalMaxCells := by
  obtain ⟨hrows, hfile⟩ := pruneFile_spec host call.loadMs file
  have hloaded : cellsOf (unexpired host call.loadMs (storedRows file)) ≤ globalMaxCells :=
    (liveCells_anti hms).trans hlive
  have hall {file' : Option Json} (h : cellsOf (storedRows file') ≤ globalMaxCells) :
      liveCells host call.reading.nowMs file' ≤ globalMaxCells := (cellsOf_filter_le _ _).trans h
  have hpruned : cellsOf (storedRows (pruneFile host call.loadMs file).2) ≤ globalMaxCells := by
    rw [cellsOf_perm hfile]
    exact hloaded
  cases hcommand : call.command with
  | status module =>
    rw [status_ends hcommand]
    exact hall hpruned
  | release module =>
    have hperm := (@release_ends host round file call module hcommand).filter
      fun r => !isExpired host call.reading.nowMs r.2
    have hremoved : cellsOf ((removeRow (normalizeModuleName module) (storedRows file)).filter
        fun r => !isExpired host call.reading.nowMs r.2) ≤
        liveCells host call.reading.nowMs file := by
      rw [removeRow, List.filter_filter]
      refine cellsOf_filter_le_of (fun r hr => ?_) _
      simp only [Bool.and_eq_true] at hr
      exact hr.1
    rw [liveCells, cellsOf_perm hperm]
    exact (hremoved.trans (liveCells_anti (hms.trans hload))).trans hlive
  | request flags =>
    obtain ⟨-, hends⟩ | ⟨-, -, hends⟩ | ⟨hrunning, happly, hends⟩ :=
      @request_cases host round file call flags hcommand
    · rw [step, hends]
      exact hall hpruned
    · rw [step, hends]
      exact hall hpruned
    · rw [step, hends]
      refine hall ?_
      have hothers : cellsOf (otherRows host call (normalizeModuleName flags.module) file) ≤
          globalMaxCells := (cellsOf_filter_le _ _).trans hloaded
      have hcells := (@grantedCells_pruneFile_le host round file call flags).2.2.2
      rw [hpool] at hcells
      rw [cellsOf_perm (storedRows_applied flags)]
      split
      · exact hothers
      · rw [cellsOf_cons]
        change max (grantedCells _ _ flags _) 0 + _ ≤ _
        rw [hpool]
        omega

end Steps

theorem liveCells_run {host : Host} {round : ℚ → F64} {globalMaxCells : ℤ} {calls : List Call}
    {file : Option Json} {ms : ℤ} (hforward : Forward ms calls)
    (hpool : ∀ call ∈ calls, call.globalMaxCells round = globalMaxCells)
    (hlive : liveCells host ms file ≤ globalMaxCells) (n : ℕ) :
    ∀ t, clockAfter ms (calls.take n) ≤ t →
      liveCells host t (Runs.before (step host round) file calls n) ≤ globalMaxCells := by
  induction calls generalizing file ms n with
  | nil =>
    intro t ht
    rw [List.take_nil] at ht
    simpa [Runs.before] using (liveCells_anti ht).trans hlive
  | cons call calls ih =>
    intro t ht
    cases n with
    | zero => exact (liveCells_anti ht).trans hlive
    | succ n =>
      obtain ⟨hms, hload, hrest⟩ := hforward
      exact ih hrest (fun c hc => hpool c (by simp [hc]))
        (liveCells_step (hpool call (by simp)) hms hload hlive) n t ht

/-- **The broker grants within limits.**  Whatever the clock shows, every request keeps to what it
asks for, to the quota of its module and to what the other unexpired allocations leave of the pool;
a request that is paused or not applied leaves the allocations as they were pruned; and what stands
in the file was there at the start or lapses.  While the clock is not put back, the live total stays
within the pool. -/
theorem grants_within_limits {host : Host} (hchrono : Chrono host) (round : ℚ → F64)
    (file : Option Json) (calls : List Call) :
    (∀ n call, calls[n]? = some call →
      Within host round (Runs.before (step host round) file calls n) call) ∧
    (∀ n, ∀ r ∈ storedRows (Runs.before (step host round) file calls n),
      r ∈ storedRows file ∨ ∃ k call, k < n ∧ calls[k]? = some call ∧ Lapses host round call r) ∧
    ∀ ms globalMaxCells, Forward ms calls →
      (∀ call ∈ calls, call.globalMaxCells round = globalMaxCells) →
      liveCells host ms file ≤ globalMaxCells → ∀ n t, clockAfter ms (calls.take n) ≤ t →
        liveCells host t (Runs.before (step host round) file calls n) ≤ globalMaxCells := by
  refine ⟨fun n call _ => within host round _ call, fun n => ?_,
    fun ms globalMaxCells hforward hpool hlive n => liveCells_run hforward hpool hlive n⟩
  induction n with
  | zero => exact fun r hr => .inl hr
  | succ n ih =>
    intro r hr
    have hbefore (h : r ∈ storedRows (Runs.before (step host round) file calls n)) :
        r ∈ storedRows file ∨ ∃ k call, k < n + 1 ∧ calls[k]? = some call ∧ Lapses host round call r := by
      obtain hstart | ⟨k, call, hk, hcall, hlapses⟩ := ih r h
      · exact .inl hstart
      · exact .inr ⟨k, call, hk.trans (Nat.lt_succ_self n), hcall, hlapses⟩
    cases hcall : calls[n]? with
    | none =>
      rw [Runs.before_succ_of_none (step host round) hcall] at hr
      exact hbefore hr
    | some call =>
      rw [Runs.before_succ_of_some (step host round) hcall] at hr
      obtain hold | hlapses := rows_step hchrono hr
      · exact hbefore hold
      · exact .inr ⟨n, call, Nat.lt_succ_self n, hcall, hlapses⟩

/-! ## Two clocks -/

/-- Texts of the clock: the two that the runs below come by, and as many letters as there are
milliseconds for the others. -/
def textHost : Host where
  parseIsoMs text :=
    if text = "1970-01-01T00:00:05+00:00" then some 5000
    else if text.toList ≠ [] ∧ text.toList.all (· = 'm') then some (text.toList.length - 1) else none
  toRfc3339 ms :=
    if ms = 5000 then some "1970-01-01T00:00:05+00:00"
    else if ms = yearTenThousand then some "+10000-01-01T00:00:00+00:00"
    else some (String.ofList (List.replicate (ms.toNat + 1) 'm'))
  nowIso _ := ""

theorem chrono_textHost : Chrono textHost := by
  refine ⟨fun ms hlo hhi => ?_⟩
  by_cases hfive : ms = 5000
  · subst hfive
    exact ⟨"1970-01-01T00:00:05+00:00", by decide⟩
  · let text := String.ofList (List.replicate (ms.toNat + 1) 'm')
    have hlist : text.toList = List.replicate (ms.toNat + 1) 'm' := String.toList_ofList
    have hall : ∀ c ∈ text.toList, c = 'm' := by
      rw [hlist]
      exact fun c hc => List.eq_of_mem_replicate hc
    have hne : text ≠ "1970-01-01T00:00:05+00:00" := by
      intro h
      have hdigit := hall '1' (by rw [h]; decide)
      simp at hdigit
    have hlength : text.toList.length = ms.toNat + 1 := by rw [hlist, List.length_replicate]
    have hnonempty : text.toList ≠ [] := List.ne_nil_of_length_eq_add_one hlength
    refine ⟨text, ?_, ?_, ?_, ?_⟩
    · simp only [textHost, if_neg hfive, if_neg hhi.ne]
      rfl
    · exact RustStd.trim_eq_self fun c hc => by rw [hall c hc]; rfl
    · rintro h
      rw [h] at hnonempty
      exact hnonempty rfl
    · simp only [textHost, if_neg hne]
      rw [if_pos ⟨hnonempty, List.all_eq_true.mpr fun c hc => by simpa using hall c hc⟩, hlength]
      simp [hlo]

/-- A call under the default policy on a machine nothing is known of, whose pool is six cells. -/
def plainCall (command : Command) (nowMs : ℤ) : Call where
  command := command
  policy := none
  payload := .null
  loadMs := nowMs
  reading := ⟨nowMs, false⟩

/-- A request for two cells for five seconds. -/
def shortRequest (module : String) (apply : Bool) : Command :=
  .request ⟨some module, some 2, "", apply, some 5⟩

theorem grants_within_limits_short :
    liveCells textHost 5 (Runs.before (step textHost .finite) none
      [plainCall (shortRequest "swarm" true) 0, plainCall (shortRequest "reflex" true) 0] 2) ≤ 6 :=
  (grants_within_limits chrono_textHost .finite none
    [plainCall (shortRequest "swarm" true) 0, plainCall (shortRequest "reflex" true) 0]).2.2 0 6
    (by simp [Forward, plainCall]) (by decide) (by decide) 2 5 (by decide)

/-- Four cells until the fifth second, and four for good. -/
def crowded : Option Json :=
  some (stateToValue
    { version := 1
      ts := ""
      allocations := [("a", ⟨4, "", "", some "1970-01-01T00:00:05+00:00"⟩), ("b", ⟨4, "", "", none⟩)] })

/-- A clock that is put back makes an expired row live again; a module is granted nothing where the
others have more than the pool, which is more than what they leave; and a lease that ends in the
year 10000 does not end. -/
theorem limits_missed :
    (liveCells textHost 5000 (step textHost .finite crowded (plainCall (.release "c") 5000)) ≤ 6 ∧
      6 < liveCells textHost 4999 (Runs.before (step textHost .finite) crowded
        [plainCall (.release "c") 5000, plainCall (.release "c") 4999] 2)) ∧
    (((plainCall (shortRequest "c" true) 4999).ends textHost .finite crowded).2 matches
        .done (.granted _ 0 _)) ∧
      6 - cellsOf (otherRows textHost (plainCall (shortRequest "c" true) 4999) "c" crowded) < 0 ∧
    ∃ r ∈ storedRows (step textHost .finite none
        (plainCall (shortRequest "a" true) (yearTenThousand - 5000))),
      r.2.leaseExpiresAt.isSome ∧
        isExpired textHost (yearTenThousand - 5000 + 3600 * 1000) r.2 = false := by
  refine ⟨by decide, by decide, by decide, by decide⟩

end Protheus.SpawnBroker
