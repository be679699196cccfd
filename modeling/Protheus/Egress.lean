import Protheus.LaneUtils
import Protheus.Lib.Runs
import Protheus.V8Kernel

/-!
The egress gateway of `egress_gateway_kernel.rs`: which outbound calls are let through,
and how many of them in an hour and in a day.

A call names a scope; the scope's rule says which methods and hosts it may use and how
often.  The gateway keeps one counter for each scope and one for all scopes together,
for each hour and each day.  The counters go up where a rule lets a call through; what
the policy's default decision lets through is not counted.  A counter belongs to the
scope a call names, not to the rule it is resolved to, and all the scopes below
`sensory.collector.` that have no rule of their own are resolved to one.  `caps_hold`
says what the caps hold for all the same.
-/

namespace Protheus.Egress

open LaneUtils

/-- What the process gets from outside: the texts of the clock's hours, days and
instants, where it has them, and the text of a float in JSON. -/
structure Host where
  hourText : ℤ → Option String
  dayText : ℤ → Option String
  isoText : ℤ → Option String
  printFloat : ℚ → String

/-! ## Policy -/

inductive Period where
  | hour
  | day
  deriving DecidableEq

structure RateCaps where
  perHour : Option UInt64
  perDay : Option UInt64
  deriving DecidableEq

def RateCaps.cap (caps : RateCaps) : Period → Option UInt64
  | .hour => caps.perHour
  | .day => caps.perDay

structure ScopeRule where
  id : String
  methods : List String
  domains : List String
  requireRuntimeAllowlist : Bool
  rateCaps : RateCaps
  deriving DecidableEq

structure Policy where
  defaultDecision : String
  globalRateCaps : RateCaps
  /-- The `BTreeMap` of the rules. -/
  scopes : List (String × ScopeRule)
  /-- A rule stands under its own id. -/
  scopes_id : ∀ id rule, scopes.lookup id = some rule → rule.id = id

/-- `resolve_scope_rule`. -/
def resolveScopeRule (policy : Policy) (scopeId : String) : Option ScopeRule :=
  match policy.scopes.lookup scopeId with
  | some rule => some rule
  | none =>
    if "sensory.collector.".toList <+: scopeId.toList then
      policy.scopes.lookup "sensory.collector.dynamic"
    else none

/-- What a scope is resolved to is the rule of that id. -/
theorem lookup_of_resolve {policy : Policy} {scopeId : String} {rule : ScopeRule}
    (h : resolveScopeRule policy scopeId = some rule) : policy.scopes.lookup rule.id = some rule := by
  unfold resolveScopeRule at h
  split at h
  · cases h
    rwa [policy.scopes_id _ _ ‹_›]
  · split at h
    · rwa [policy.scopes_id _ _ h]
    · cases h

/-- A rule is known by its id. -/
theorem eq_of_resolve {policy : Policy} {scopeId : String} {rule rule' : ScopeRule}
    (h : resolveScopeRule policy scopeId = some rule') (hid : rule'.id = rule.id)
    (hrule : policy.scopes.lookup rule.id = some rule) : rule' = rule := by
  have hlookup := lookup_of_resolve h
  rw [hid, hrule] at hlookup
  exact (Option.some.inj hlookup).symm

/-! ## Counters -/

/-- `to_u64`. -/
def toU64 : Option Json → Option UInt64
  | some (.num n) =>
    (Json.num n).asU64.or ((Json.num n).asI64.map fun raw => UInt64.ofNat raw.toNat)
  | some (.str raw) => RustStd.parseU64 (RustStd.trim raw)
  | _ => none

/-- `count_key`. -/
def countKey (scopeId epochKey : String) : String := scopeId ++ ":" ++ epochKey

/-- `counter_value`. -/
def counterValue (map : List (String × Json)) (key : String) : UInt64 :=
  (toU64 (map.lookup key)).getD 0

/-- `check_cap`. -/
def checkCap (map : List (String × Json)) (key : String) (cap : Option UInt64) : Bool :=
  match cap with
  | some limit => if 0 < limit then decide (counterValue map key < limit) else true
  | none => true

/-- `increment_counter`. -/
def incrementCounter (map : List (String × Json)) (key : String) : List (String × Json) :=
  Json.insertField key (.num (.posInt (RustStd.satAdd (counterValue map key) 1))) map

/-- The field of the state that holds a period's counters. -/
def Period.field : Period → String
  | hour => "per_hour"
  | day => "per_day"

@[simp] theorem counterValue_incrementCounter_same (map : List (String × Json)) (key : String) :
    counterValue (incrementCounter map key) key = RustStd.satAdd (counterValue map key) 1 := by
  simp [counterValue, incrementCounter, toU64, Json.asU64]

theorem counterValue_incrementCounter_ne (map : List (String × Json)) {key other : String}
    (h : other ≠ key) : counterValue (incrementCounter map key) other = counterValue map other := by
  rw [counterValue, incrementCounter, Json.lookup_insertField_ne h, counterValue]

/-- No counter goes down. -/
theorem le_incrementCounter (map : List (String × Json)) (key other : String) :
    counterValue map other ≤ counterValue (incrementCounter map key) other := by
  by_cases h : other = key
  · subst h
    rw [counterValue_incrementCounter_same]
    exact RustStd.le_satAdd _ _
  · rw [counterValue_incrementCounter_ne map h]
    exact UInt64.le_refl _

/-- A counter below a limit is not saturated, so it goes up. -/
theorem lt_incrementCounter {map : List (String × Json)} {key : String} {limit : UInt64}
    (h : counterValue map key < limit) :
    counterValue map key < counterValue (incrementCounter map key) key := by
  rw [counterValue_incrementCounter_same]
  exact RustStd.lt_satAdd_one h

theorem lt_of_checkCap {map : List (String × Json)} {key : String} {cap : Option UInt64}
    {limit : UInt64} (h : checkCap map key cap = true) (hcap : cap = some limit) (hpos : 0 < limit) :
    counterValue map key < limit := by
  subst hcap
  simpa [checkCap, hpos] using h

/-- The counters of a period as `load_state_model` reads them. -/
def countersOf (file : Option Json) (period : Period) : List (String × Json) :=
  ((file.bind (·.get? period.field)).bind Json.asObject).getD []

/-! ## A call -/

/-- `normalize_token`, character by character. -/
def tokenChars (maxLen : ℕ) : List Char → List Char → Bool → List Char
  | [], out, _ => out
  | ch :: rest, out, prevSep =>
    let lower := ch.toLower
    let keep := lower.isLower || lower.isDigit || ['_', '.', ':', '/', '-'].contains lower
    let next :=
      if keep then (out ++ [lower], false)
      else if prevSep then (out, true)
      else (out ++ ['_'], true)
    if maxLen ≤ next.1.length then next.1 else tokenChars maxLen rest next.1 next.2

/-- `normalize_token`. -/
def normalizeToken (raw : String) (maxLen : ℕ) : String :=
  let out := tokenChars maxLen raw.toList [] false
  String.ofList ((out.dropWhile (· == '_')).reverse.dropWhile (· == '_')).reverse

/-- What follows the first `://`. -/
def afterScheme : List Char → Option (List Char)
  | ':' :: '/' :: '/' :: rest => some rest
  | _ :: rest => afterScheme rest
  | [] => none

/-- `parse_host`. -/
def parseHost (rawUrl : String) : String :=
  let lower := RustStd.toAsciiLowercase (RustStd.trim rawUrl)
  let withoutScheme := (afterScheme lower.toList).getD lower.toList
  let hostPort := withoutScheme.takeWhile fun c => !(['/', '?', '#'].contains c)
  let hostPort := (RustStd.trim (String.ofList hostPort)).toList
  let afterUser := (hostPort.reverse.takeWhile (· != '@')).reverse
  RustStd.trim (String.ofList (afterUser.takeWhile (· != ':')))

/-- `domain_matches`. -/
def domainMatches (host domain : String) : Bool :=
  let needle := RustStd.toAsciiLowercase (RustStd.trim domain)
  if needle = "" then false
  else host == needle || decide (('.' :: needle.toList) <:+ host.toList)

/-- A call of `authorize`, and the reading of the clock it falls back on. -/
structure Call where
  payload : List (String × Json)
  clockMs : ℤ

/-- What `authorize_command` reads from a call. -/
structure Request where
  scopeId : String
  method : String
  caller : String
  url : String
  host : String
  runtimeAllowlist : List String
  hourKey : String
  dayKey : String
  ts : String
  apply : Bool

def Request.epochKey (request : Request) : Period → String
  | .hour => request.hourKey
  | .day => request.dayKey

/-- A text for an instant, or for the clock's own where the instant has none. -/
def textAt (text : ℤ → Option String) (nowMs clockMs : ℤ) : String :=
  (text nowMs).getD ((text clockMs).getD "")

/-- The head of `authorize_command`; `none` where `clean_text` aborts the process. -/
def readRequest (host : Host) (call : Call) : Option Request := do
  let scope ← cleanText host.printFloat (call.payload.lookup "scope") 160
  let method ← cleanText host.printFloat (call.payload.lookup "method") 20
  let caller ← cleanText host.printFloat (call.payload.lookup "caller") 120
  let url ← cleanText host.printFloat (call.payload.lookup "url") 2000
  let rows := ((call.payload.lookup "runtime_allowlist").bind Json.asArray).getD []
  let allowlist ← rows.mapM fun row => cleanText host.printFloat (some row) 160
  let method := (normalizeToken method 20).toList.map Char.toUpper
  let caller := normalizeToken caller 120
  let nowMs :=
    match toU64 (call.payload.lookup "now_ms") with
    | some value => value.toInt64.toInt
    | none => call.clockMs
  return {
    scopeId := normalizeToken scope 160
    method := if method = [] then "GET" else String.ofList method
    caller := if caller = "" then "unknown" else caller
    url := url
    host := parseHost url
    runtimeAllowlist := (allowlist.map RustStd.toAsciiLowercase).filter (· ≠ "")
    hourKey := textAt host.hourText nowMs call.clockMs
    dayKey := textAt host.dayText nowMs call.clockMs
    ts := textAt host.isoText nowMs call.clockMs
    apply := ((call.payload.lookup "apply").bind Json.asBool).getD true }

/-- The decision of the gateway; `reason` is also its `code`. -/
structure Decision where
  request : Request
  allow : Bool
  reason : String
  scopeResolved : Option String

/-! ## The gateway -/

/-- Why a rule turns a request down before any cap is looked at. -/
def ruleRefusal (rule : ScopeRule) (request : Request) : Option String :=
  if !rule.methods.contains request.method then some "method_not_allowlisted"
  else if request.host = "" then some "invalid_url"
  else if rule.domains ≠ [] ∧ !rule.domains.any (domainMatches request.host) then
    some "domain_not_allowlisted"
  else if rule.requireRuntimeAllowlist then
    if request.runtimeAllowlist = [] then some "runtime_allowlist_required"
    else if !request.runtimeAllowlist.any (domainMatches request.host) then
      some "runtime_allowlist_blocked"
    else none
  else none

/-- The counter of all scopes together. -/
def globalScope : String := "__global__"

/-- Why the caps turn a request down. -/
def capRefusal (policy : Policy) (rule : ScopeRule) (file : Option Json) (request : Request) :
    Option String :=
  let roomFor (scope : String) (caps : RateCaps) (period : Period) : Bool :=
    checkCap (countersOf file period) (countKey scope (request.epochKey period)) (caps.cap period)
  if !roomFor request.scopeId rule.rateCaps .hour then some "scope_hour_cap_exceeded"
  else if !roomFor request.scopeId rule.rateCaps .day then some "scope_day_cap_exceeded"
  else if !roomFor globalScope policy.globalRateCaps .hour then some "global_hour_cap_exceeded"
  else if !roomFor globalScope policy.globalRateCaps .day then some "global_day_cap_exceeded"
  else none

/-- A period's counters after a request that was let through. -/
def counted (file : Option Json) (request : Request) (period : Period) : List (String × Json) :=
  incrementCounter
    (incrementCounter (countersOf file period)
      (countKey request.scopeId (request.epochKey period)))
    (countKey globalScope (request.epochKey period))

/-- The state file after a request that was let through. -/
def countedFile (file : Option Json) (request : Request) : Json :=
  .ofFields [("schema_id", .str "egress_gateway_state"), ("schema_version", .str "1.0"),
    ("updated_at", .str request.ts), ("per_hour", .obj (counted file request .hour)),
    ("per_day", .obj (counted file request .day))]

/-- `authorize_command`, past its head: the decision and what the state file holds. -/
def authorize (policy : Policy) (file : Option Json) (request : Request) :
    Decision × Option Json :=
  match resolveScopeRule policy request.scopeId with
  | none =>
    let allow := policy.defaultDecision == "allow"
    (⟨request, allow, if allow then "default_allow" else "scope_not_allowlisted", none⟩, file)
  | some rule =>
    match (ruleRefusal rule request).or (capRefusal policy rule file request) with
    | some reason => (⟨request, false, reason, none⟩, file)
    | none =>
      (⟨request, true, "ok", some rule.id⟩,
        if request.apply then some (countedFile file request) else file)

/-- The state file after a request. -/
def step (policy : Policy) (file : Option Json) (request : Request) : Option Json :=
  (authorize policy file request).2

/-- The decisions of a run of requests, one after another. -/
def decisions (policy : Policy) : Option Json → List Request → List Decision
  | _, [] => []
  | file, request :: requests =>
    (authorize policy file request).1 :: decisions policy (step policy file request) requests

/-! ## What a request does to the counters -/

@[simp] theorem countersOf_countedFile (file : Option Json) (request : Request) (period : Period) :
    countersOf (some (countedFile file request)) period = counted file request period := by
  have hget : (countedFile file request).get? period.field =
      some (.obj (counted file request period)) := by
    simp only [countedFile, Json.ofFields, Json.get?, List.foldl_cons, List.foldl_nil]
    cases period with
    | hour => rw [Period.field, Json.lookup_insertField_ne (by decide), Json.lookup_insertField_same]
    | day => rw [Period.field, Json.lookup_insertField_same]
  simp [countersOf, hget, Json.asObject]

theorem le_counted (file : Option Json) (request : Request) (period : Period) (key : String) :
    counterValue (countersOf file period) key ≤ counterValue (counted file request period) key :=
  UInt64.le_trans (le_incrementCounter _ _ _) (le_incrementCounter _ _ _)

/-- A counter that a request is counted under goes up where it stands below a limit. -/
theorem lt_counted {file : Option Json} {request : Request} {period : Period} {scope : String}
    {limit : UInt64} (hscope : scope = request.scopeId ∨ scope = globalScope)
    (h : counterValue (countersOf file period) (countKey scope (request.epochKey period)) < limit) :
    counterValue (countersOf file period) (countKey scope (request.epochKey period)) <
      counterValue (counted file request period) (countKey scope (request.epochKey period)) := by
  rcases hscope with rfl | rfl
  · exact UInt64.lt_of_lt_of_le (lt_incrementCounter h) (le_incrementCounter _ _ _)
  · by_cases hsame : countKey globalScope (request.epochKey period) =
        countKey request.scopeId (request.epochKey period)
    · rw [hsame] at h ⊢
      exact UInt64.lt_of_lt_of_le (lt_incrementCounter h) (le_incrementCounter _ _ _)
    · have hfirst := counterValue_incrementCounter_ne (countersOf file period) hsame
      rw [← hfirst] at h ⊢
      exact lt_incrementCounter h

/-- A request is let through by the default decision, let through by a rule whose caps
leave room for it, or turned down. -/
theorem authorize_cases (policy : Policy) (file : Option Json) (request : Request) :
    (resolveScopeRule policy request.scopeId = none ∧ policy.defaultDecision = "allow" ∧
      authorize policy file request = (⟨request, true, "default_allow", none⟩, file)) ∨
    (∃ rule, resolveScopeRule policy request.scopeId = some rule ∧
      ruleRefusal rule request = none ∧ capRefusal policy rule file request = none ∧
      authorize policy file request = (⟨request, true, "ok", some rule.id⟩,
        if request.apply then some (countedFile file request) else file)) ∨
    (∃ reason, authorize policy file request = (⟨request, false, reason, none⟩, file)) := by
  unfold authorize
  cases hrule : resolveScopeRule policy request.scopeId with
  | none =>
    by_cases hallow : policy.defaultDecision = "allow"
    · exact .inl ⟨rfl, hallow, by simp [hallow]⟩
    · exact .inr (.inr ⟨"scope_not_allowlisted", by simp [hallow]⟩)
  | some rule =>
    cases hrefusal : (ruleRefusal rule request).or (capRefusal policy rule file request) with
    | some reason => exact .inr (.inr ⟨reason, by simp [hrefusal]⟩)
    | none =>
      rw [Option.or_eq_none_iff] at hrefusal
      exact .inr (.inl ⟨rule, rfl, hrefusal.1, hrefusal.2, by simp [hrefusal]⟩)

@[simp] theorem authorize_request (policy : Policy) (file : Option Json) (request : Request) :
    (authorize policy file request).1.request = request := by
  obtain ⟨-, -, h⟩ | ⟨rule, -, -, -, h⟩ | ⟨reason, h⟩ := authorize_cases policy file request <;> rw [h]

/-- Where the caps turn nothing down, every one of them leaves room. -/
theorem room_of_capRefusal {policy : Policy} {rule : ScopeRule} {file : Option Json}
    {request : Request} (h : capRefusal policy rule file request = none) (period : Period) :
    checkCap (countersOf file period) (countKey request.scopeId (request.epochKey period))
        (rule.rateCaps.cap period) = true ∧
      checkCap (countersOf file period) (countKey globalScope (request.epochKey period))
        (policy.globalRateCaps.cap period) = true := by
  unfold capRefusal at h
  cases period with
  | hour => grind
  | day => grind

/-- A request that is turned down, or made without `apply`, leaves the state file as it
was. -/
theorem step_unchanged {policy : Policy} {file : Option Json} {request : Request}
    (h : (authorize policy file request).1.allow = false ∨ request.apply = false) :
    step policy file request = file := by
  unfold step
  obtain ⟨-, -, heq⟩ | ⟨rule, -, -, -, heq⟩ | ⟨reason, heq⟩ := authorize_cases policy file request
  · rw [heq]
  · rw [heq] at h ⊢
    rcases h with hallow | happly
    · cases hallow
    · simp [happly]
  · rw [heq]

/-- No request takes a counter down. -/
theorem le_step (policy : Policy) (file : Option Json) (request : Request) (period : Period)
    (key : String) :
    counterValue (countersOf file period) key ≤
      counterValue (countersOf (step policy file request) period) key := by
  unfold step
  obtain ⟨-, -, heq⟩ | ⟨rule, -, -, -, heq⟩ | ⟨reason, heq⟩ := authorize_cases policy file request
  · rw [heq]
    exact UInt64.le_refl _
  · rw [heq]
    dsimp only
    split
    · rw [countersOf_countedFile]
      exact le_counted file request period key
    · exact UInt64.le_refl _
  · rw [heq]
    exact UInt64.le_refl _

/-! ## Caps along a run -/

/-- A decision that lets a counted call through in the period of the given key. -/
def Decision.admits (decision : Decision) (period : Period) (key : String) : Bool :=
  decision.allow && decision.request.apply && decision.request.epochKey period == key

/-- A decision of a run is the answer to one of its requests. -/
theorem exists_of_mem_decisions {policy : Policy} {decision : Decision} :
    ∀ {requests : List Request} {file : Option Json}, decision ∈ decisions policy file requests →
      ∃ file', ∃ request ∈ requests, decision = (authorize policy file' request).1
  | [], _, h => by cases h
  | request :: requests, file, h => by
    rcases List.mem_cons.mp h with rfl | h
    · exact ⟨file, request, List.mem_cons_self, rfl⟩
    · obtain ⟨file', request', hmem, heq⟩ := exists_of_mem_decisions h
      exact ⟨file', request', List.mem_cons_of_mem _ hmem, heq⟩

/-- How many decisions of a run a test picks. -/
theorem countP_decisions (policy : Policy) (pick : Decision → Bool) :
    ∀ (requests : List Request) (file : Option Json),
      (decisions policy file requests).countP pick =
        Runs.tally (step policy)
          (fun file request => if pick (authorize policy file request).1 then 1 else 0)
          file requests
  | [], _ => rfl
  | request :: requests, file => by
    rw [decisions, List.countP_cons, countP_decisions policy pick requests, Runs.tally, Nat.add_comm]

/-- **The counting argument.**  Where every admitted request that a test picks is counted
under the scope and finds its counter below the limit, no more of them are admitted than
the limit. -/
theorem admitted_le {policy : Policy} {period : Period} {key scope : String} {limit : UInt64}
    {pick : Decision → Bool} (hruled : ∀ decision, pick decision = true →
      decision.scopeResolved ≠ none)
    (hroom : ∀ file request rule, resolveScopeRule policy request.scopeId = some rule →
      capRefusal policy rule file request = none → request.epochKey period = key →
      pick ⟨request, true, "ok", some rule.id⟩ = true →
      (scope = request.scopeId ∨ scope = globalScope) ∧
        counterValue (countersOf file period) (countKey scope key) < limit)
    (requests : List Request) (file : Option Json) :
    (decisions policy file requests).countP
      (fun decision => decision.admits period key && pick decision) ≤ limit.toNat := by
  let counter (file : Option Json) : UInt64 :=
    counterValue (countersOf file period) (countKey scope key)
  have hpay : ∀ file request,
      (if (authorize policy file request).1.admits period key &&
          pick (authorize policy file request).1 then 1 else 0) +
        (limit.toNat - (counter (step policy file request)).toNat) ≤
      limit.toNat - (counter file).toNat := by
    intro file request
    have hmono : (counter file).toNat ≤ (counter (step policy file request)).toNat :=
      UInt64.le_iff_toNat_le.mp (le_step policy file request period _)
    split
    · rename_i hpicked
      rw [Bool.and_eq_true] at hpicked
      obtain ⟨hadmits, hpick⟩ := hpicked
      obtain ⟨-, -, heq⟩ | ⟨rule, hrule, -, hcaps, heq⟩ | ⟨reason, heq⟩ :=
        authorize_cases policy file request
      · rw [heq] at hpick
        exact absurd rfl (hruled _ hpick)
      · rw [heq] at hpick hadmits
        obtain ⟨happly, hkey⟩ : request.apply = true ∧ request.epochKey period = key := by
          simpa [Decision.admits] using hadmits
        obtain ⟨hscope, hlt⟩ := hroom file request rule hrule hcaps hkey hpick
        subst hkey
        have hup : (counter file).toNat < (counter (step policy file request)).toNat := by
          have := lt_counted hscope hlt
          rw [UInt64.lt_iff_toNat_lt] at this
          simpa [counter, step, heq, happly] using this
        have hlimit : (counter file).toNat < limit.toNat := UInt64.lt_iff_toNat_lt.mp hlt
        omega
      · rw [heq] at hadmits
        simp [Decision.admits] at hadmits
    · omega
  rw [countP_decisions]
  refine le_trans (Runs.tally_le_potential (fun file => limit.toNat - (counter file).toNat)
    hpay requests file) ?_
  exact Nat.sub_le _ _

/-- A request that is counted in the period of the given key, if it is let through. -/
def Request.CountsAt (request : Request) (period : Period) (key : String) : Prop :=
  request.apply = true ∧ request.epochKey period = key

/-- No more calls are let through by rules than the global cap. -/
theorem ruled_le_global {policy : Policy} {period : Period} {limit : UInt64}
    (hcap : policy.globalRateCaps.cap period = some limit) (hpos : 0 < limit) (key : String)
    (requests : List Request) (file : Option Json) :
    (decisions policy file requests).countP
      (fun decision => decision.admits period key && decision.scopeResolved.isSome) ≤
        limit.toNat := by
  apply @admitted_le _ _ _ globalScope
  · intro decision hpick hnone
    rw [hnone] at hpick
    cases hpick
  · intro file request rule hrule hcaps hkey hpick
    subst hkey
    exact ⟨.inr rfl, lt_of_checkCap (room_of_capRefusal hcaps period).2 hcap hpos⟩

/-- No more calls of one scope are let through by a rule than its cap. -/
theorem named_le_rule {policy : Policy} {period : Period} {rule : ScopeRule} {limit : UInt64}
    (hrule : policy.scopes.lookup rule.id = some rule)
    (hcap : rule.rateCaps.cap period = some limit) (hpos : 0 < limit) (key scope : String)
    (requests : List Request) (file : Option Json) :
    (decisions policy file requests).countP
      (fun decision => decision.admits period key &&
        (decision.scopeResolved == some rule.id && decision.request.scopeId == scope)) ≤
        limit.toNat := by
  apply @admitted_le _ _ _ scope
  · intro decision hpick hnone
    simp [hnone] at hpick
  · intro file request rule' hrule' hcaps hkey hpick
    obtain ⟨hid, hscope⟩ : rule'.id = rule.id ∧ request.scopeId = scope := by
      simpa using hpick
    obtain rfl := eq_of_resolve hrule' hid hrule
    subst hkey hscope
    exact ⟨.inl rfl, lt_of_checkCap (room_of_capRefusal hcaps period).1 hcap hpos⟩

/-- **What the caps hold for.**  Where the default decision lets no call through in a
period, at most as many calls are let through in it as the global cap says; where the
calls that a rule could let through all name one scope, at most as many of them are as the
rule's cap says; and a call that is turned down, or made without `apply`, leaves the
counters as they were. -/
theorem caps_hold (host : Host) (policy : Policy) (file : Option Json) (calls : List Call) :
    let requests := calls.filterMap (readRequest host)
    (∀ period key limit, policy.globalRateCaps.cap period = some limit → 0 < limit →
      (∀ request ∈ requests, request.CountsAt period key →
        resolveScopeRule policy request.scopeId = none → policy.defaultDecision ≠ "allow") →
      (decisions policy file requests).countP (·.admits period key) ≤ limit.toNat) ∧
    (∀ period key id rule limit, policy.scopes.lookup id = some rule →
      rule.rateCaps.cap period = some limit → 0 < limit →
      (∀ request ∈ requests, ∀ request' ∈ requests,
        request.CountsAt period key → request'.CountsAt period key →
        resolveScopeRule policy request.scopeId = some rule →
        resolveScopeRule policy request'.scopeId = some rule →
        ruleRefusal rule request = none → ruleRefusal rule request' = none →
        request.scopeId = request'.scopeId) →
      (decisions policy file requests).countP
        (fun decision => decision.admits period key && decision.scopeResolved == some id) ≤
          limit.toNat) ∧
    (∀ file, ∀ request ∈ requests,
      (authorize policy file request).1.allow = false ∨ request.apply = false →
        step policy file request = file) := by
  intro requests
  refine ⟨?_, ?_, fun file request _ h => step_unchanged h⟩
  · intro period key limit hcap hpos hdefault
    refine le_trans (List.countP_mono_left ?_) (ruled_le_global hcap hpos key requests file)
    intro decision hmem hadmits
    obtain ⟨file', request, hrequest, rfl⟩ := exists_of_mem_decisions hmem
    rw [hadmits, Bool.true_and]
    obtain ⟨hnone, hallow, heq⟩ | ⟨rule, -, -, -, heq⟩ | ⟨reason, heq⟩ :=
      authorize_cases policy file' request
    · rw [heq] at hadmits
      have hcounts : request.CountsAt period key := by
        simpa [Decision.admits, Request.CountsAt] using hadmits
      exact absurd hallow (hdefault request hrequest hcounts hnone)
    · rw [heq, Option.isSome_some]
    · rw [heq] at hadmits
      simp [Decision.admits] at hadmits
  · intro period key id rule limit hlookup hcap hpos hone
    obtain rfl := policy.scopes_id _ _ hlookup
    obtain ⟨scope, hscope⟩ : ∃ scope, ∀ request ∈ requests, request.CountsAt period key →
        resolveScopeRule policy request.scopeId = some rule → ruleRefusal rule request = none →
        request.scopeId = scope := by
      by_cases hsome : ∃ request ∈ requests, request.CountsAt period key ∧
          resolveScopeRule policy request.scopeId = some rule ∧ ruleRefusal rule request = none
      · obtain ⟨first, hfirst, hcounts, hrule, hrefusal⟩ := hsome
        exact ⟨first.scopeId, fun request hrequest hcounts' hrule' hrefusal' =>
          hone request hrequest first hfirst hcounts' hcounts hrule' hrule hrefusal' hrefusal⟩
      · exact ⟨"", fun request hrequest hcounts hrule hrefusal =>
          absurd ⟨request, hrequest, hcounts, hrule, hrefusal⟩ hsome⟩
    refine le_trans (List.countP_mono_left ?_)
      (named_le_rule hlookup hcap hpos key scope requests file)
    intro decision hmem hpicked
    rw [Bool.and_eq_true] at hpicked
    obtain ⟨hadmits, hresolved⟩ := hpicked
    obtain ⟨file', request, hrequest, rfl⟩ := exists_of_mem_decisions hmem
    rw [hadmits, hresolved, Bool.true_and, Bool.true_and, authorize_request, beq_iff_eq]
    obtain ⟨-, -, heq⟩ | ⟨rule', hrule', hrefusal, -, heq⟩ | ⟨reason, heq⟩ :=
      authorize_cases policy file' request
    · simp [heq] at hresolved
    · rw [heq] at hadmits hresolved
      have hcounts : request.CountsAt period key := by
        simpa [Decision.admits, Request.CountsAt] using hadmits
      have hid : rule'.id = rule.id := by simpa using hresolved
      obtain rfl := eq_of_resolve hrule' hid hlookup
      exact hscope request hrequest hcounts hrule' hrefusal
    · simp [heq] at hresolved

/-! ## Runs in the first hour -/

/-- A host that knows the first hour of the clock. -/
def epochHost : Host where
  hourText ms := if 0 ≤ ms ∧ ms < 3600000 then some "1970-01-01T00" else none
  dayText ms := if 0 ≤ ms ∧ ms < 3600000 then some "1970-01-01" else none
  isoText ms := if ms = 0 then some "1970-01-01T00:00:00.000Z" else none
  printFloat _ := "0.5"

/-- A call in the first hour. -/
def fetch (scope : String) : Call where
  payload := [("scope", .str scope), ("url", .str "https://feed.example/list")]
  clockMs := 0

/-- A policy with one rule, which lets through one call an hour, as the gateway does
with every scope together. -/
def oneAnHour (id defaultDecision : String) : Policy where
  defaultDecision := defaultDecision
  globalRateCaps := ⟨some 2, none⟩
  scopes := [(id, ⟨id, ["GET"], [], false, ⟨some 1, none⟩⟩)]
  scopes_id id' rule h := by
    rw [List.lookup_cons] at h
    split at h
    · cases h
      exact (beq_iff_eq.mp ‹_›).symm
    · cases h

/-- The decisions on calls made one after another, from no state file. -/
def answered (policy : Policy) (calls : List Call) : List Decision :=
  decisions policy none (calls.filterMap (readRequest epochHost))

/-- Three calls of one scope, of which the rule lets one through. -/
theorem feed_caps_hold :
    (answered (oneAnHour "feed" "deny") [fetch "feed", fetch "feed", fetch "feed"]).countP
      (fun decision => decision.admits .hour "1970-01-01T00" &&
        decision.scopeResolved == some "feed") ≤ 1 := by
  have hname : ∀ request ∈ [fetch "feed", fetch "feed", fetch "feed"].filterMap
      (readRequest epochHost), request.scopeId = "feed" := by
    decide +kernel
  apply (caps_hold epochHost (oneAnHour "feed" "deny") none
    [fetch "feed", fetch "feed", fetch "feed"]).2.1 .hour "1970-01-01T00" "feed" _ 1 rfl rfl
    (by decide)
  intro request hrequest request' hrequest' _ _ _ _ _ _
  rw [hname request hrequest, hname request' hrequest']

/-- Calls that no rule is for pass the gateway's cap where the default is to allow, and
two collectors pass the cap of the rule they share. -/
theorem caps_passed :
    ((oneAnHour "feed" "allow").globalRateCaps.perHour = some 2 ∧
      (answered (oneAnHour "feed" "allow") [fetch "a", fetch "b", fetch "c"]).countP
        (·.admits .hour "1970-01-01T00") = 3) ∧
    ((resolveScopeRule (oneAnHour "sensory.collector.dynamic" "deny") "sensory.collector.a").map
        (·.rateCaps.perHour) = some (some 1) ∧
      (answered (oneAnHour "sensory.collector.dynamic" "deny")
          [fetch "sensory.collector.a", fetch "sensory.collector.b"]).countP
        (fun decision => decision.admits .hour "1970-01-01T00" &&
          decision.scopeResolved == some "sensory.collector.dynamic") = 2) := by
  decide +kernel

end Protheus.Egress
