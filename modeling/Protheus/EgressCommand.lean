import Protheus.Egress

/-!
The `authorize` command of `egress_gateway_kernel.rs`, from its payload and its files to its answer.

The policy and the counters are read from files the payload may name, every text among them cleaned
and cut to its limit, and the decision of `Egress.authorize` is written back where it was counted.
-/

namespace Protheus.Egress

open LaneUtils

/-! ## The policy -/

/-- `clean_methods`. -/
def cleanMethods (host : Host) (value : Option Json) : List String :=
  let rows := (value.bind Json.asArray).getD []
  let methods := rows.map fun row =>
    String.ofList ((normalizeToken (asStr host.printFloat (some row)) 20).toList.map Char.toUpper)
  let methods := methods.filter (· ≠ "")
  if methods = [] then ["GET"] else methods

/-- `clean_domains`; `none` where `clean_text` aborts the process. -/
def cleanDomains (host : Host) (value : Option Json) : Option (List String) := do
  let rows := (value.bind Json.asArray).getD []
  let domains ← rows.mapM fun row => cleanText host.printFloat (some row) 160
  return (domains.map RustStd.toAsciiLowercase).filter (· ≠ "")

/-- The caps of a rule, or of the whole gateway. -/
def rateCapsOf (value : Option Json) : RateCaps :=
  let row := value.bind Json.asObject
  ⟨toU64 (row.bind (·.lookup "per_hour")), toU64 (row.bind (·.lookup "per_day"))⟩

/-- `normalize_scope_rule`. -/
def normalizeScopeRule (host : Host) (id : String) (rawRule : List (String × Json)) :
    Option ScopeRule := do
  let domains ← cleanDomains host (rawRule.lookup "domains")
  return {
    id := normalizeToken id 120
    methods := cleanMethods host (rawRule.lookup "methods")
    domains := domains
    requireRuntimeAllowlist :=
      ((rawRule.lookup "require_runtime_allowlist").bind Json.asBool).getD false
    rateCaps := rateCapsOf (rawRule.lookup "rate_caps") }

/-- Rules that stand under their own ids; what was inserted last is found first. -/
def Scopes : Type :=
  { scopes : List (String × ScopeRule) // ∀ id rule, scopes.lookup id = some rule → rule.id = id }

/-- `BTreeMap::insert`, under the rule's id. -/
def Scopes.insert (scopes : Scopes) (rule : ScopeRule) : Scopes where
  val := (rule.id, rule) :: scopes.val
  property id found h := by
    rw [List.lookup_cons] at h
    split at h
    · cases h
      exact (beq_iff_eq.mp ‹_›).symm
    · exact scopes.property id found h

/-- The loop of `load_policy_model` over the rules of the policy file. -/
def loadScopes (host : Host) : List (String × Json) → Scopes → Option Scopes
  | [], scopes => some scopes
  | (id, .obj rule) :: rest, scopes => do
    let normalized ← normalizeScopeRule host id rule
    loadScopes host rest (if normalized.id = "" then scopes else scopes.insert normalized)
  | _ :: rest, scopes => loadScopes host rest scopes

/-- The fields of a file that `read_json_or_default` reads. -/
def fieldsOf (file : Option Json) : List (String × Json) := (file.bind Json.asObject).getD []

/-- The rules of a policy file as they stand in it. -/
def scopesRaw (policyFile : Option Json) : List (String × Json) :=
  (((fieldsOf policyFile).lookup "scopes").bind Json.asObject).getD []

/-- `load_policy_model`, past the path of the file. -/
def loadPolicyModel (host : Host) (policyFile : Option Json) : Option Policy := do
  let src := fieldsOf policyFile
  let scopes ← loadScopes host (scopesRaw policyFile) ⟨[], by simp⟩
  let _version ← cleanText host.printFloat (src.lookup "version") 32
  let decision ← cleanText host.printFloat (src.lookup "default_decision") 12
  let decision := normalizeToken decision 12
  return {
    defaultDecision := if decision = "" then "deny" else decision
    globalRateCaps := rateCapsOf (src.lookup "global_rate_caps")
    scopes := scopes.val
    scopes_id := scopes.property }

/-! ## The command -/

/-- What `authorize` finds outside its payload: the policy file, and the texts of the errors with which
the state and the audit row cannot be written, if they cannot. -/
structure Outside where
  policyFile : Option Json := none
  stateFault : Option String := none
  auditFault : Option String := none

/-- What is written once a request is decided. -/
def save (outside : Outside) (file : Option Json) (decided : Decision × Option Json) :
    Except String Decision × Option Json :=
  let (decision, file') := decided
  if decision.allow ∧ decision.scopeResolved.isSome ∧ decision.request.apply then
    match outside.stateFault with
    | some err => (.error err, file)
    | none =>
      match outside.auditFault with
      | some err => (.error err, file')
      | none => (.ok decision, file')
  else (.ok decision, file')

/-- `authorize_command`; `none` where `clean_text` aborts the process. -/
def authorizeCommand (host : Host) (outside : Outside) (call : Call) (file : Option Json) :
    Option (Except String Decision × Option Json) := do
  let payload := call.payload
  let _root ← cleanText host.printFloat (payload.lookup "root") 520
  let _policyPath ← cleanText host.printFloat
    ((payload.lookup "policy_path").or (payload.lookup "path")) 520
  let policy ← loadPolicyModel host outside.policyFile
  let _statePath ← cleanText host.printFloat
    ((payload.lookup "state_path").or (payload.lookup "path")) 520
  let _updatedAt ← cleanText host.printFloat ((fieldsOf file).lookup "updated_at") 80
  let _auditPath ← cleanText host.printFloat (payload.lookup "audit_path") 520
  let request ← readRequest host call
  return save outside file (authorize policy file request)

end Protheus.Egress
