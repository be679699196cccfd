import Protheus.Cuts
import Protheus.EgressCommand
import Protheus.PassportChain
import Protheus.QueueSqlite

/-!
The texts that the passport chain, the queue and the egress gateway cut to a limit.

Each command answers exactly where every text it cleans fits (`answers_iff`).
-/

namespace Protheus.TextCuts

open LaneUtils

variable {printFloat : ℚ → String}

/-! ## The passport chain -/

/-- The texts `record` cleans. -/
def recordCuts (payload : List (String × Json)) : List Cut :=
  [⟨payload.lookup "root", 520⟩, ⟨payload.lookup "chain_path", 520⟩,
    ⟨payload.lookup "latest_path", 520⟩, ⟨payload.lookup "lane", 120⟩, ⟨payload.lookup "step", 120⟩,
    ⟨(payload.lookup "objective_id").or (payload.lookup "objectiveId"), 180⟩,
    ⟨(payload.lookup "target_path").or (payload.lookup "targetPath"), 360⟩]

theorem answers_record (host : PassportChain.Host) (call : PassportChain.Call)
    (disk : PassportChain.Disk) :
    Answers host.printFloat (PassportChain.record host call disk) (recordCuts call.payload) := by
  have hread : Answers host.printFloat (PassportChain.readCall host call.payload)
      (recordCuts call.payload) := by
    rw [PassportChain.readCall]
    refine answers_cleanText_bind fun root _ => ?_
    refine answers_cleanText_bind fun chain _ => answers_cleanText_bind fun latest _ => ?_
    refine answers_cleanText_bind fun lane _ => answers_cleanText_bind fun step _ => ?_
    refine answers_cleanText_bind fun objective _ => answers_cleanText_bind fun target _ => ?_
    exact answers_some _
  refine hread.bind_answered fun read _ => ?_
  cases call.appendFault with
  | some err => rfl
  | none => cases call.writeFault <;> rfl

/-! ## The queue -/

def dbPathCut (call : QueueSqlite.Call) : Cut :=
  ⟨(QueueSqlite.cfgSource call.payload).lookup "db_path", 520⟩

def eventCuts (payload : List (String × Json)) : List Cut :=
  [⟨payload.lookup "queue_name", 160⟩, ⟨payload.lookup "lane_id", 120⟩,
    ⟨payload.lookup "event_type", 80⟩, ⟨payload.lookup "ts", 120⟩]

/-- The texts `append-event` cleans: none past a path that is blank, and none of the event where the
database cannot be opened. -/
def appendEventCuts (printFloat : ℚ → String) (call : QueueSqlite.Call) : List Cut :=
  dbPathCut call ::
    if (dbPathCut call).collapsed printFloat = [] then [] else
      ⟨(QueueSqlite.cfgSource call.payload).lookup "journal_mode", 24⟩ ::
        ⟨(QueueSqlite.cfgSource call.payload).lookup "synchronous", 24⟩ ::
          if call.openFault.isSome then [] else eventCuts call.payload

theorem answers_readEvent (host : QueueSqlite.Host) (call : QueueSqlite.Call) :
    Answers host.printFloat (QueueSqlite.readEvent host call) (eventCuts call.payload) := by
  rw [QueueSqlite.readEvent]
  refine answers_cleanText_bind fun queueName _ => answers_cleanText_bind fun laneId _ => ?_
  refine answers_cleanText_bind fun eventType htype => answers_cleanText_bind fun ts _ => ?_
  have hagain := cleanText_again htype
  dsimp only
  split
  · exact answers_some _
  · obtain ⟨again, hagain⟩ := Option.isSome_iff_exists.mp hagain
    rw [hagain]
    exact answers_some _

theorem answers_appendEvent (host : QueueSqlite.Host) (call : QueueSqlite.Call)
    (db : QueueSqlite.Database) :
    Answers host.printFloat (QueueSqlite.run host { call with command := .appendEvent } db)
      (appendEventCuts host.printFloat call) := by
  rw [QueueSqlite.run, QueueSqlite.sqliteCfgFromPayload, Option.bind_eq_bind, Option.bind_eq_bind,
    Option.bind_assoc]
  refine answers_cleanText_bind fun dbPath hpath => ?_
  have hblank := @collapsed_eq_nil_iff _ (dbPathCut call) _ (by norm_num [dbPathCut]) hpath
  by_cases hempty : dbPath = ""
  · rw [if_pos (hblank.mp hempty), if_pos hempty]
    exact answers_some _
  · rw [if_neg (mt hblank.mpr hempty), if_neg hempty, Option.bind_eq_bind, Option.bind_assoc]
    refine answers_cleanText_bind fun journalMode _ => ?_
    rw [Option.bind_eq_bind, Option.bind_assoc]
    refine answers_cleanText_bind fun synchronous _ => ?_
    cases hopen : call.openFault with
    | some err => exact answers_some _
    | none => exact (answers_readEvent host _).bind_answered fun row _ => rfl

/-! ## The egress gateway -/

def domainCuts (value : Option Json) : List Cut :=
  ((value.bind Json.asArray).getD []).flatMap fun row => [⟨some row, 160⟩]

def ruleCuts : String × Json → List Cut
  | (_, .obj rule) => domainCuts (rule.lookup "domains")
  | _ => []

/-- The texts of a policy file. -/
def policyCuts (policyFile : Option Json) : List Cut :=
  (Egress.scopesRaw policyFile).flatMap ruleCuts ++
    [⟨(Egress.fieldsOf policyFile).lookup "version", 32⟩,
      ⟨(Egress.fieldsOf policyFile).lookup "default_decision", 12⟩]

def requestCuts (payload : List (String × Json)) : List Cut :=
  ⟨payload.lookup "scope", 160⟩ :: ⟨payload.lookup "method", 20⟩ ::
    ⟨payload.lookup "caller", 120⟩ :: ⟨payload.lookup "url", 2000⟩ ::
      domainCuts (payload.lookup "runtime_allowlist")

/-- The texts `authorize` cleans: of its payload, of the policy file and of the state file. -/
def authorizeCuts (policyFile file : Option Json) (payload : List (String × Json)) : List Cut :=
  ⟨payload.lookup "root", 520⟩ :: ⟨(payload.lookup "policy_path").or (payload.lookup "path"), 520⟩ ::
    (policyCuts policyFile ++
      ⟨(payload.lookup "state_path").or (payload.lookup "path"), 520⟩ ::
        ⟨(Egress.fieldsOf file).lookup "updated_at", 80⟩ :: ⟨payload.lookup "audit_path", 520⟩ ::
          requestCuts payload)

section Egress

variable (host : Egress.Host)

theorem answers_domains (value : Option Json) :
    Answers host.printFloat (((value.bind Json.asArray).getD []).mapM fun row =>
      cleanText host.printFloat (some row) 160) (domainCuts value) :=
  answers_mapM fun row _ => answers_cleanText (some row) 160

theorem answers_loadScopes (rows : List (String × Json)) (scopes : Egress.Scopes) :
    Answers host.printFloat (Egress.loadScopes host rows scopes) (rows.flatMap ruleCuts) := by
  induction rows generalizing scopes with
  | nil => exact answers_some _
  | cons row rest ih =>
    obtain ⟨id, value⟩ := row
    rw [List.flatMap_cons]
    cases value with
    | obj rule =>
      rw [Egress.loadScopes]
      refine Answers.bind ?_ fun normalized _ => ih _
      rw [Egress.normalizeScopeRule, Egress.cleanDomains]
      refine Answers.bind_answered ?_ fun domains _ => rfl
      exact (answers_domains host _).bind_answered fun domains _ => rfl
    | _ => exact ih scopes

theorem answers_loadPolicy (policyFile : Option Json) :
    Answers host.printFloat (Egress.loadPolicyModel host policyFile) (policyCuts policyFile) := by
  rw [Egress.loadPolicyModel]
  refine (answers_loadScopes host _ _).bind fun scopes _ => ?_
  refine answers_cleanText_bind fun version _ => answers_cleanText_bind fun decision _ => ?_
  exact answers_some _

theorem answers_readRequest (call : Egress.Call) :
    Answers host.printFloat (Egress.readRequest host call) (requestCuts call.payload) := by
  rw [Egress.readRequest]
  refine answers_cleanText_bind fun scope _ => answers_cleanText_bind fun method _ => ?_
  refine answers_cleanText_bind fun caller _ => answers_cleanText_bind fun url _ => ?_
  exact (answers_domains host _).bind_answered fun allowlist _ => rfl

theorem answers_authorize (outside : Egress.Outside) (call : Egress.Call) (file : Option Json) :
    Answers host.printFloat (Egress.authorizeCommand host outside call file)
      (authorizeCuts outside.policyFile file call.payload) := by
  rw [Egress.authorizeCommand]
  refine answers_cleanText_bind fun root _ => answers_cleanText_bind fun policyPath _ => ?_
  refine (answers_loadPolicy host outside.policyFile).bind fun policy _ => ?_
  refine answers_cleanText_bind fun statePath _ => answers_cleanText_bind fun updatedAt _ => ?_
  refine answers_cleanText_bind fun auditPath _ => ?_
  exact (answers_readRequest host call).bind_answered fun request _ => rfl

end Egress

/-! ## The three kernels -/

/-- A call of one of the three commands, with all it finds outside. -/
inductive KernelCall where
  | record (host : PassportChain.Host) (call : PassportChain.Call) (disk : PassportChain.Disk)
  | appendEvent (host : QueueSqlite.Host) (call : QueueSqlite.Call) (db : QueueSqlite.Database)
  | authorize (host : Egress.Host) (outside : Egress.Outside) (call : Egress.Call)
    (file : Option Json)

def KernelCall.floatText : KernelCall → ℚ → String
  | record host _ _ => host.printFloat
  | appendEvent host _ _ => host.printFloat
  | authorize host _ _ _ => host.printFloat

/-- The texts a call cleans. -/
def KernelCall.cuts : KernelCall → List Cut
  | record _ call _ => recordCuts call.payload
  | appendEvent host call _ => appendEventCuts host.printFloat call
  | authorize _ outside call file => authorizeCuts outside.policyFile file call.payload

def KernelCall.returns : KernelCall → Bool
  | record host call disk => (PassportChain.record host call disk).isSome
  | appendEvent host call db =>
    (QueueSqlite.run host { call with command := .appendEvent } db).isSome
  | authorize host outside call file => (Egress.authorizeCommand host outside call file).isSome

/-- **Where cleaning aborts nothing.**  A text is cleaned to a beginning of its collapsed form within
the limit exactly where that form is within the limit itself or has a character that ends there; and a
call returns a receipt or an error exactly where that is so of every text it cleans. -/
theorem cleaning_returns_iff (printFloat : ℚ → String) (call : KernelCall) :
    (∀ cut : Cut, cut.Cleans printFloat ↔ cut.Fits printFloat) ∧
      (call.returns = true ↔ ∀ cut ∈ call.cuts, cut.Fits call.floatText) := by
  refine ⟨Cut.cleans_iff, ?_⟩
  cases call with
  | record host call disk => exact answers_record host call disk
  | appendEvent host call db => exact answers_appendEvent host call db
  | authorize host outside call file => exact answers_authorize host outside call file

/-- A lane of 119 letters and one that takes two bytes. -/
def accentedLane : String := String.ofList (List.replicate 119 'a' ++ ['é'])

/-- The cut at 120 bytes falls inside the last letter: neither is the text cleaned nor does `record`
return. -/
theorem accented_lane_aborts :
    ¬ ((∀ cut : Cut, cut.Cleans fun _ => "0.5") ∧ ∀ call : KernelCall, call.returns = true) := by
  intro hall
  have haborts : (PassportChain.record ⟨id, fun _ => "0.5", []⟩
      { payload := [("lane", .str accentedLane)], now := "", nowLatest := "" }
        fun _ => {}).isSome = false := by
    decide +kernel
  have hreturns := hall.2 (.record ⟨id, fun _ => "0.5", []⟩
    { payload := [("lane", .str accentedLane)], now := "", nowLatest := "" } fun _ => {})
  rw [KernelCall.returns, haborts] at hreturns
  cases hreturns

end Protheus.TextCuts
