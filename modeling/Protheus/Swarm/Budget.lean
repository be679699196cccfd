import Protheus.Lib.Ledger
import Protheus.RustStd

/-!
The token budgets of `swarm_runtime.rs`: `BudgetTelemetry` and the estimates it
is charged with.

A budget is spent by recording usage and reserved for child sessions by entries
in `child_reservations`: it is an account of a `Ledger`.  `remaining_tokens`
subtracts both, but `record_tool_usage` measures a request against what is spent
alone: a request may eat into what is reserved.  `Covered` is the condition under
which it does not, and `applied_le_remaining_iff` says that it is exact.
-/

namespace Protheus.Swarm

open Std (ExtTreeMap)
open RustStd (u32Max addUpTo roundF32)

inductive BudgetAction where
  | failHard
  | allowWithWarning
  | triggerCompaction
  deriving DecidableEq, Repr

/-- `TokenBudgetConfig`.  The threshold is an `f32`; `none` is a NaN. -/
structure TokenBudgetConfig where
  maxTokens : ℕ
  warningThreshold : Option ℚ
  exhaustionAction : BudgetAction
  deriving DecidableEq

structure UsageSnapshot where
  cumulativeUsage : ℕ
  tool : String
  deriving DecidableEq

structure BudgetTelemetry where
  budgetConfig : TokenBudgetConfig
  usageOverTime : List UsageSnapshot := []
  toolBreakdown : ExtTreeMap String ℕ := ∅
  finalUsage : ℕ := 0
  budgetExhausted : Bool := false
  warningEmitted : Bool := false
  warningAtTokens : ℕ
  compactionTriggered : Bool := false
  reservedForChildren : ℕ := 0
  childReservations : ExtTreeMap String ℕ := ∅
  settledChildTokens : ℕ := 0

/-- `BudgetUsageOutcome`, without the events. -/
inductive BudgetUsageOutcome where
  | ok
  | warning
  | exhaustedAllowed (action : String)
  | exceededDenied (reason : String)
  deriving DecidableEq

def BudgetUsageOutcome.isDenied : BudgetUsageOutcome → Bool
  | .exceededDenied _ => true
  | _ => false

/-- `((max_tokens as f32) * threshold).round().clamp(0.0, max_tokens as f32) as u32`. -/
def warningAt (maxTokens : ℕ) : Option ℚ → ℕ
  | none => 0
  | some threshold =>
    let scaled : ℚ := roundF32 (roundF32 maxTokens * threshold.num.toNat) / threshold.den
    min (min (RustStd.round scaled).toNat (roundF32 maxTokens)) u32Max

/-- `((requested_tokens as f32) * 0.4).ceil() as u32`. -/
def compactedRequest (requestedTokens : ℕ) : ℕ :=
  min ((roundF32 (roundF32 requestedTokens * 13421773) + (2 ^ 25 - 1)) / 2 ^ 25) u32Max

namespace BudgetTelemetry

/-- `BudgetTelemetry::new`. -/
def new (config : TokenBudgetConfig) : BudgetTelemetry where
  budgetConfig := config
  warningAtTokens := warningAt config.maxTokens config.warningThreshold

def remainingTokens (t : BudgetTelemetry) : ℕ :=
  t.budgetConfig.maxTokens - addUpTo u32Max t.finalUsage t.reservedForChildren

def pushUsage (t : BudgetTelemetry) (toolName : String) (tokensUsed : ℕ) : BudgetTelemetry :=
  if tokensUsed = 0 then t
  else
    let finalUsage := addUpTo u32Max t.finalUsage tokensUsed
    { t with
      finalUsage
      toolBreakdown := t.toolBreakdown.insert toolName
        ((t.toolBreakdown[toolName]?.getD 0 + tokensUsed) % 2 ^ 32)
      usageOverTime := t.usageOverTime ++ [{ cumulativeUsage := finalUsage, tool := toolName }] }

/-- The text of `ExceededDenied`. -/
def exceededText (current requestedTokens maxTokens : ℕ) (toolName : String) : String :=
  "token_budget_exceeded:current=" ++ toString current ++ ":requested=" ++
    toString requestedTokens ++ ":limit=" ++ toString maxTokens ++ ":tool=" ++ toolName

def recordToolUsage (t : BudgetTelemetry) (toolName : String) (requestedTokens : ℕ) :
    BudgetTelemetry × BudgetUsageOutcome :=
  let current := t.finalUsage
  let maxTokens := t.budgetConfig.maxTokens
  if addUpTo u32Max current requestedTokens > maxTokens then
    let remaining := maxTokens - current
    let exhausted := { t with budgetExhausted := true }
    match t.budgetConfig.exhaustionAction with
    | .failHard =>
      (exhausted, .exceededDenied (exceededText current requestedTokens maxTokens toolName))
    | .allowWithWarning => (exhausted.pushUsage toolName remaining, .exhaustedAllowed "warn")
    | .triggerCompaction =>
      let applied := min (compactedRequest requestedTokens) remaining
      ({ exhausted with compactionTriggered := true }.pushUsage toolName applied,
        .exhaustedAllowed "compact")
  else
    let pushed := t.pushUsage toolName requestedTokens
    if !pushed.warningEmitted && pushed.finalUsage ≥ pushed.warningAtTokens then
      ({ pushed with warningEmitted := true }, .warning)
    else (pushed, .ok)

/-- What settling a child does to its parent's budget: the reservation goes, the
child's usage is charged. -/
def settleChild (t : BudgetTelemetry) (sessionId : String) (reservedTokens childUsage : ℕ) :
    BudgetTelemetry :=
  let released := { t with
    reservedForChildren := t.reservedForChildren - reservedTokens
    childReservations := t.childReservations.erase sessionId
    settledChildTokens := addUpTo u32Max t.settledChildTokens childUsage }
  if childUsage > 0 then
    let charged := released.pushUsage ("child_session:" ++ sessionId) childUsage
    { charged with
      warningEmitted := charged.warningEmitted || charged.finalUsage ≥ charged.warningAtTokens }
  else released

/-- What reserving for a child does to its parent's budget. -/
def reserveChild (t : BudgetTelemetry) (childId : String) (childBudget : ℕ) : BudgetTelemetry :=
  { t with
    reservedForChildren := addUpTo u32Max t.reservedForChildren childBudget
    childReservations := t.childReservations.insert childId childBudget }

/-- The loop of `apply_tool_plan_for_session` and of `spawn_single`: the plan is recorded
tool by tool until one is denied; the answer is the last action taken. -/
def recordPlan : BudgetTelemetry → List (String × ℕ) → Option String →
    BudgetTelemetry × Except String (Option String)
  | t, [], action => (t, .ok action)
  | t, (tool, requestedTokens) :: rest, action =>
    match t.recordToolUsage tool requestedTokens with
    | (t', .ok) | (t', .warning) => recordPlan t' rest action
    | (t', .exhaustedAllowed taken) => recordPlan t' rest (some taken)
    | (t', .exceededDenied reason) => (t', .error reason)

end BudgetTelemetry

/-! ## Estimates -/

def scaleTaskComplexity (baseTask : String) (tokenBudget : ℕ) : String :=
  if tokenBudget ≤ 200 then baseTask ++ " (ultra-concise, max 50 words)"
  else if tokenBudget ≤ 500 then baseTask ++ " (concise, max 100 words)"
  else if tokenBudget ≤ 1000 then baseTask ++ " (standard detail)"
  else if tokenBudget ≤ 5000 then baseTask ++ " (comprehensive)"
  else baseTask ++ " (exhaustive analysis)"

def generateTokens (tokenBudget : ℕ) : ℕ :=
  if tokenBudget ≤ 200 then 40
  else if tokenBudget ≤ 500 then 80
  else if tokenBudget ≤ 1000 then 140
  else if tokenBudget ≤ 5000 then 300
  else 600

def estimateToolPlan (task : String) (tokenBudget : Option ℕ) : List (String × ℕ) :=
  [("read", addUpTo u32Max 120 (min (task.utf8ByteSize % 2 ^ 32 / 8) 100)),
    ("generate", generateTokens (tokenBudget.getD 1200))]

def planTokens (plan : List (String × ℕ)) : ℕ := (plan.map Prod.snd).sum

/-! ## The account behind a budget -/

/-- Tools of a session's own: the others are the names under which it is charged for a
child. -/
def isOwnTool (tool : String) : Bool := !"child_session:".toList.isPrefixOf tool.toList

theorem isOwnTool_child (sessionId : String) : isOwnTool ("child_session:" ++ sessionId) = false := by
  simp [isOwnTool, List.isPrefixOf]

namespace BudgetTelemetry

/-- What the session has used itself. -/
def ownUsage (t : BudgetTelemetry) : ℕ := Ledger.total (Ledger.kept isOwnTool t.toolBreakdown)

/-- What the session was charged for a child. -/
def chargedFor (t : BudgetTelemetry) (sessionId : String) : ℕ :=
  t.toolBreakdown["child_session:" ++ sessionId]?.getD 0

def account (t : BudgetTelemetry) : Ledger.Account String where
  limit := t.budgetConfig.maxTokens
  own := t.ownUsage
  charges := t.chargedFor
  spent := t.finalUsage
  reserved := t.reservedForChildren
  holds := t.childReservations

theorem pushUsage_ownUsage_le (t : BudgetTelemetry) {tool : String} (htool : isOwnTool tool = true)
    (n : ℕ) : (t.pushUsage tool n).ownUsage ≤ t.ownUsage + n := by
  by_cases hn : n = 0
  · simp [pushUsage, hn]
  · have hsum := Ledger.total_insert (Ledger.kept isOwnTool t.toolBreakdown) tool
      ((t.toolBreakdown[tool]?.getD 0 + n) % 2 ^ 32)
    rw [Ledger.getElem?_kept _ htool, ← Ledger.kept_insert _ htool] at hsum
    have := Nat.mod_le (t.toolBreakdown[tool]?.getD 0 + n) (2 ^ 32)
    simp only [pushUsage, hn, if_false, ownUsage]
    omega

@[simp] theorem pushUsage_finalUsage (t : BudgetTelemetry) (tool : String) (n : ℕ) :
    (t.pushUsage tool n).finalUsage = if n = 0 then t.finalUsage else addUpTo u32Max t.finalUsage n := by
  unfold pushUsage
  split <;> rfl

@[simp] theorem pushUsage_budgetConfig (t : BudgetTelemetry) (tool : String) (n : ℕ) :
    (t.pushUsage tool n).budgetConfig = t.budgetConfig := by
  unfold pushUsage
  split <;> rfl

@[simp] theorem pushUsage_reservedForChildren (t : BudgetTelemetry) (tool : String) (n : ℕ) :
    (t.pushUsage tool n).reservedForChildren = t.reservedForChildren := by
  unfold pushUsage
  split <;> rfl

@[simp] theorem pushUsage_childReservations (t : BudgetTelemetry) (tool : String) (n : ℕ) :
    (t.pushUsage tool n).childReservations = t.childReservations := by
  unfold pushUsage
  split <;> rfl

/-- Usage pushed under a tool of the session's own is spent. -/
theorem pushUsage_account (t : BudgetTelemetry) {tool : String} (htool : isOwnTool tool = true)
    {n m : ℕ} (hfinal : (t.pushUsage tool n).finalUsage = t.finalUsage + m) :
    (t.pushUsage tool n).account = t.account.spend m (t.pushUsage tool n).ownUsage := by
  have hother (c : String) : tool ≠ "child_session:" ++ c := by
    rintro rfl
    simp [isOwnTool_child] at htool
  have hcharges : (t.pushUsage tool n).chargedFor = t.chargedFor := by
    funext c
    unfold pushUsage
    split
    · rfl
    · rw [chargedFor, chargedFor, ExtTreeMap.getElem?_insert, if_neg (by simpa using hother c)]
  simp only [account, Ledger.Account.spend, hfinal, hcharges, pushUsage_budgetConfig,
    pushUsage_reservedForChildren, pushUsage_childReservations]

/-- The end of a child: its reservation goes, its usage is charged. -/
theorem settleChild_account {t : BudgetTelemetry} {sessionId : String}
    (hfirst : t.chargedFor sessionId = 0) {reservedTokens childUsage : ℕ}
    (hroom : t.finalUsage + childUsage ≤ u32Max) :
    (t.settleChild sessionId reservedTokens childUsage).account =
      t.account.release sessionId reservedTokens childUsage := by
  by_cases hn : childUsage = 0
  · simp only [settleChild, hn, Nat.lt_irrefl, if_false, gt_iff_lt, account,
      Ledger.Account.release, Nat.add_zero, Function.update_eq_self]
    rfl
  · have hmod : (t.chargedFor sessionId + childUsage) % 2 ^ 32 =
        t.chargedFor sessionId + childUsage :=
      Nat.mod_eq_of_lt (by unfold u32Max at hroom; omega)
    simp only [settleChild, pushUsage, gt_iff_lt, Nat.pos_of_ne_zero hn, if_true, hn, if_false,
      account, Ledger.Account.release, Ledger.Account.mk.injEq, true_and, and_true, ownUsage,
      Ledger.kept_insert_of_not _ (isOwnTool_child sessionId)]
    refine ⟨?_, RustStd.addUpTo_of_le hroom⟩
    funext c
    rw [Function.update_apply, chargedFor, ExtTreeMap.getElem?_insert]
    by_cases hc : c = sessionId
    · subst hc
      rw [if_pos (by simp), if_pos rfl, Option.getD_some]
      exact hmod
    · rw [if_neg (by simpa using fun h => hc h.symm), if_neg hc, chargedFor]

theorem reserveChild_account {t : BudgetTelemetry} (childId : String) {childBudget : ℕ}
    (hroom : t.reservedForChildren + childBudget ≤ u32Max) :
    (t.reserveChild childId childBudget).account = t.account.hold childId childBudget := by
  simp only [reserveChild, RustStd.addUpTo_of_le hroom]
  rfl

end BudgetTelemetry

/-! ## What a record adds -/

namespace BudgetTelemetry

/-- Usage and reservations fit in the limit, which is a `u32`. -/
structure Fits (t : BudgetTelemetry) : Prop where
  within : t.finalUsage + t.reservedForChildren ≤ t.budgetConfig.maxTokens
  bounded : t.budgetConfig.maxTokens ≤ u32Max

/-- A request that does not eat into what is reserved for children: nothing is
reserved, or the request fits beside the reservations, or it exceeds the limit and is
denied or compacted to what fits. -/
def Covered (t : BudgetTelemetry) (requestedTokens : ℕ) : Prop :=
  t.reservedForChildren = 0 ∨ requestedTokens ≤ t.remainingTokens ∨
    (t.budgetConfig.maxTokens < addUpTo u32Max t.finalUsage requestedTokens ∧
      (t.budgetConfig.exhaustionAction = .failHard ∨
        t.budgetConfig.exhaustionAction = .triggerCompaction ∧
          compactedRequest requestedTokens ≤ t.remainingTokens))

instance (t : BudgetTelemetry) (n : ℕ) : Decidable (t.Covered n) :=
  inferInstanceAs (Decidable (_ ∨ _))

theorem Fits.remaining {t : BudgetTelemetry} (h : t.Fits) :
    t.remainingTokens = t.budgetConfig.maxTokens - (t.finalUsage + t.reservedForChildren) := by
  have := h.within
  have := h.bounded
  rw [remainingTokens, RustStd.addUpTo_of_le (by omega)]

/-- The tokens `record_tool_usage` adds to a budget that fits. -/
def applied (t : BudgetTelemetry) (requestedTokens : ℕ) : ℕ :=
  if t.budgetConfig.maxTokens < addUpTo u32Max t.finalUsage requestedTokens then
    match t.budgetConfig.exhaustionAction with
    | .failHard => 0
    | .allowWithWarning => t.budgetConfig.maxTokens - t.finalUsage
    | .triggerCompaction =>
      min (compactedRequest requestedTokens) (t.budgetConfig.maxTokens - t.finalUsage)
  else addUpTo u32Max t.finalUsage requestedTokens - t.finalUsage

theorem Fits.recordToolUsage_finalUsage {t : BudgetTelemetry} (h : t.Fits) (tool : String) (n : ℕ) :
    (t.recordToolUsage tool n).1.finalUsage = t.finalUsage + t.applied n := by
  have hwithin := h.within
  have hbounded := h.bounded
  unfold recordToolUsage applied
  simp only [gt_iff_lt]
  by_cases hover : t.budgetConfig.maxTokens < addUpTo u32Max t.finalUsage n
  · rw [if_pos hover, if_pos hover]
    cases t.budgetConfig.exhaustionAction with
    | failHard => rfl
    | allowWithWarning =>
      simp only [pushUsage_finalUsage]
      split
      · omega
      · rw [RustStd.addUpTo_of_le (by omega)]
    | triggerCompaction =>
      simp only [pushUsage_finalUsage]
      split
      · omega
      · rw [RustStd.addUpTo_of_le (by omega)]
  · rw [if_neg hover, if_neg hover]
    have hge : t.finalUsage ≤ addUpTo u32Max t.finalUsage n := by
      unfold addUpTo
      omega
    have hpush : (t.pushUsage tool n).finalUsage = addUpTo u32Max t.finalUsage n := by
      rw [pushUsage_finalUsage]
      split
      · subst n
        rw [RustStd.addUpTo_of_le (by omega), Nat.add_zero]
      · rfl
    split <;> (simp only [hpush]; omega)

/-- **Covered is exact.**  From a budget that fits, a recorded request leaves room for
the reservations if and only if it was covered. -/
theorem applied_le_remaining_iff {t : BudgetTelemetry} (h : t.Fits) (n : ℕ) :
    t.applied n ≤ t.remainingTokens ↔ t.Covered n := by
  have hwithin := h.within
  have hbounded := h.bounded
  rw [applied, Covered, h.remaining]
  by_cases hover : t.budgetConfig.maxTokens < addUpTo u32Max t.finalUsage n
  · rw [if_pos hover]
    cases t.budgetConfig.exhaustionAction with
    | failHard => simp [hover]
    | allowWithWarning =>
      have : ¬ n ≤ t.budgetConfig.maxTokens - (t.finalUsage + t.reservedForChildren) ∨
          t.reservedForChildren = 0 := by
        unfold addUpTo at hover
        omega
      simp only [reduceCtorEq, false_and, or_self, and_false, or_false]
      omega
    | triggerCompaction =>
      have : ¬ n ≤ t.budgetConfig.maxTokens - (t.finalUsage + t.reservedForChildren) ∨
          t.reservedForChildren = 0 := by
        unfold addUpTo at hover
        omega
      simp only [reduceCtorEq, hover, true_and, false_or]
      omega
  · rw [if_neg hover]
    simp only [hover, false_and, or_false]
    unfold addUpTo at hover ⊢
    omega

theorem applied_le (t : BudgetTelemetry) (n : ℕ) : t.applied n ≤ n := by
  unfold applied
  split
  case isTrue hover =>
    unfold addUpTo at hover
    cases t.budgetConfig.exhaustionAction with
    | failHard => exact Nat.zero_le n
    | allowWithWarning =>
      dsimp only
      omega
    | triggerCompaction =>
      dsimp only
      omega
  case isFalse =>
    unfold addUpTo
    omega

/-- A request that is refused. -/
def Denies (t : BudgetTelemetry) (requestedTokens : ℕ) : Prop :=
  t.budgetConfig.exhaustionAction = .failHard ∧
    t.budgetConfig.maxTokens < addUpTo u32Max t.finalUsage requestedTokens

instance (t : BudgetTelemetry) (n : ℕ) : Decidable (t.Denies n) :=
  inferInstanceAs (Decidable (_ ∧ _))

theorem recordToolUsage_isDenied (t : BudgetTelemetry) (tool : String) (n : ℕ) :
    (t.recordToolUsage tool n).2.isDenied = true ↔ t.Denies n := by
  unfold recordToolUsage Denies
  simp only [gt_iff_lt]
  by_cases hover : t.budgetConfig.maxTokens < addUpTo u32Max t.finalUsage n
  · rw [if_pos hover]
    cases t.budgetConfig.exhaustionAction <;> simp [hover, BudgetUsageOutcome.isDenied]
  · rw [if_neg hover]
    split <;> simp [hover, BudgetUsageOutcome.isDenied]

/-- The usage of the request fits in the counter. -/
def Counted (t : BudgetTelemetry) (requestedTokens : ℕ) : Prop :=
  t.budgetConfig.maxTokens = u32Max → t.finalUsage + requestedTokens ≤ u32Max

instance (t : BudgetTelemetry) (n : ℕ) : Decidable (t.Counted n) :=
  inferInstanceAs (Decidable (_ → _))

/-- What recording some requests leaves of a budget: so much more is spent, out of what
was left; where the counter held it, no more is noted than was spent. -/
structure Charged (t t' : BudgetTelemetry) (n : ℕ) (counted : Prop) : Prop where
  config : t'.budgetConfig = t.budgetConfig
  account : t'.account = t.account.spend n t'.ownUsage
  afforded : n ≤ t.remainingTokens
  noted : counted → t'.ownUsage ≤ t.ownUsage + n

theorem Charged.zero {t : BudgetTelemetry} {counted : Prop} : Charged t t 0 counted :=
  ⟨rfl, rfl, Nat.zero_le _, fun _ => Nat.le_refl _⟩

theorem Charged.finalUsage {t t' : BudgetTelemetry} {n : ℕ} {counted : Prop}
    (h : Charged t t' n counted) : t'.finalUsage = t.finalUsage + n :=
  congrArg Ledger.Account.spent h.account

theorem Charged.reserved {t t' : BudgetTelemetry} {n : ℕ} {counted : Prop}
    (h : Charged t t' n counted) : t'.reservedForChildren = t.reservedForChildren :=
  congrArg Ledger.Account.reserved h.account

theorem Charged.fits {t t' : BudgetTelemetry} {n : ℕ} {counted : Prop} (h : Charged t t' n counted)
    (ht : t.Fits) : t'.Fits := by
  have hwithin := ht.within
  have hbounded := ht.bounded
  have hle := h.afforded
  rw [ht.remaining] at hle
  constructor
  · rw [h.finalUsage, h.reserved, h.config]
    omega
  · rwa [h.config]

theorem Charged.trans {t t' t'' : BudgetTelemetry} {n m : ℕ} {counted counted' : Prop} (ht : t.Fits)
    (h : Charged t t' n counted) (h' : Charged t' t'' m counted') :
    Charged t t'' (n + m) (counted ∧ counted') where
  config := h'.config.trans h.config
  account := by rw [h'.account, h.account, Ledger.Account.spend_spend]
  afforded := by
    have hn := h.afforded
    have hm := h'.afforded
    rw [(h.fits ht).remaining, h.config, h.reserved, h.finalUsage] at hm
    rw [ht.remaining] at hn ⊢
    omega
  noted hcounted := by
    have := h.noted hcounted.1
    have := h'.noted hcounted.2
    omega

/-- **A covered request is paid for out of what is left.** -/
theorem Fits.recordToolUsage_charged {t : BudgetTelemetry} (ht : t.Fits) {tool : String}
    (htool : isOwnTool tool = true) {n : ℕ} (h : t.Covered n) :
    Charged t (t.recordToolUsage tool n).1 (t.applied n) (t.Counted n) := by
  have hfinal := ht.recordToolUsage_finalUsage tool n
  have hafforded := (applied_le_remaining_iff ht n).mpr h
  have hwithin := ht.within
  have hbounded := ht.bounded
  unfold recordToolUsage applied Counted at *
  simp only [gt_iff_lt] at *
  by_cases hover : t.budgetConfig.maxTokens < addUpTo u32Max t.finalUsage n
  · simp only [if_pos hover] at *
    cases haction : t.budgetConfig.exhaustionAction with
    | failHard => exact ⟨rfl, rfl, Nat.zero_le _, fun _ => Nat.le_refl _⟩
    | allowWithWarning =>
      simp only [haction] at *
      exact ⟨pushUsage_budgetConfig .., pushUsage_account _ htool hfinal, hafforded,
        fun _ => pushUsage_ownUsage_le _ htool _⟩
    | triggerCompaction =>
      simp only [haction] at *
      exact ⟨pushUsage_budgetConfig .., pushUsage_account _ htool hfinal, hafforded,
        fun _ => pushUsage_ownUsage_le _ htool _⟩
  · simp only [if_neg hover] at *
    have hnoted (hcounted : t.budgetConfig.maxTokens = u32Max → t.finalUsage + n ≤ u32Max) :
        (t.pushUsage tool n).ownUsage ≤
          t.ownUsage + (addUpTo u32Max t.finalUsage n - t.finalUsage) := by
      have hroom : t.finalUsage + n ≤ u32Max := by
        by_cases hmax : t.budgetConfig.maxTokens = u32Max
        · exact hcounted hmax
        · unfold addUpTo at hover
          omega
      rw [RustStd.addUpTo_of_le hroom, Nat.add_sub_cancel_left]
      exact pushUsage_ownUsage_le t htool n
    split at hfinal
    case isTrue hwarn =>
      rw [if_pos hwarn]
      exact ⟨pushUsage_budgetConfig .., pushUsage_account _ htool hfinal, hafforded, hnoted⟩
    case isFalse hwarn =>
      rw [if_neg hwarn]
      exact ⟨pushUsage_budgetConfig .., pushUsage_account _ htool hfinal, hafforded, hnoted⟩

/-! ## What a plan adds -/

/-- The budget later requests of a plan are measured against. -/
def after (t : BudgetTelemetry) (requestedTokens : ℕ) : BudgetTelemetry :=
  { t with finalUsage := t.finalUsage + t.applied requestedTokens }

/-- Every request of the plan is covered when its turn comes, up to the first that is
denied. -/
def PlanCovered : BudgetTelemetry → List (String × ℕ) → Prop
  | _, [] => True
  | t, (_, n) :: rest => t.Covered n ∧ (t.Denies n ∨ PlanCovered (t.after n) rest)

instance decidablePlanCovered : ∀ (t : BudgetTelemetry) (plan : List (String × ℕ)),
    Decidable (t.PlanCovered plan)
  | _, [] => isTrue trivial
  | t, (_, n) :: rest =>
    have := decidablePlanCovered (t.after n) rest
    inferInstanceAs (Decidable (t.Covered n ∧ (_ ∨ _)))

/-- The tokens recording a plan adds. -/
def planApplied : BudgetTelemetry → List (String × ℕ) → ℕ
  | _, [] => 0
  | t, (_, n) :: rest => t.applied n + if t.Denies n then 0 else planApplied (t.after n) rest

/-- Two budgets that measure requests alike. -/
structure Alike (t t' : BudgetTelemetry) : Prop where
  config : t.budgetConfig = t'.budgetConfig
  finalUsage : t.finalUsage = t'.finalUsage
  reserved : t.reservedForChildren = t'.reservedForChildren

theorem Alike.covered {t t' : BudgetTelemetry} (h : Alike t t') (n : ℕ) :
    t.Covered n ↔ t'.Covered n := by
  simp only [Covered, remainingTokens, h.config, h.finalUsage, h.reserved]

theorem Alike.denies {t t' : BudgetTelemetry} (h : Alike t t') (n : ℕ) :
    t.Denies n ↔ t'.Denies n := by
  simp only [Denies, h.config, h.finalUsage]

theorem Alike.after {t t' : BudgetTelemetry} (h : Alike t t') (n : ℕ) :
    Alike (t.after n) (t'.after n) where
  config := h.config
  finalUsage := by simp only [BudgetTelemetry.after, applied, h.config, h.finalUsage]
  reserved := h.reserved

theorem Alike.plan {plan : List (String × ℕ)} : ∀ {t t' : BudgetTelemetry}, Alike t t' →
    (t.PlanCovered plan ↔ t'.PlanCovered plan) ∧ t.planApplied plan = t'.planApplied plan := by
  induction plan with
  | nil => exact fun _ => ⟨Iff.rfl, rfl⟩
  | cons row rest ih =>
    intro t t' h
    obtain ⟨tool, n⟩ := row
    have hrest := ih (h.after n)
    have happlied : t.applied n = t'.applied n := by
      simp only [applied, h.config, h.finalUsage]
    simp only [PlanCovered, planApplied, h.covered, h.denies, hrest.1, hrest.2, happlied, and_self]

theorem Charged.alike {t t' : BudgetTelemetry} {n : ℕ} {counted : Prop}
    (h : Charged t t' (t.applied n) counted) : Alike t' (t.after n) :=
  ⟨h.config, h.finalUsage, h.reserved⟩

/-- **A covered plan is paid for out of what is left.** -/
theorem Fits.recordPlan_charged {plan : List (String × ℕ)} {action : Option String}
    (htools : ∀ row ∈ plan, isOwnTool row.1 = true) :
    ∀ {t : BudgetTelemetry}, t.Fits → t.PlanCovered plan →
      Charged t (t.recordPlan plan action).1 (t.planApplied plan) (t.Counted (planTokens plan)) := by
  induction plan generalizing action with
  | nil => exact fun _ _ => .zero
  | cons row rest ih =>
    intro t ht hplan
    obtain ⟨tool, n⟩ := row
    obtain ⟨hcovered, hrest⟩ := hplan
    have hhead := ht.recordToolUsage_charged (htools _ (List.mem_cons_self ..)) hcovered
    have hdenied := recordToolUsage_isDenied t tool n
    have hcounted (h : t.Counted (planTokens ((tool, n) :: rest))) :
        t.Counted n ∧ (t.recordToolUsage tool n).1.Counted (planTokens rest) := by
      have hle := t.applied_le n
      simp only [Counted, planTokens, List.map_cons, List.sum_cons, hhead.config, hhead.finalUsage]
        at h ⊢
      omega
    have hwhole (hnot : ¬t.Denies n) (action : Option String) :
        Charged t ((t.recordToolUsage tool n).1.recordPlan rest action).1
          (t.planApplied ((tool, n) :: rest)) (t.Counted (planTokens ((tool, n) :: rest))) := by
      have halike := @Alike.plan rest _ _ hhead.alike
      have htail := @ih action (fun row h => htools row (List.mem_cons_of_mem _ h)) _
        (hhead.fits ht) (halike.1.mpr (hrest.resolve_left hnot))
      have hall := hhead.trans ht htail
      rw [planApplied, if_neg hnot, ← halike.2]
      exact ⟨hall.config, hall.account, hall.afforded, fun h => hall.noted (hcounted h)⟩
    rw [recordPlan]
    cases hout : t.recordToolUsage tool n with
    | mk t' outcome =>
      rw [hout] at hhead hdenied hcounted hwhole
      cases outcome with
      | ok | warning | exhaustedAllowed =>
        exact hwhole (by simpa [BudgetUsageOutcome.isDenied] using hdenied) _
      | exceededDenied =>
        have hyes : t.Denies n := by simpa [BudgetUsageOutcome.isDenied] using hdenied
        rw [planApplied, if_pos hyes, Nat.add_zero]
        exact ⟨hhead.config, hhead.account, hhead.afforded, fun h => hhead.noted (hcounted h).1⟩

theorem planCovered_of_unreserved {plan : List (String × ℕ)} :
    ∀ {t : BudgetTelemetry}, t.reservedForChildren = 0 → t.PlanCovered plan := by
  induction plan with
  | nil => exact fun _ => trivial
  | cons row rest ih => exact fun h => ⟨.inl h, .inr (ih h)⟩

/-- A plan that is refused at some point. -/
def PlanDenied (t : BudgetTelemetry) (plan : List (String × ℕ)) : Prop := t.Denies (planTokens plan)

instance (t : BudgetTelemetry) (plan : List (String × ℕ)) : Decidable (t.PlanDenied plan) :=
  inferInstanceAs (Decidable (t.Denies _))

/-- After a request that is not refused, another is refused when the two together would
have been. -/
theorem Fits.denies_after {t : BudgetTelemetry} (ht : t.Fits) {n : ℕ} (hnot : ¬t.Denies n) (m : ℕ) :
    (t.after n).Denies m ↔ t.Denies (n + m) := by
  have hwithin := ht.within
  have hbounded := ht.bounded
  unfold Denies at *
  simp only [after]
  by_cases haction : t.budgetConfig.exhaustionAction = .failHard
  · have hover : ¬t.budgetConfig.maxTokens < addUpTo u32Max t.finalUsage n :=
      fun h => hnot ⟨haction, h⟩
    simp only [haction, true_and, applied, if_neg hover]
    unfold addUpTo at *
    omega
  · simp only [haction, false_and]

/-- **When a plan is refused.**  Under a hard limit, exactly when it asks for more than is
left of the limit; otherwise never. -/
theorem Fits.recordPlan_denied_iff {plan : List (String × ℕ)} {action : Option String}
    (htools : ∀ row ∈ plan, isOwnTool row.1 = true) :
    ∀ {t : BudgetTelemetry}, t.Fits → t.PlanCovered plan →
      ((∃ reason, (t.recordPlan plan action).2 = .error reason) ↔ t.PlanDenied plan) := by
  induction plan generalizing action with
  | nil =>
    intro t ht _
    have := ht.within
    have := ht.bounded
    simp only [recordPlan, reduceCtorEq, exists_false, PlanDenied, Denies, planTokens, List.map_nil,
      List.sum_nil, false_iff, not_and, not_lt]
    intro _
    unfold addUpTo
    omega
  | cons row rest ih =>
    intro t ht hplan
    obtain ⟨tool, n⟩ := row
    obtain ⟨hcovered, hrest⟩ := hplan
    have hhead := ht.recordToolUsage_charged (htools _ (List.mem_cons_self ..)) hcovered
    have hdenied := recordToolUsage_isDenied t tool n
    have htotal : planTokens ((tool, n) :: rest) = n + planTokens rest := by simp [planTokens]
    have hwhole (hnot : ¬t.Denies n) (action : Option String) :
        (∃ reason, ((t.recordToolUsage tool n).1.recordPlan rest action).2 = .error reason) ↔
          t.PlanDenied ((tool, n) :: rest) := by
      rw [@ih action (fun row h => htools row (List.mem_cons_of_mem _ h)) _ (hhead.fits ht)
        (hhead.alike.plan.1.mpr (hrest.resolve_left hnot)), PlanDenied, PlanDenied, htotal,
        hhead.alike.denies, ht.denies_after hnot]
    rw [recordPlan]
    cases hout : t.recordToolUsage tool n with
    | mk t' outcome =>
      rw [hout] at hdenied hwhole
      cases outcome with
      | ok | warning | exhaustedAllowed =>
        exact hwhole (by simpa [BudgetUsageOutcome.isDenied] using hdenied) _
      | exceededDenied reason =>
        have hyes : t.Denies n := hdenied.mp rfl
        refine iff_of_true ⟨reason, rfl⟩ ⟨hyes.1, ?_⟩
        have hover := hyes.2
        rw [htotal]
        unfold addUpTo at hover ⊢
        omega

end BudgetTelemetry

/-! ## The plans of the model -/

theorem estimateToolPlan_own (task : String) (tokenBudget : Option ℕ) :
    ∀ row ∈ estimateToolPlan task tokenBudget, isOwnTool row.1 = true := by
  simp [estimateToolPlan, isOwnTool, List.isPrefixOf]

theorem isOwnTool_context : isOwnTool "context_propagation" = true := by
  simp [isOwnTool, List.isPrefixOf]

theorem generateTokens_le (tokenBudget : ℕ) : generateTokens tokenBudget ≤ 600 := by
  unfold generateTokens
  split_ifs <;> omega

theorem planTokens_estimate_le (task : String) (tokenBudget : Option ℕ) :
    planTokens (estimateToolPlan task tokenBudget) ≤ 820 := by
  have := generateTokens_le (tokenBudget.getD 1200)
  simp only [planTokens, estimateToolPlan, List.map_cons, List.map_nil, List.sum_cons, List.sum_nil]
  unfold addUpTo
  omega

namespace BudgetTelemetry

/-- A budget nothing has been recorded on. -/
theorem new_fits {config : TokenBudgetConfig} (h : config.maxTokens ≤ u32Max) :
    (new config).Fits where
  within := Nat.zero_le _
  bounded := h

theorem new_counted (config : TokenBudgetConfig) (task : String) (tokenBudget : Option ℕ) :
    (new config).Counted (planTokens (estimateToolPlan task tokenBudget)) := by
  intro _
  have := planTokens_estimate_le task tokenBudget
  simp only [new, u32Max]
  omega

end BudgetTelemetry

end Protheus.Swarm
