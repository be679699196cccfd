import Protheus.Directive.Integrity

/-!
What `evaluate_action` decides, and that a denial stays.

`Applies` says in terms of the vault alone that an accepted rule of a kind, which no
accepted rule supersedes, matches an action.  An intact vault allows what an allowing
rule applies to and no denying one (`allowed_iff`).  Only `supersede` writes entries
that supersede others, so without it a rule that applies goes on to apply, and a
denial is never taken back.
-/

namespace Protheus.Directive

open V8Kernel Runs

/-- An accepted rule that another one supersedes. -/
def Superseded (vault row : Json) : Prop :=
  ∃ other ∈ collectRules vault, supersedesOf other ≠ "" ∧ supersedesOf other = rowId row

/-- An accepted rule of a kind that is not superseded and matches an action. -/
def Applies (vault : Json) (kind action : String) : Prop :=
  ∃ row ∈ collectRules vault, ¬ Superseded vault row ∧ ruleKind row = kind ∧
    matchesPattern (normalizeAction action) (rulePattern row) = true

/-- An accepted rule that does not deny, is not superseded and matches an action. -/
def Grants (vault : Json) (action : String) : Prop :=
  ∃ row ∈ collectRules vault, ¬ Superseded vault row ∧ ruleKind row ≠ "deny" ∧
    matchesPattern (normalizeAction action) (rulePattern row) = true

section Decision

variable {host : Host} {key : String} {vault : Json} {action : String}

theorem verified_of_ok (hok : (directiveVaultIntegrity host key vault).ok = true) {row : Json}
    (hrow : row ∈ collectRules vault) : verifyEntrySignature host key row = true := by
  obtain ⟨hmem, hrow⟩ := List.mem_filter.mp hrow
  refine ((ok_iff vault).mp hok).verified row (List.mem_filter.mpr ⟨hmem, ?_⟩)
  exact (Bool.and_eq_true_iff.mp hrow).2

theorem isSuperseded_iff (hverified : ∀ row ∈ collectRules vault, verifyEntrySignature host key row = true)
    (row : Json) :
    isSuperseded (supersededIds host key (collectRules vault)) row = true ↔ Superseded vault row := by
  have hall : (collectRules vault).filter (verifyEntrySignature host key) = collectRules vault :=
    List.filter_eq_self.mpr hverified
  rw [isSuperseded, supersededIds, hall, Bool.and_eq_true, List.contains_iff_mem, List.mem_filter,
    List.mem_map, bne_iff_ne, decide_eq_true_eq]
  constructor
  · rintro ⟨-, ⟨other, hother, heq⟩, hne⟩
    exact ⟨other, hother, heq ▸ hne, heq⟩
  · rintro ⟨other, hother, hne, heq⟩
    exact ⟨heq ▸ hne, ⟨other, hother, heq⟩, heq ▸ hne⟩

theorem mem_matching_iff (hok : (directiveVaultIntegrity host key vault).ok = true) {row : Json} :
    row ∈ matching host key (collectRules vault) action ↔
      row ∈ collectRules vault ∧ ¬ Superseded vault row ∧ matchesPattern action (rulePattern row) = true := by
  rw [matching, List.mem_filter, ← isSuperseded_iff fun row hrow => verified_of_ok hok hrow]
  refine and_congr_right fun hrow => ?_
  simp [verified_of_ok hok hrow]

theorem evaluateAction_of_failed (hok : (directiveVaultIntegrity host key vault).ok = false) :
    (evaluateAction host key vault action).allowed = false := by
  simp [evaluateAction, hok]

theorem allowed_eq (hok : (directiveVaultIntegrity host key vault).ok = true) :
    (evaluateAction host key vault action).allowed =
      ((evaluateAction host key vault action).denyHits.isEmpty &&
        !(evaluateAction host key vault action).allowHits.isEmpty) := by
  simp [evaluateAction, hok]

/-- In an intact vault the hits of a kind are its rules that apply. -/
theorem hits_iff (hok : (directiveVaultIntegrity host key vault).ok = true) (kinds : Json → Bool) :
    ((matching host key (collectRules vault) (normalizeAction action)).filter kinds).map hitOf ≠ [] ↔
      ∃ row ∈ collectRules vault, ¬ Superseded vault row ∧ kinds row = true ∧
        matchesPattern (normalizeAction action) (rulePattern row) = true := by
  rw [ne_eq, List.map_eq_nil_iff, List.filter_eq_nil_iff]
  push Not
  constructor
  · rintro ⟨row, hrow, hkind⟩
    obtain ⟨hrow, hnot, hmatch⟩ := (mem_matching_iff hok).mp hrow
    exact ⟨row, hrow, hnot, hkind, hmatch⟩
  · rintro ⟨row, hrow, hnot, hkind, hmatch⟩
    exact ⟨row, (mem_matching_iff hok).mpr ⟨hrow, hnot, hmatch⟩, hkind⟩

theorem denyHits_iff (hok : (directiveVaultIntegrity host key vault).ok = true) :
    (evaluateAction host key vault action).denyHits ≠ [] ↔ Applies vault "deny" action := by
  simpa [evaluateAction, hok, Applies] using @hits_iff host key vault action hok (ruleKind · == "deny")

theorem allowHits_iff (hok : (directiveVaultIntegrity host key vault).ok = true) :
    (evaluateAction host key vault action).allowHits ≠ [] ↔ Grants vault action := by
  simpa [evaluateAction, hok, Grants] using @hits_iff host key vault action hok (ruleKind · != "deny")

/-- An intact vault allows what a rule that does not deny matches and no denying one. -/
theorem allowed_iff_grants (hok : (directiveVaultIntegrity host key vault).ok = true) :
    (evaluateAction host key vault action).allowed = true ↔
      Grants vault action ∧ ¬ Applies vault "deny" action := by
  rw [allowed_eq hok, Bool.and_eq_true, Bool.not_eq_true', List.isEmpty_iff, List.isEmpty_eq_false_iff,
    allowHits_iff hok, ← denyHits_iff hok, not_not]
  exact and_comm

/-- **Decisions.**  Where every rule denies or allows, an action is allowed exactly when
the vault is intact, an allowing rule applies and no denying one does. -/
theorem allowed_iff (hkinds : ∀ row ∈ collectRules vault, ruleKind row = "deny" ∨ ruleKind row = "allow") :
    (evaluateAction host key vault action).allowed = true ↔
      (directiveVaultIntegrity host key vault).ok = true ∧ Applies vault "allow" action ∧
        ¬ Applies vault "deny" action := by
  have hgrants : Grants vault action ↔ Applies vault "allow" action := by
    constructor
    · rintro ⟨row, hrow, hnot, hkind, hmatch⟩
      exact ⟨row, hrow, hnot, (hkinds row hrow).resolve_left hkind, hmatch⟩
    · rintro ⟨row, hrow, hnot, hkind, hmatch⟩
      exact ⟨row, hrow, hnot, by simp [hkind], hmatch⟩
  cases hok : (directiveVaultIntegrity host key vault).ok with
  | false => simp [evaluateAction_of_failed hok]
  | true => rw [allowed_iff_grants hok, hgrants, eq_self, true_and]

/-- What a denying rule applies to is not allowed, intact or not. -/
theorem not_allowed_of_denied (h : Applies vault "deny" action) :
    (evaluateAction host key vault action).allowed = false := by
  cases hok : (directiveVaultIntegrity host key vault).ok with
  | false => exact evaluateAction_of_failed hok
  | true =>
    rw [allowed_eq hok, Bool.and_eq_false_iff, List.isEmpty_eq_false_iff]
    exact .inl ((denyHits_iff hok).mpr h)

end Decision

/-! ## Runs -/

/-- A command under the key of its process. -/
def stepUnder (host : Host) (vault : Json) (input : String × Request) : Json :=
  step host input.1 vault input.2

/-- The commands other than `supersede`. -/
def KeepsRules : Command → Prop
  | .supersede .. => False
  | _ => True

section Runs

variable {host : Host} {vault : Json}

theorem mem_collectRules_iff {vault row : Json} : row ∈ collectRules vault ↔
    row ∈ rawRows vault ∧ isEntryActive row = true ∧ isStructuredDirectiveEntry row = true := by
  rw [collectRules, List.mem_filter, Bool.and_eq_true, rawRows]

theorem supersedes_of_mem {key : String} {command : Command} (h : KeepsRules command) {append : Append}
    (happend : append ∈ appendsOf key vault command) : append.supersedes = none := by
  cases command with
  | supersede target directive signer allowUnsigned => cases h
  | primeSign directive signer allowUnsigned =>
    simp only [appendsOf] at happend
    split at happend
    · cases happend
    · rw [List.mem_singleton.mp happend]
  | derive parent directive signer allowUnsigned =>
    simp only [appendsOf] at happend
    split at happend
    · cases happend
    · split at happend
      · cases happend
      · split at happend
        · cases happend
        · rw [List.mem_singleton.mp happend]
  | migrate documents apply allowUnsigned =>
    simp only [appendsOf] at happend
    split at happend
    · cases happend
    · obtain ⟨directive, -, rfl⟩ := List.mem_map.mp happend
      rfl
  | compaction directiveText signer parentId source =>
    rw [List.mem_singleton.mp happend]

theorem kinds_run (createdMs : ℕ) (inputs : List (String × Request)) :
    ∀ row ∈ rawRows (run (stepUnder host) (defaultVault host createdMs) inputs),
      ruleKind row = "deny" ∨ ruleKind row = "allow" := by
  refine run_invariant (fun vault input (h : ∀ row ∈ rawRows vault,
    ruleKind row = "deny" ∨ ruleKind row = "allow") row hrow => ?_) inputs _ (by simp)
  obtain ⟨added, hadded⟩ : ∃ added, Extends host input.1 vault (stepUnder host vault input)
      (appendsOf input.1 vault input.2.command) added := extends_step input.2
  obtain hrow | hrow := List.mem_append.mp (hadded.rows.mem_iff.mp hrow)
  · exact h row hrow
  · obtain ⟨append, -, head, idMs, tsMs, rfl⟩ := hadded.append_of_mem hrow
    exact ruleKind_newEntry

/-- **A step without `supersede`** leaves what a rule applies to. -/
theorem applies_step {kind action : String} {input : String × Request}
    (hinput : KeepsRules input.2.command) (h : Applies vault kind action) :
    Applies (stepUnder host vault input) kind action := by
  obtain ⟨added, hadded⟩ : ∃ added, Extends host input.1 vault (stepUnder host vault input)
      (appendsOf input.1 vault input.2.command) added := extends_step input.2
  obtain ⟨row, hrow, hnot, hkind, hmatch⟩ := h
  obtain ⟨hmem, hactive, hstructured⟩ := mem_collectRules_iff.mp hrow
  refine ⟨row, mem_collectRules_iff.mpr ⟨?_, hactive, hstructured⟩, ?_, hkind, hmatch⟩
  · exact hadded.rows.mem_iff.mpr (List.mem_append_left _ hmem)
  · rintro ⟨other, hother, hne, heq⟩
    obtain ⟨hmem', hrest⟩ := mem_collectRules_iff.mp hother
    obtain hmem' | hmem' := List.mem_append.mp (hadded.rows.mem_iff.mp hmem')
    · exact hnot ⟨other, mem_collectRules_iff.mpr ⟨hmem', hrest⟩, hne, heq⟩
    · obtain ⟨append, happend, head, idMs, tsMs, rfl⟩ := hadded.append_of_mem hmem'
      exact hne (supersedesOf_newEntry (supersedes_of_mem hinput happend))

/-! ### Vaults of known directives -/

def Append.Says (append : Append) (kind action : String) : Prop :=
  RustStd.toAsciiLowercase (normalizeRule append.directiveText).1 = kind ∧
    matchesPattern (normalizeAction action)
      (RustStd.toAsciiLowercase (normalizeRule append.directiveText).2) = true

instance (append : Append) (kind action : String) : Decidable (append.Says kind action) :=
  inferInstanceAs (Decidable (_ ∧ _))

/-- A vault the kernel wrote for these appends, none of which supersedes another. -/
structure Holds (host : Host) (key : String) (vault : Json) (appends : List Append) : Prop where
  written : ∃ log, Records host key vault log ∧ List.Forall₂ (WrittenFor host key) appends log ∧
    ∀ entry ∈ log, isStructuredDirectiveEntry entry = true
  plain : ∀ append ∈ appends, append.supersedes = none

theorem holds_defaultVault {key : String} (createdMs : ℕ) :
    Holds host key (defaultVault host createdMs) [] where
  written := ⟨[], records_defaultVault createdMs, .nil, by simp⟩
  plain := by simp

section Holds

variable {key : String} {appends : List Append} (ideal : IdealHost host)
include ideal

theorem Holds.step (h : Holds host key vault appends) (request : Request)
    (hrequest : KeepsRules request.command)
    (hstorable : ∀ append ∈ appendsOf key vault request.command, Storable append) :
    Holds host key (Directive.step host key vault request)
      (appends ++ appendsOf key vault request.command) := by
  obtain ⟨log, hlog, hwritten, hstructured⟩ := h.written
  obtain ⟨added, hadded⟩ : ∃ added, Extends host key vault (Directive.step host key vault request)
      (appendsOf key vault request.command) added := extends_step request
  refine ⟨⟨log ++ added, hlog.extend ideal hadded, List.rel_append hwritten hadded.written, ?_⟩, ?_⟩
  · intro entry hentry
    obtain hentry | hentry := List.mem_append.mp hentry
    · exact hstructured entry hentry
    · exact (hlog.structured_iff ideal hadded).mpr hstorable entry hentry
  · intro append happend
    obtain happend | happend := List.mem_append.mp happend
    · exact h.plain append happend
    · exact supersedes_of_mem hrequest happend

theorem Holds.ok (h : Holds host key vault appends) :
    (directiveVaultIntegrity host key vault).ok = true := by
  obtain ⟨log, hlog, -, hstructured⟩ := h.written
  exact (hlog.ok_iff_structured ideal).mpr hstructured

omit ideal

/-- The rules of such a vault are the entries of its appends. -/
theorem Holds.mem_collectRules (h : Holds host key vault appends) {row : Json}
    (hrow : row ∈ collectRules vault) : ∃ append ∈ appends, WrittenFor host key append row := by
  obtain ⟨log, hlog, hwritten, -⟩ := h.written
  have hmem := hlog.rows.mem_iff.mp (mem_collectRules_iff.mp hrow).1
  obtain ⟨i, hi, rfl⟩ := List.mem_iff_getElem.mp hmem
  obtain ⟨hlength, hget⟩ := List.forall₂_iff_get.mp hwritten
  exact ⟨appends.get ⟨i, hlength ▸ hi⟩, List.get_mem _ _, hget i (hlength ▸ hi) hi⟩

theorem Holds.rule_of_mem (h : Holds host key vault appends) {append : Append}
    (happend : append ∈ appends) : ∃ row ∈ collectRules vault, WrittenFor host key append row := by
  obtain ⟨log, hlog, hwritten, hstructured⟩ := h.written
  obtain ⟨i, hi, rfl⟩ := List.mem_iff_getElem.mp happend
  obtain ⟨hlength, hget⟩ := List.forall₂_iff_get.mp hwritten
  have hmem : log.get ⟨i, hlength ▸ hi⟩ ∈ log := List.get_mem _ _
  have hentry : WrittenFor host key appends[i] (log.get ⟨i, hlength ▸ hi⟩) :=
    hget i hi (hlength ▸ hi)
  refine ⟨_, mem_collectRules_iff.mpr ⟨hlog.rows.mem_iff.mpr hmem, ?_, hstructured _ hmem⟩, hentry⟩
  obtain ⟨head, idMs, tsMs, heq⟩ := hentry
  rw [heq]
  exact isEntryActive_newEntry

theorem Holds.not_superseded (h : Holds host key vault appends) (row : Json) :
    ¬ Superseded vault row := by
  rintro ⟨other, hother, hne, -⟩
  obtain ⟨append, happend, head, idMs, tsMs, rfl⟩ := h.mem_collectRules hother
  exact hne (supersedesOf_newEntry (h.plain append happend))

/-- **What such a vault's rules apply to** is what its appends say. -/
theorem Holds.applies_iff (h : Holds host key vault appends) (kind action : String) :
    Applies vault kind action ↔ ∃ append ∈ appends, append.Says kind action := by
  constructor
  · rintro ⟨row, hrow, -, hkind, hmatch⟩
    obtain ⟨append, happend, head, idMs, tsMs, rfl⟩ := h.mem_collectRules hrow
    rw [rule_newEntry.1] at hkind
    rw [rule_newEntry.2] at hmatch
    exact ⟨append, happend, hkind, hmatch⟩
  · rintro ⟨append, happend, hkind, hmatch⟩
    obtain ⟨row, hrow, head, idMs, tsMs, rfl⟩ := h.rule_of_mem happend
    refine ⟨_, hrow, h.not_superseded _, ?_, ?_⟩
    · rw [rule_newEntry.1]
      exact hkind
    · rw [rule_newEntry.2]
      exact hmatch

end Holds

end Runs

/-- **Denials stay.**  After any run, an action is allowed exactly when the vault is
intact, an accepted rule that nothing supersedes allows it, and none denies it; and
once an accepted rule denies it, it is not allowed in any later state of a run without
`supersede`, under whatever key. -/
theorem denied_stays_denied (host : Host) (key : String) (createdMs : ℕ)
    (inputs : List (String × Request)) (action : String) :
    ((evaluateAction host key (run (stepUnder host) (defaultVault host createdMs) inputs)
          action).allowed = true ↔
        (directiveVaultIntegrity host key
            (run (stepUnder host) (defaultVault host createdMs) inputs)).ok = true ∧
          Applies (run (stepUnder host) (defaultVault host createdMs) inputs) "allow" action ∧
          ¬ Applies (run (stepUnder host) (defaultVault host createdMs) inputs) "deny" action) ∧
      ((directiveVaultIntegrity host key
            (run (stepUnder host) (defaultVault host createdMs) inputs)).ok = true →
        (evaluateAction host key (run (stepUnder host) (defaultVault host createdMs) inputs)
            action).denyHits ≠ [] →
          ∀ later : List (String × Request), (∀ input ∈ later, KeepsRules input.2.command) →
            ∀ key', (evaluateAction host key' (run (stepUnder host) (defaultVault host createdMs)
              (inputs ++ later)) action).allowed = false) := by
  constructor
  · exact allowed_iff fun row hrow => kinds_run createdMs inputs row (mem_collectRules_iff.mp hrow).1
  · intro hok hhits later hlater key'
    refine not_allowed_of_denied ?_
    rw [run_append]
    have hmeets : Meets (stepUnder host) (fun _ input => KeepsRules input.2.command)
        (run (stepUnder host) (defaultVault host createdMs) inputs) later :=
      Meets.of_forall fun input hinput _ => hlater input hinput
    exact Meets.invariant (fun vault input (h : Applies vault "deny" action) hinput =>
      applies_step hinput h) ((denyHits_iff hok).mp hhits) hmeets

def signDenial : Request where
  command := .primeSign (some "deny:rm") none true
  readings _ := ⟨0, 0, 0⟩

def signAllowance : Request where
  command := .primeSign (some "allow:*") none true
  readings _ := ⟨1, 1, 1⟩

theorem holds_signDenial : Holds plainHost "" (step plainHost "" (defaultVault plainHost 0) signDenial)
    (appendsOf "" (defaultVault plainHost 0) signDenial.command) :=
  (holds_defaultVault 0).step plainHost_ideal signDenial trivial (by decide)

theorem applies_signDenial :
    Applies (step plainHost "" (defaultVault plainHost 0) signDenial) "deny" "rm -rf" :=
  (holds_signDenial.applies_iff _ _).mpr ⟨_, List.mem_singleton_self _, by decide⟩

theorem denied_after_allowance : (evaluateAction plainHost "k" (run (stepUnder plainHost)
    (defaultVault plainHost 0) ([("", signDenial)] ++ [("", signAllowance)])) "rm -rf").allowed =
      false :=
  have hok : (directiveVaultIntegrity plainHost ""
      (run (stepUnder plainHost) (defaultVault plainHost 0) [("", signDenial)])).ok = true :=
    holds_signDenial.ok plainHost_ideal
  (denied_stays_denied plainHost "" 0 [("", signDenial)] "rm -rf").2 hok
    ((denyHits_iff hok).mpr applies_signDenial) [("", signAllowance)]
    (fun input hinput => by rw [List.mem_singleton.mp hinput]; trivial) "k"

end Protheus.Directive
