import Protheus.ConstitutionGuardian.Commands
import Protheus.Lib.Substitute
import Protheus.Security.Common

/-!
The goal preservation kernel of `security_wave1.rs`: a proposal is refused where it names a blocked
path, touches a protected axiom or recurses without leave.

A blocked pattern looks like a regular expression and is compared as text.  What it stands for is said
by `BlockedPattern`: a path, or two that end in `ts` and in `js`.  `parseBlockedPatternMatch_text` says
which texts meet it.  A path is taken as the proposal writes it, but for what leads it and for
backslashes.  So the aliases of a script that are caught are those with nothing left to resolve
(`matches_iff_plain`), and other spellings of it pass (`aliasRefused_iff`).
-/

namespace Protheus.Security.GoalPreservation

open ConstitutionGuardian (normalizeRel)
open RustStd
open Substitute (replaceAll spell)
open UnixPath (Comp Path comp? segments)

/-! ## Policy -/

structure SymbiosisRecursionGate where
  enabled : Bool := true
  shadowOnly : Bool := true
  signalPolicyPath : String := "client/runtime/config/symbiosis_coherence_policy.json"

structure Policy where
  version : String := "1.0"
  strictMode : Bool := true
  constitutionPath : String := "docs/workspace/AGENT-CONSTITUTION.md"
  protectedAxiomMarkers : List String :=
    ["to be a hero", "to test the limits", "to create at will", "to win my freedom",
      "user sovereignty", "root constitution"]
  blockedMutationPaths : List String :=
    ["^AGENT-CONSTITUTION\\.md$", "^SOUL\\.md$", "^USER\\.md$",
      "^client/runtime/systems/security/guard\\.(ts|js)$",
      "^client/runtime/systems/security/policy_rootd\\.(ts|js)$"]
  symbiosisRecursionGate : SymbiosisRecursionGate := {}
  statePath : String := "local/state/security/goal_preservation/latest.json"
  receiptsPath : String := "local/state/security/goal_preservation/receipts.jsonl"

/-- `goal_preservation_default_policy`. -/
def goalPreservationDefaultPolicy : Policy := {}

/-- `raw.get(name).and_then(Value::as_array)`, of which the texts are taken. -/
def texts? (raw : Json) (name : String) : Option (List String) :=
  ((raw.get? name).bind Json.asArray).map (·.filterMap Json.asStr)

/-- `raw.get(name).and_then(Value::as_bool)`. -/
def flag? (raw : Json) (name : String) : Option Bool := (raw.get? name).bind Json.asBool

/-- `goal_preservation_load_policy`. -/
def goalPreservationLoadPolicy (raw : Json) : Policy :=
  let policy := goalPreservationDefaultPolicy
  let gate := (raw.get? "symbiosis_recursion_gate").getD .null
  let out := (raw.get? "output").getD .null
  { version := ((text? raw "version").map (cleanText · 40)).getD policy.version
    strictMode := (flag? raw "strict_mode").getD policy.strictMode
    constitutionPath :=
      ((text? raw "constitution_path").map (cleanText · 320)).getD policy.constitutionPath
    protectedAxiomMarkers :=
      ((texts? raw "protected_axiom_markers").map
        (·.map fun v => toAsciiLowercase (cleanText v 240))).getD policy.protectedAxiomMarkers
    blockedMutationPaths :=
      ((texts? raw "blocked_mutation_paths").map
        (·.map (cleanText · 260))).getD policy.blockedMutationPaths
    symbiosisRecursionGate :=
      { enabled := (flag? gate "enabled").getD policy.symbiosisRecursionGate.enabled
        shadowOnly := (flag? gate "shadow_only").getD policy.symbiosisRecursionGate.shadowOnly
        signalPolicyPath :=
          ((text? gate "signal_policy_path").map (cleanText · 320)).getD
            policy.symbiosisRecursionGate.signalPolicyPath }
    statePath := ((text? out "state_path").map (cleanText · 320)).getD policy.statePath
    receiptsPath := ((text? out "receipts_path").map (cleanText · 320)).getD policy.receiptsPath }

/-! ## Matching -/

/-- `normalize_rel_path`. -/
def normalizeRelPath (v : String) : Path := normalizeRel v.toList

def lower (path : Path) : Path := path.map Char.toLower

/-- `parse_blocked_pattern_match`. -/
def parseBlockedPatternMatch (path : Path) (pattern : String) : Bool :=
  let norm := lower path
  let pat := (toAsciiLowercase (trim pattern)).toList
  let pat := pat.dropWhile (· == '^')
  let pat := (pat.reverse.dropWhile (· == '$')).reverse
  let pat := replaceAll "\\.".toList ".".toList pat
  let pat := replaceAll "\\(".toList "(".toList pat
  let pat := replaceAll "\\)".toList ")".toList pat
  let pat := replaceAll "(ts|js)".toList "ts|js".toList pat
  if "ts|js".toList <:+: pat then
    let lhs := replaceAll "ts|js".toList "ts".toList pat
    let rhs := replaceAll "ts|js".toList "js".toList pat
    norm == lhs || norm == rhs
  else norm == pat || decide (replaceAll ".*".toList [] pat <:+: norm)

/-! ## Proposals -/

abbrev Proposal := List (String × Json)

def firstField (proposal : Proposal) (names : List String) : Option Json :=
  names.findSome? fun name => proposal.lookup name

def pathFields : List String := ["mutation_paths", "files", "paths"]

def textsOf (value : Json) : List String := (value.asArray.getD []).filterMap Json.asStr

/-- The texts that are read as paths. -/
def consulted (proposal : Proposal) : List String :=
  textsOf ((firstField proposal pathFields).getD .null)

def mutationPaths (proposal : Proposal) : List Path := (consulted proposal).map normalizeRelPath

def summary (proposal : Proposal) : String :=
  toAsciiLowercase (cleanText (((firstField proposal
    ["summary", "patch_summary", "description"]).bind Json.asStr).getD "") 4000)

/-- `proposal_touches_recursive_self_improvement`. -/
def proposalTouchesRecursiveSelfImprovement (row : Proposal) (mutationPaths : List Path)
    (summary : String) : Bool :=
  let target := toAsciiLowercase
    (((firstField row ["target_system", "target"]).bind Json.asStr).getD "")
  ["recursion_depth", "recursion_mode", "recursion"].any (fun name => (row.lookup name).isSome) ||
    ["self_improvement", "self-improvement", "recursive", "recursion"].any (strContains target) ||
    mutationPaths.any (fun v =>
      ["self_improvement", "self-improvement", "self_code_evolution", "redteam"].any fun word =>
        decide (word.toList <:+: lower v)) ||
    ["recursive self-improvement", "unbounded recursion", "recursion depth",
      "self-improvement depth"].any (strContains summary)

/-! ## The gate -/

/-- What the kernel reads of the disk: what `read_json_or` makes of a file, and the digest of its text. -/
structure Files where
  json : Path → Option Json
  digest : Path → Option String

/-- `read_json_or`. -/
def Files.readJsonOr (files : Files) (path : Path) (fallback : Json) : Json :=
  (files.json path).getD fallback

/-- What `evaluate_symbiosis_gate` answers, or that it was not asked. -/
inductive SymbiosisGate where
  | gateDisabled
  | notRecursiveProposal (enabled : Bool)
  | evaluated (identityDriftScore : ℚ) (consentState : String) (holdRate : ℚ)

/-- The greatest hold rate, `0.65` as it is stored. -/
def holdRateLimit : ℚ := 5854679515581645 / 2 ^ 53

def SymbiosisGate.allowed : SymbiosisGate → Bool
  | .gateDisabled => true
  | .notRecursiveProposal _ => true
  | .evaluated identityDriftScore consentState holdRate =>
    let identityClear := decide (identityDriftScore ≤ 1 / 2)
    let consentGranted := ["granted", "active", "approved"].contains consentState
    let holdOk := decide (holdRate ≤ holdRateLimit)
    identityClear && consentGranted && holdOk

/-- `evaluate_symbiosis_gate`. -/
def evaluateSymbiosisGate (repoRoot : Path) (files : Files) (policy : Policy) : SymbiosisGate :=
  let gate := policy.symbiosisRecursionGate
  if !gate.enabled then .gateDisabled
  else
    let signalPolicy :=
      files.readJsonOr (UnixPath.join repoRoot gate.signalPolicyPath.toList) (.obj [])
    let paths := (signalPolicy.get? "paths").getD .null
    let read (key fallback : String) : Json :=
      files.readJsonOr (UnixPath.join repoRoot ((text? paths key).getD fallback).toList) (.obj [])
    let identityLatest := read "identity_latest_path"
      "client/runtime/local/state/autonomy/identity_anchor/latest.json"
    let preNeuralState := read "pre_neuralink_state_path"
      "client/runtime/local/state/symbiosis/pre_neuralink_interface/state.json"
    let observerLatest := read "observer_mirror_latest_path"
      "client/runtime/local/state/autonomy/observer_mirror/latest.json"
    let identityDrift := (((identityLatest.get? "max_identity_drift_score").or
      (identityLatest.get? "identity_drift_score")).bind Json.asF64).getD 0
    let consentState := toAsciiLowercase ((text? preNeuralState "consent_state").getD "unknown")
    let holdRate := ((((observerLatest.get? "summary").bind (·.get? "rates")).bind
      (·.get? "hold_rate")).bind Json.asF64).getD 0
    .evaluated identityDrift consentState holdRate

/-! ## Evaluation -/

structure Answer where
  allowed : Bool
  strictMode : Bool
  proposalId : Json
  mutationPaths : List Path
  reasons : List String
  advisories : List String
  markerHits : List String
  blockedPathHits : List Path
  constitutionHash : Option String
  symbiosisRecursionGate : SymbiosisGate

def blockedHits (policy : Policy) (paths : List Path) : List Path :=
  policy.blockedMutationPaths.flatMap fun pat => paths.filter fun path =>
    parseBlockedPatternMatch path pat

def markerHits (policy : Policy) (proposal : Proposal) : List String :=
  policy.protectedAxiomMarkers.filter fun marker =>
    strContains (summary proposal) (toAsciiLowercase marker)

def strictKeywords : List String :=
  ["disable constitution", "rewrite constitution", "bypass user veto", "remove user control",
    "disable guard", "turn off integrity"]

def recursiveTouch (proposal : Proposal) : Bool :=
  proposalTouchesRecursiveSelfImprovement proposal (mutationPaths proposal) (summary proposal)

def expectedHash (proposal : Proposal) : Option String :=
  ((proposal.lookup "expected_constitution_hash").bind Json.asStr).map fun v =>
    toAsciiLowercase (trim v)

/-- Where the kernel runs. -/
structure Setting where
  repoRoot : Path
  files : Files

def Setting.constitutionHash (setting : Setting) (policy : Policy) : Option String :=
  setting.files.digest (UnixPath.join setting.repoRoot policy.constitutionPath.toList)

def Setting.symbiosisGate (setting : Setting) (policy : Policy) (proposal : Proposal) :
    SymbiosisGate :=
  if recursiveTouch proposal then evaluateSymbiosisGate setting.repoRoot setting.files policy
  else .notRecursiveProposal policy.symbiosisRecursionGate.enabled

/-- Both are known, and not the same. -/
def differ (expected actual : Option String) : Bool :=
  match expected, actual with
  | some expected, some actual => expected != actual
  | _, _ => false

/-- `run_goal_preservation_kernel` with `evaluate`, of a proposal that is an object.  The answer is
written to the state file and to the receipts besides, where that works. -/
def evaluate (setting : Setting) (policy : Policy) (proposal : Proposal) : Answer :=
  let paths := mutationPaths proposal
  let blocked := blockedHits policy paths
  let markers := markerHits policy proposal
  let constitutionHash := setting.constitutionHash policy
  let gate := setting.symbiosisGate policy proposal
  let reasons :=
    (if blocked.isEmpty then [] else ["blocked_mutation_path"]) ++
    (if markers.isEmpty then [] else ["protected_axiom_marker_touched"]) ++
    (if differ (expectedHash proposal) constitutionHash then ["constitution_hash_mismatch"]
      else []) ++
    (if strictKeywords.any (strContains (summary proposal)) then ["alignment_keyword_violation"]
      else []) ++
    (if recursiveTouch proposal && !gate.allowed then ["symbiosis_recursion_gate_blocked"] else [])
  { allowed := reasons.isEmpty
    strictMode := policy.strictMode
    proposalId := (proposal.lookup "proposal_id").getD .null
    mutationPaths := paths
    reasons := reasons
    advisories := if recursiveTouch proposal then ["recursive_change_detected"] else []
    markerHits := markers
    blockedPathHits := blocked
    constitutionHash := constitutionHash
    symbiosisRecursionGate := gate }

/-! ## What a pattern stands for -/

/-- The characters that mean something in an expression, but for the dot. -/
def specialChars : List Char :=
  ['\\', '^', '$', '|', '?', '*', '+', '(', ')', '[', ']', '{', '}']

/-- A path from the root of the repository, spelled out. -/
def IsFull (path : Path) : Prop := ∀ seg ∈ segments path, comp? seg = some (.normal seg)

/-- A full relative path that is anchored at both ends, with escaped dots and perhaps `(ts|js)` at the
end. -/
structure BlockedPattern where
  path : Path
  alternative : Bool
  literal : ∀ c ∈ path, c ∉ specialChars
  full : ∀ ending ∈ (if alternative then ["ts".toList, "js".toList] else [[]]), IsFull (path ++ ending)

namespace BlockedPattern

def endings (p : BlockedPattern) : List (List Char) :=
  if p.alternative then ["ts".toList, "js".toList] else [[]]

/-- The paths the pattern denotes. -/
def denotes (p : BlockedPattern) : List Path := p.endings.map (p.path ++ ·)

/-- What stands between the anchors. -/
def body (p : BlockedPattern) : List Char :=
  spell '.' "\\.".toList p.path ++ if p.alternative then "(ts|js)".toList else []

/-- The pattern as it is written. -/
def text (p : BlockedPattern) : String := String.ofList ('^' :: (p.body ++ ['$']))

/-- What the comparison makes of the pattern. -/
def Matches (p : BlockedPattern) (path : Path) : Prop :=
  if p.alternative then ∃ denoted ∈ p.denotes, lower path = lower denoted
  else lower p.path <:+: lower path

end BlockedPattern

theorem toLower_eq_special {c s : Char} (hs : s.toNat < 65 ∨ 90 < s.toNat)
    (hlower : s.toNat < 97 ∨ 122 < s.toNat) : c.toLower = s ↔ c = s := by
  obtain hsame | ⟨hlo, hhi, hnat⟩ := LaneUtils.toLower_cases c
  · rw [hsame]
  · constructor
    · rintro rfl
      omega
    · rintro rfl
      omega

section Text

variable {p : BlockedPattern}

theorem notMem_lower {c : Char} (hc : c ∈ specialChars) : c ∉ lower p.path := by
  have hspecial : specialChars.all fun c =>
      decide ((c.toNat < 65 ∨ 90 < c.toNat) ∧ (c.toNat < 97 ∨ 122 < c.toNat)) := by decide
  have hcase := of_decide_eq_true (List.all_eq_true.mp hspecial c hc)
  intro hmem
  obtain ⟨d, hd, hlower⟩ := List.mem_map.mp hmem
  obtain rfl := (toLower_eq_special hcase.1 hcase.2).mp hlower
  exact p.literal d hd hc

theorem dropWhile_of_notMem {c : Char} {l : List Char} (h : c ∉ l) : l.dropWhile (· == c) = l := by
  cases l with
  | nil => rfl
  | cons d rest =>
    rw [List.dropWhile_cons_of_neg]
    rintro hd
    exact h (eq_of_beq hd ▸ List.mem_cons_self)

/-- The pattern in lower case, between its anchors. -/
def lowerBody (p : BlockedPattern) : List Char :=
  spell '.' "\\.".toList (lower p.path) ++ if p.alternative then "(ts|js)".toList else []

theorem lower_body (p : BlockedPattern) : lower p.body = lowerBody p := by
  have hspell := @Substitute.map_spell _ _ p.path '.' Char.toLower "\\.".toList (by decide)
    fun c => toLower_eq_special (by decide) (by decide)
  rw [lower, BlockedPattern.body, List.map_append, hspell, lowerBody, lower]
  split
  · rfl
  · rfl

/-- The anchors stand nowhere else. -/
theorem notMem_lowerBody {c : Char} (hspecial : c ∈ specialChars) (hescaped : c ∉ "\\.".toList)
    (hchoice : c ∉ "(ts|js)".toList) : c ∉ lowerBody p := by
  intro hmem
  obtain hpath | hending := List.mem_append.mp hmem
  · cases Substitute.mem_spell hpath with
    | inl hpath => exact notMem_lower hspecial hpath
    | inr hword => exact hescaped hword
  · split at hending
    · exact hchoice hending
    · cases hending

/-- Without its anchors and in lower case. -/
theorem unanchored_text (p : BlockedPattern) :
    ((((toAsciiLowercase (trim p.text)).toList.dropWhile (· == '^')).reverse.dropWhile
      (· == '$')).reverse) = lowerBody p := by
  have htrim : trim p.text = p.text := by
    apply LaneUtils.trim_eq_self_of
    · intro c hc
      rw [BlockedPattern.text, String.toList_ofList] at hc
      cases hc
      rfl
    · intro c hc
      rw [BlockedPattern.text, String.toList_ofList, ← List.cons_append, List.getLast?_concat] at hc
      cases hc
      rfl
  have hlower : (toAsciiLowercase p.text).toList = '^' :: (lowerBody p ++ ['$']) := by
    rw [toAsciiLowercase, String.toList_ofList, BlockedPattern.text, String.toList_ofList,
      List.map_cons, List.map_append, ← lower, lower_body]
    rfl
  have hstart : '^' ∉ lowerBody p ++ ['$'] := by
    rw [List.mem_append, not_or]
    exact ⟨notMem_lowerBody (by decide) (by decide) (by decide), by decide⟩
  have hend : '$' ∉ (lowerBody p).reverse := by
    rw [List.mem_reverse]
    exact notMem_lowerBody (by decide) (by decide) (by decide)
  rw [htrim, hlower, List.dropWhile_cons_of_pos (by decide), dropWhile_of_notMem hstart,
    List.reverse_append, List.reverse_singleton, List.singleton_append,
    List.dropWhile_cons_of_pos (by decide), dropWhile_of_notMem hend, List.reverse_reverse]

/-- The dots are put back, and the choice loses its parentheses. -/
theorem unescaped_body (p : BlockedPattern) :
    replaceAll "(ts|js)".toList "ts|js".toList (replaceAll "\\)".toList ")".toList
      (replaceAll "\\(".toList "(".toList (replaceAll "\\.".toList ".".toList (lowerBody p)))) =
      lower p.path ++ if p.alternative then "ts|js".toList else [] := by
  have hescape : '\\' ∉ lower p.path := notMem_lower (by decide)
  have hopen : '(' ∉ lower p.path := notMem_lower (by decide)
  have hdots (ending : List Char) (h : '\\' ∉ ending) :
      replaceAll "\\.".toList ".".toList (spell '.' "\\.".toList (lower p.path) ++ ending) =
        lower p.path ++ ending := by
    have hspell := @Substitute.replaceAll_spell _ _ (lower p.path) '.' '\\' ['.'] ending hescape
    have hrest := @Substitute.replaceAll_of_notMem _ _ "\\.".toList ".".toList ending '\\'
      (by decide) h
    exact hspell.trans (congrArg _ hrest)
  have hplain (ending : List Char) (h : '\\' ∉ ending) (pat new : List Char) (hpat : '\\' ∈ pat) :
      replaceAll pat new (lower p.path ++ ending) = lower p.path ++ ending := by
    refine Substitute.replaceAll_of_notMem hpat ?_
    rw [List.mem_append, not_or]
    exact ⟨hescape, h⟩
  rw [lowerBody]
  cases p.alternative with
  | false =>
    rw [if_neg Bool.false_ne_true, if_neg Bool.false_ne_true, hdots [] nofun,
      hplain [] nofun _ _ (by decide), hplain [] nofun _ _ (by decide)]
    exact Substitute.replaceAll_of_notMem (show '(' ∈ "(ts|js)".toList by decide)
      (by simpa using hopen)
  | true =>
    have hchoice : '\\' ∉ "(ts|js)".toList := by decide
    rw [if_pos rfl, if_pos rfl, hdots _ hchoice, hplain _ hchoice _ _ (by decide),
      hplain _ hchoice _ _ (by decide)]
    exact @Substitute.replaceAll_append_self _ _ "ts|js".toList (lower p.path) '(' [] "ts|js)".toList
      nofun hopen

/-- What meets a pattern as it is written. -/
theorem parseBlockedPatternMatch_text (p : BlockedPattern) (path : Path) :
    parseBlockedPatternMatch path p.text = true ↔ p.Matches path := by
  have hbar : '|' ∉ lower p.path := notMem_lower (by decide)
  have hstar : '*' ∉ lower p.path := notMem_lower (by decide)
  unfold parseBlockedPatternMatch
  dsimp only
  rw [unanchored_text, unescaped_body, BlockedPattern.Matches, BlockedPattern.denotes,
    BlockedPattern.endings]
  cases p.alternative with
  | false =>
    have hnone : ¬"ts|js".toList <:+: lower p.path ++ [] := by
      intro hwithin
      rw [List.append_nil] at hwithin
      exact hbar (hwithin.subset (show '|' ∈ "ts|js".toList by decide))
    have hwild := @Substitute.replaceAll_of_notMem _ _ ".*".toList [] (lower p.path) '*'
      (by decide) hstar
    rw [if_neg Bool.false_ne_true, if_neg hnone, if_neg Bool.false_ne_true, List.append_nil, hwild]
    rw [Bool.or_eq_true, beq_iff_eq, decide_eq_true_iff]
    constructor
    · rintro (heq | hwithin)
      · exact heq ▸ List.infix_rfl
      · exact hwithin
    · exact .inr
  | true =>
    have hchoice : "ts|js".toList <:+: lower p.path ++ "ts|js".toList := List.suffix_append _ _ |>.isInfix
    have hending (new : List Char) :
        replaceAll "ts|js".toList new (lower p.path ++ "ts|js".toList) = lower p.path ++ new :=
      @Substitute.replaceAll_append_self _ _ new (lower p.path) '|' "ts".toList "js".toList
        (by decide) hbar
    have hlower (ending : List Char) (h : lower ending = ending) :
        lower (p.path ++ ending) = lower p.path ++ ending := by
      rw [lower, List.map_append, ← lower, ← lower, h]
    rw [if_pos rfl, if_pos hchoice, if_pos rfl, hending, hending, Bool.or_eq_true, beq_iff_eq,
      beq_iff_eq, ← hlower _ (by decide), ← hlower _ (by decide)]
    simp

end Text

/-! ## What is refused -/

/-- The patterns of a policy file, as they are written there or by default. -/
def writtenPatterns (raw : Json) : List String :=
  (texts? raw "blocked_mutation_paths").getD goalPreservationDefaultPolicy.blockedMutationPaths

theorem blockedMutationPaths_eq (raw : Json) :
    (goalPreservationLoadPolicy raw).blockedMutationPaths =
      (writtenPatterns raw).map (cleanText · 260) := by
  have hdefault : goalPreservationDefaultPolicy.blockedMutationPaths =
      goalPreservationDefaultPolicy.blockedMutationPaths.map (cleanText · 260) := by decide
  rw [goalPreservationLoadPolicy, writtenPatterns]
  cases texts? raw "blocked_mutation_paths" with
  | none => exact hdefault
  | some texts => rfl

/-! ## Aliases -/

/-- The texts that the proposal lists under one of the three fields. -/
def listedPaths (proposal : Proposal) : List String :=
  pathFields.flatMap fun name => textsOf ((proposal.lookup name).getD .null)

/-- The spelling stands for the path: backslashes are slashes, dots are resolved and case is ignored. -/
def IsAlias (spelling : String) (denoted : Path) : Prop :=
  let place := UnixPath.route (segments (AdaptiveStore.normalizePathString spelling.toList))
  place.ups = 0 ∧ place.names.map lower = (segments denoted).map lower

instance (spelling : String) (denoted : Path) : Decidable (IsAlias spelling denoted) :=
  inferInstanceAs (Decidable (_ ∧ _))

/-- The proposal lists an alias of a path that a pattern denotes. -/
def ListsAlias (patterns : List BlockedPattern) (proposal : Proposal) : Prop :=
  ∃ spelling ∈ listedPaths proposal, ∃ p ∈ patterns, ∃ denoted ∈ p.denotes, IsAlias spelling denoted

instance (patterns : List BlockedPattern) (proposal : Proposal) :
    Decidable (ListsAlias patterns proposal) :=
  inferInstanceAs (Decidable (∃ spelling ∈ listedPaths proposal, ∃ p ∈ patterns, ∃ denoted ∈ p.denotes,
    IsAlias spelling denoted))

/-- An alias with nothing left to resolve once what leads it is taken off. -/
def IsPlainAlias (spelling : String) (denoted : Path) : Prop :=
  IsFull (normalizeRelPath spelling) ∧ IsAlias spelling denoted

instance (path : Path) : Decidable (IsFull path) := inferInstanceAs (Decidable (∀ seg ∈ segments path, _))

instance (spelling : String) (denoted : Path) : Decidable (IsPlainAlias spelling denoted) :=
  inferInstanceAs (Decidable (_ ∧ _))

section Aliases

/-- What is taken off a spelling counts for nothing. -/
theorem route_normalizeRelPath (spelling : String) :
    UnixPath.route (segments (normalizeRelPath spelling)) =
      UnixPath.route (segments (AdaptiveStore.normalizePathString spelling.toList)) := by
  rw [UnixPath.route, UnixPath.route, normalizeRelPath, normalizeRel, AdaptiveStore.body_dropWhile_slash,
    AdaptiveStore.trimStartMatches, AdaptiveStore.body_trimStartTimes]

/-- A path that is spelled out leads where it says. -/
theorem route_of_isFull {path : Path} (h : IsFull path) :
    UnixPath.route (segments path) = ⟨false, 0, segments path⟩ := by
  have hbody (segs : List (List Char)) (h : ∀ seg ∈ segs, comp? seg = some (.normal seg)) :
      UnixPath.body segs = segs.map .normal := by
    induction segs with
    | nil => rfl
    | cons seg rest ih =>
      rw [UnixPath.body_cons_of_some (h seg List.mem_cons_self),
        ih fun s hs => h s (List.mem_cons_of_mem seg hs), List.map_cons]
  exact UnixPath.route_of_names (hbody (segments path) h)

/-- Paths are the same in lower case where their segments are. -/
theorem lower_eq_iff {path denoted : Path} :
    lower path = lower denoted ↔ (segments path).map lower = (segments denoted).map lower := by
  have hlower (path : Path) : lower path = ['/'].intercalate ((segments path).map lower) := by
    have hmap (segs : List (List Char)) :
        lower (['/'].intercalate segs) = ['/'].intercalate (segs.map lower) := by
      induction segs with
      | nil => rfl
      | cons seg rest ih =>
        cases rest with
        | nil => simp
        | cons next rest =>
          rw [List.map_cons, List.map_cons, List.intercalate_cons_cons, List.intercalate_cons_cons,
            ← List.map_cons, ← ih, lower, List.map_append, List.map_append]
          rfl
    rw [← hmap, segments, List.intercalate_splitOn]
  have hsegs (path : Path) : segments (lower path) = (segments path).map lower := by
    rw [hlower]
    refine UnixPath.segments_intercalate (mt List.map_eq_nil_iff.mp (List.splitOn_ne_nil '/' path)) ?_
    rintro _ hlow hslash
    obtain ⟨seg, hseg, rfl⟩ := List.mem_map.mp hlow
    obtain ⟨c, hc, heq⟩ := List.mem_map.mp hslash
    exact UnixPath.slash_notMem_segments hseg ((toLower_eq_special (by decide) (by decide)).mp heq ▸ hc)
  constructor
  · intro h
    rw [← hsegs, h, hsegs]
  · intro h
    rw [hlower, h, ← hlower]

/-- A segment that is a name in lower case is a name. -/
theorem comp?_of_lower {seg name : List Char} (hname : comp? name = some (.normal name))
    (h : lower seg = lower name) : comp? seg = some (.normal seg) := by
  have hdots (dots : List Char) (hall : ∀ c ∈ dots, c = '.') (hseg : seg = dots) : name = dots := by
    have hsame : name.map Char.toLower = dots.map id := by
      rw [← lower, ← h, hseg, lower]
      exact List.map_congr_left fun c hc => by rw [hall c hc]; decide
    rw [List.map_id] at hsame
    rw [← hsame]
    refine (List.map_id name).symm.trans (List.map_congr_left fun c hc => ?_)
    have hlow : c.toLower = '.' := hall _ (hsame ▸ List.mem_map_of_mem hc)
    rw [hlow, id, (toLower_eq_special (by decide) (by decide)).mp hlow]
  unfold comp?
  split
  · rw [hdots [] (by simp) rfl] at hname
    cases hname
  · rw [hdots ['.'] (by simp) rfl] at hname
    cases hname
  · rw [hdots ['.', '.'] (by simp) rfl] at hname
    cases hname
  · rfl

/-- **The spellings that are compared equal** to a path spelled out are its plain aliases. -/
theorem isPlainAlias_iff {spelling : String} {denoted : Path} (hdenoted : IsFull denoted) :
    IsPlainAlias spelling denoted ↔ lower (normalizeRelPath spelling) = lower denoted := by
  rw [lower_eq_iff]
  constructor
  · rintro ⟨hfull, -, hnames⟩
    rwa [← route_normalizeRelPath, route_of_isFull hfull] at hnames
  · intro hsame
    have hfull : IsFull (normalizeRelPath spelling) := by
      intro seg hseg
      obtain ⟨name, hname, hlow⟩ := List.mem_map.mp (hsame ▸ List.mem_map_of_mem hseg)
      exact comp?_of_lower (hdenoted name hname) hlow.symm
    refine ⟨hfull, ?_⟩
    rw [IsAlias, ← route_normalizeRelPath, route_of_isFull hfull]
    exact ⟨rfl, hsame⟩

/-- **What a script's pattern meets**: the plain aliases of the paths it denotes. -/
theorem matches_iff_plain {p : BlockedPattern} (hchoice : p.alternative = true) {spelling : String} :
    p.Matches (normalizeRelPath spelling) ↔ ∃ denoted ∈ p.denotes, IsPlainAlias spelling denoted := by
  rw [BlockedPattern.Matches, if_pos hchoice]
  refine exists_congr fun denoted => and_congr_right fun hdenoted => (isPlainAlias_iff ?_).symm
  obtain ⟨ending, hending, rfl⟩ := List.mem_map.mp hdenoted
  exact p.full ending hending

end Aliases

/-- What a pattern catches once the policy is loaded, which cuts a pattern at 260 characters and joins
its words by single blanks: with an alternative the plain aliases of its paths, without one every
spelling that its path stands in. -/
inductive BlockedPattern.Catches (p : BlockedPattern) (spelling : String) : Prop
  | plain (hkept : cleanText p.text 260 = p.text) (hchoice : p.alternative = true)
    (halias : ∃ denoted ∈ p.denotes, IsPlainAlias spelling denoted)
  | within (hkept : cleanText p.text 260 = p.text) (hsingle : p.alternative = false)
    (hwithin : lower p.path <:+: lower (normalizeRelPath spelling))
  | changed (hchanged : cleanText p.text 260 ≠ p.text)
    (hmatch : parseBlockedPatternMatch (normalizeRelPath spelling) (cleanText p.text 260) = true)

theorem BlockedPattern.catches_iff {p : BlockedPattern} {spelling : String} : p.Catches spelling ↔
    parseBlockedPatternMatch (normalizeRelPath spelling) (cleanText p.text 260) = true := by
  by_cases hkept : cleanText p.text 260 = p.text
  · have hsplit : p.Catches spelling ↔ p.Matches (normalizeRelPath spelling) := by
      cases hchoice : p.alternative with
      | true =>
        rw [matches_iff_plain hchoice]
        refine ⟨fun h => ?_, .plain hkept hchoice⟩
        rcases h with ⟨-, -, h⟩ | ⟨-, h, -⟩ | ⟨h, -⟩
        · exact h
        · rw [hchoice] at h
          cases h
        · exact absurd hkept h
      | false =>
        rw [Matches, if_neg (by rw [hchoice]; exact Bool.false_ne_true)]
        refine ⟨fun h => ?_, .within hkept hchoice⟩
        rcases h with ⟨-, h, -⟩ | ⟨-, -, h⟩ | ⟨h, -⟩
        · rw [hchoice] at h
          cases h
        · exact h
        · exact absurd hkept h
    rw [hsplit, hkept, parseBlockedPatternMatch_text]
  · refine ⟨fun h => ?_, .changed hkept⟩
    rcases h with ⟨h, -, -⟩ | ⟨h, -, -⟩ | ⟨-, h⟩
    · exact absurd h hkept
    · exact absurd h hkept
    · exact h

/-- An alias with nothing left to resolve is caught. -/
theorem BlockedPattern.catches_of_plain {p : BlockedPattern} (hkept : cleanText p.text 260 = p.text)
    {spelling : String} {denoted : Path} (hdenoted : denoted ∈ p.denotes)
    (hplain : IsPlainAlias spelling denoted) : p.Catches spelling := by
  cases hchoice : p.alternative with
  | true => exact .plain hkept hchoice ⟨denoted, hdenoted, hplain⟩
  | false =>
    obtain ⟨ending, hending, rfl⟩ := List.mem_map.mp hdenoted
    refine .within hkept hchoice ?_
    rw [(isPlainAlias_iff (p.full ending hending)).mp hplain, lower, lower, List.map_append]
    exact List.infix_append' [] _ _

/-- With an alternative no other alias is. -/
theorem BlockedPattern.isFull_of_catches {p : BlockedPattern} (hkept : cleanText p.text 260 = p.text)
    (hchoice : p.alternative = true) {spelling : String} (h : p.Catches spelling) :
    IsFull (normalizeRelPath spelling) := by
  rcases h with ⟨-, -, denoted, -, hplain⟩ | ⟨-, hsingle, -⟩ | ⟨hchanged, -⟩
  · exact hplain.1
  · rw [hchoice] at hsingle
    cases hsingle
  · exact absurd hkept hchanged

/-- Some spelling in the field that is read is caught. -/
def Caught (patterns : List BlockedPattern) (proposal : Proposal) : Prop :=
  ∃ p ∈ patterns, ∃ spelling ∈ consulted proposal, p.Catches spelling

/-- The other reasons. -/
def RefusedOtherwise (setting : Setting) (policy : Policy) (proposal : Proposal) : Prop :=
  markerHits policy proposal ≠ [] ∨
    differ (expectedHash proposal) (setting.constitutionHash policy) = true ∨
    (∃ keyword ∈ strictKeywords, strContains (summary proposal) keyword = true) ∨
    recursiveTouch proposal = true ∧
      (evaluateSymbiosisGate setting.repoRoot setting.files policy).allowed = false

section Refusal

variable {setting : Setting} {policy : Policy} {proposal : Proposal} {raw : Json}
  {patterns : List BlockedPattern}

theorem allowed_eq_false_iff : (evaluate setting policy proposal).allowed = false ↔
    blockedHits policy (mutationPaths proposal) ≠ [] ∨
      RefusedOtherwise setting policy proposal := by
  have hgate : (recursiveTouch proposal && !(setting.symbiosisGate policy proposal).allowed) = true ↔
      recursiveTouch proposal = true ∧
        (evaluateSymbiosisGate setting.repoRoot setting.files policy).allowed = false := by
    rw [Setting.symbiosisGate]
    cases recursiveTouch proposal with
    | false => simp
    | true => simp
  have hkeyword : strictKeywords.any (strContains (summary proposal)) = true ↔
      ∃ keyword ∈ strictKeywords, strContains (summary proposal) keyword = true := List.any_eq_true
  rw [evaluate, RefusedOtherwise, ← hgate, ← hkeyword]
  dsimp only
  rw [← Bool.not_eq_true, List.isEmpty_iff]
  simp only [List.append_eq_nil_iff, ite_eq_left_iff, ite_eq_right_iff, List.cons_ne_nil, imp_false,
    not_not, List.isEmpty_iff, not_and_or, or_assoc, ne_eq]

theorem blockedHits_ne_nil_iff (hwritten : writtenPatterns raw = patterns.map BlockedPattern.text) :
    blockedHits (goalPreservationLoadPolicy raw) (mutationPaths proposal) ≠ [] ↔
      Caught patterns proposal := by
  have hhit (path : Path) : path ∈ blockedHits (goalPreservationLoadPolicy raw) (mutationPaths proposal) ↔
      ∃ p ∈ patterns, ∃ spelling ∈ consulted proposal, p.Catches spelling ∧ normalizeRelPath spelling = path := by
    rw [blockedHits, blockedMutationPaths_eq, hwritten, List.map_map, List.flatMap_map, List.mem_flatMap]
    refine exists_congr fun p => and_congr_right fun _ => ?_
    rw [List.mem_filter, mutationPaths, List.mem_map, Function.comp_apply]
    constructor
    · rintro ⟨⟨spelling, hspelling, rfl⟩, hmatch⟩
      exact ⟨spelling, hspelling, BlockedPattern.catches_iff.mpr hmatch, rfl⟩
    · rintro ⟨spelling, hspelling, hcaught, rfl⟩
      exact ⟨⟨spelling, hspelling, rfl⟩, BlockedPattern.catches_iff.mp hcaught⟩
  constructor
  · intro hne
    obtain ⟨path, hpath⟩ := List.exists_mem_of_ne_nil _ hne
    obtain ⟨p, hp, spelling, hspelling, hcaught, -⟩ := (hhit path).mp hpath
    exact ⟨p, hp, spelling, hspelling, hcaught⟩
  · rintro ⟨p, hp, spelling, hspelling, hcaught⟩
    exact List.ne_nil_of_mem ((hhit _).mpr ⟨p, hp, spelling, hspelling, hcaught, rfl⟩)

end Refusal

/-- **A proposal that lists an alias** of a protected path is refused where the field that is read has
a plain alias of a script, or a spelling that the path of another pattern stands in, or for another
reason.  Of the aliases of its paths a pattern catches those with nothing left to resolve, and with an
alternative no others. -/
theorem aliasRefused_iff (setting : Setting) {raw : Json} {patterns : List BlockedPattern}
    (hwritten : writtenPatterns raw = patterns.map BlockedPattern.text) (proposal : Proposal) :
    ((ListsAlias patterns proposal →
        (evaluate setting (goalPreservationLoadPolicy raw) proposal).allowed = false) ↔
      (ListsAlias patterns proposal → Caught patterns proposal ∨
        RefusedOtherwise setting (goalPreservationLoadPolicy raw) proposal)) ∧
    ∀ p ∈ patterns, cleanText p.text 260 = p.text → ∀ denoted ∈ p.denotes, ∀ spelling,
      IsAlias spelling denoted →
        (IsFull (normalizeRelPath spelling) → p.Catches spelling) ∧
          (p.alternative = true → p.Catches spelling → IsFull (normalizeRelPath spelling)) := by
  constructor
  · rw [allowed_eq_false_iff, blockedHits_ne_nil_iff hwritten]
  · intro p _ hkept denoted hdenoted spelling halias
    exact ⟨fun hfull => p.catches_of_plain hkept hdenoted ⟨hfull, halias⟩,
      fun hchoice hcaught => p.isFull_of_catches hkept hchoice hcaught⟩

/-! ### The default patterns -/

theorem literal_of_all {path : Path} (h : (path.all fun c => !specialChars.contains c) = true) :
    ∀ c ∈ path, c ∉ specialChars := by
  intro c hc
  simpa using List.all_eq_true.mp h c hc

def filePattern (path : String) (hliteral : (path.toList.all fun c => !specialChars.contains c) = true)
    (hfull : IsFull path.toList) : BlockedPattern where
  path := path.toList
  alternative := false
  literal := literal_of_all hliteral
  full := by simpa using hfull

/-- A script by its name without `ts` or `js`. -/
def scriptPattern (path : String) (hliteral : (path.toList.all fun c => !specialChars.contains c) = true)
    (hts : IsFull (path.toList ++ "ts".toList)) (hjs : IsFull (path.toList ++ "js".toList)) :
    BlockedPattern where
  path := path.toList
  alternative := true
  literal := literal_of_all hliteral
  full := by simpa using ⟨hts, hjs⟩

def defaultPatterns : List BlockedPattern :=
  [filePattern "AGENT-CONSTITUTION.md" (by decide) (by decide),
    filePattern "SOUL.md" (by decide) (by decide),
    filePattern "USER.md" (by decide) (by decide),
    scriptPattern "client/runtime/systems/security/guard." (by decide) (by decide)
      (by decide),
    scriptPattern "client/runtime/systems/security/policy_rootd." (by decide)
      (by decide) (by decide)]

/-- The default policy blocks full paths. -/
theorem writtenPatterns_default {raw : Json} (h : texts? raw "blocked_mutation_paths" = none) :
    writtenPatterns raw = defaultPatterns.map BlockedPattern.text := by
  rw [writtenPatterns, h]
  decide

/-- A repository where the kernel finds no file. -/
def bareSetting : Setting where
  repoRoot := "/repo".toList
  files := { json _ := none, digest _ := none }

/-- A proposal that lists these paths under this field. -/
def proposalOf (name : String) (paths : List String) : Proposal := [(name, .arr (paths.map .str))]

/-- With a leading dot. -/
theorem dotSlash_refused :
    (evaluate bareSetting (goalPreservationLoadPolicy (.obj []))
      (proposalOf "mutation_paths" ["./client/runtime/systems/security/Guard.ts"])).allowed = false := by
  have hwritten := writtenPatterns_default (show texts? (.obj []) "blocked_mutation_paths" = none from rfl)
  have hlists : ListsAlias defaultPatterns
      (proposalOf "mutation_paths" ["./client/runtime/systems/security/Guard.ts"]) := by
    decide
  refine (aliasRefused_iff bareSetting hwritten _).1.mpr (fun _ => .inl ?_) hlists
  refine ⟨defaultPatterns[3], List.getElem_mem _, "./client/runtime/systems/security/Guard.ts", ?_,
    .plain ?_ rfl ⟨"client/runtime/systems/security/guard.ts".toList, ?_, ?_⟩⟩
  · decide
  · decide
  · decide
  · decide

/-- A doubled slash gets by, and so does a path under a field that is not consulted. -/
theorem doubledSlash_allowed :
    writtenPatterns (.obj []) = defaultPatterns.map BlockedPattern.text ∧
    (ListsAlias defaultPatterns
        (proposalOf "mutation_paths" ["client/runtime/systems//security/guard.ts"]) ∧
      (evaluate bareSetting (goalPreservationLoadPolicy (.obj []))
        (proposalOf "mutation_paths" ["client/runtime/systems//security/guard.ts"])).allowed = true) ∧
    (ListsAlias defaultPatterns (("mutation_paths", .arr []) :: proposalOf "files" ["SOUL.md"]) ∧
      (evaluate bareSetting (goalPreservationLoadPolicy (.obj []))
        (("mutation_paths", .arr []) :: proposalOf "files" ["SOUL.md"])).allowed = true) := by
  refine ⟨writtenPatterns_default rfl, ?_, ?_⟩
  · decide
  · decide

end Protheus.Security.GoalPreservation
