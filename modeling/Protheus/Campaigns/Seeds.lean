import Protheus.Campaigns.Priority
import Protheus.Lib.Seeding

/-!
The proposals that campaigns seed: `build-decomposition-plans`.

A plan goes through the types that the phases list, and seeds a proposal for each type
with too few that are open, unless the seed's key or its id is known.  The id is cut to a
short beginning of the key, so one phase's seed can block another's:
`seeding_starves_nobody_iff` says when each type is left with a proposal or a seed.
-/

namespace Protheus.Campaigns

open LaneUtils MapM Seeding
open TextCuts (Tidy bytes_map_toLower cleanText_tidy tidy_cleanText)

/-- What a plan gets from outside: how floats are printed, and the clock. -/
structure Host where
  printFloat : ℚ → String
  nowIso : String

/-! ## Tokens -/

/-- The characters of a token, of which some are out already. -/
def sanitizeChars : List Char → List Char → Bool → List Char
  | [], out, _ => out
  | ch :: rest, out, prevDash =>
    let lower := ch.toLower
    let (out, prevDash) :=
      if lower.isAlphanum then (out ++ [lower], false)
      else if !prevDash then (out ++ ['-'], true)
      else (out, prevDash)
    if 28 ≤ out.length then out else sanitizeChars rest out prevDash

/-- `str::trim_matches('-')`. -/
def trimDashes (l : List Char) : List Char :=
  ((l.dropWhile (· == '-')).reverse.dropWhile (· == '-')).reverse

def sanitizeToken (raw fallback : String) : String :=
  let trimmed := trimDashes (sanitizeChars raw.toList [] false)
  if trimmed = [] then fallback else String.ofList trimmed

/-- A type that a phase lists, with the objective a seed of it serves. -/
structure Slot where
  campaign : Campaign
  phase : Phase
  proposalType : String
  objectiveId : String
  deriving DecidableEq

/-- `campaign_seed_key`. -/
def campaignSeedKey (slot : Slot) : String :=
  sanitizeToken slot.campaign.id "campaign" ++ "|" ++ sanitizeToken slot.phase.id "phase" ++ "|" ++
    sanitizeToken slot.proposalType "proposal" ++ "|" ++
      sanitizeToken (if slot.objectiveId = "" then "objective" else slot.objectiveId) "objective"

/-- `campaign_seed_id`. -/
def campaignSeedId (seedKey : String) : String :=
  let dashed := String.ofList (seedKey.toList.map fun c => if c = '|' then '-' else c)
  let compact := (sanitizeToken dashed "seed").toList
  "CAMP-" ++ String.ofList ((compact.take (min compact.length 52)).map Char.toUpper)

/-! ## Proposals -/

/-- `proposal_status_lower`. -/
def proposalStatusLower (printFloat : ℚ → String) (proposal : Json) : Option String :=
  asLower printFloat ((proposal.get? "status").or (proposal.get? "state")) 80

def isTerminalProposalStatus (status : String) : Bool :=
  ["resolved", "done", "closed", "shipped", "no_change", "reverted", "rejected", "filtered",
    "superseded", "archived", "dropped"].contains status

def openType (printFloat : ℚ → String) (proposal : Json) : Option (Option String) := do
  let status ← proposalStatusLower printFloat proposal
  if isTerminalProposalStatus status then some none
  else
    let proposalType ← asLower printFloat (proposal.get? "type") 120
    some (if proposalType = "" then none else some proposalType)

/-- `open_proposal_type_counts`. -/
def openProposalTypeCounts (printFloat : ℚ → String) (proposals : List Json) :
    Option (String → ℕ) :=
  (proposals.mapM (openType printFloat)).map fun found kind => found.reduceOption.count kind

def seedKeyOf (printFloat : ℚ → String) (proposal : Json) : Option String :=
  asLower printFloat ((proposal.get? "meta").bind (·.get? "campaign_seed_key")) 240

/-- `existing_campaign_seed_keys`. -/
def existingCampaignSeedKeys (printFloat : ℚ → String) (proposals : List Json) :
    Option (Finset String) :=
  (proposals.mapM (seedKeyOf printFloat)).map fun keys => (keys.filter (· ≠ "")).toFinset

def existingIds (proposals : List Json) : Finset String :=
  (proposals.filterMap fun proposal => (proposal.get? "id").bind Json.asStr).toFinset

/-- What a plan knows of proposals. -/
def readStock (printFloat : ℚ → String) (proposals : List Json) :
    Option (Stock String String String) := do
  let keys ← existingCampaignSeedKeys printFloat proposals
  let counts ← openProposalTypeCounts printFloat proposals
  some { ids := existingIds proposals, keys, counts }

/-! ## Seeds -/

/-- What a plan is asked for. -/
structure Options where
  minOpenPerType : ℕ
  maxAdditions : ℕ
  defaultObjectiveId : String
  defaultRisk : String
  defaultImpact : String
  deriving DecidableEq

def readOptions (printFloat : ℚ → String) (opts : List (String × Json)) : Option Options := do
  let defaultObjectiveId ← cleanText printFloat (opts.lookup "default_objective_id") 160
  let risk ← asLower printFloat (opts.lookup "default_risk") 40
  let impact ← asLower printFloat (opts.lookup "default_impact") 40
  some
    { minOpenPerType :=
        (max (((asI64 (opts.lookup "min_open_per_type")).map Int64.toInt).getD 1) 1).toNat
      maxAdditions := (max (((asI64 (opts.lookup "max_additions")).map Int64.toInt).getD 0) 0).toNat
      defaultObjectiveId
      defaultRisk := orElse risk "low"
      defaultImpact := orElse impact "medium" }

/-- The objective of a phase's seeds. -/
def slotObjective (options : Options) (campaign : Campaign) (phase : Phase) : String :=
  orElse phase.objectiveId (orElse campaign.objectiveId options.defaultObjectiveId)

/-- The types that the phases of the campaigns list, in order. -/
def slotsOf (options : Options) (campaigns : List Campaign) : List Slot :=
  campaigns.flatMap fun campaign => campaign.phases.flatMap fun phase =>
    phase.proposalTypes.map fun proposalType =>
      { campaign, phase, proposalType, objectiveId := slotObjective options campaign phase }

def slotAsks (options : Options) : Asks Slot String String String where
  kind := Slot.proposalType
  key := campaignSeedKey
  idOf := campaignSeedId
  target := options.minOpenPerType

/-- The checks of a seed. -/
def verifyRows : Json :=
  .arr [.str "Route execution plan succeeds in dry-run",
    .str "Success criteria include measurable checks", .str "Rollback path remains available"]

/-- The objective of a seed, or `null`. -/
def objectiveJson (slot : Slot) : Json :=
  if slot.objectiveId = "" then .null else .str slot.objectiveId

/-- Where a seed comes from. -/
def additionMeta (host : Host) (slot : Slot) : Json :=
  Json.ofFields
    [("source_eye", .str "strategy_campaign"), ("campaign_generated", .bool true),
      ("campaign_id", .str slot.campaign.id),
      ("campaign_name", .str (orElse slot.campaign.name slot.campaign.id)),
      ("campaign_priority", .ofInt slot.campaign.priority.toInt),
      ("campaign_phase_id", .str slot.phase.id),
      ("campaign_phase_name", .str (orElse slot.phase.name slot.phase.id)),
      ("campaign_phase_order", .ofInt slot.phase.order.toInt),
      ("campaign_seed_key", .str (campaignSeedKey slot)),
      ("objective_id", objectiveJson slot), ("directive_objective_id", objectiveJson slot),
      ("generated_at", .str host.nowIso)]

/-- The proposal of a seed. -/
def addition (host : Host) (options : Options) (slot : Slot) : Json :=
  let campaignName := orElse slot.campaign.name slot.campaign.id
  let phaseName := orElse slot.phase.name slot.phase.id
  let objectiveClause := if slot.objectiveId = "" then "" else " objective " ++ slot.objectiveId
  let task := "Create one bounded, deterministic action for campaign \"" ++ campaignName ++
    "\" phase \"" ++ phaseName ++ "\" proposal type \"" ++ slot.proposalType ++ "\" aligned to" ++
    objectiveClause ++
    ". Use low-risk reversible steps with explicit verification and rollback."
  let command : Json := .str ("node systems/routing/route_execute.js --task=\"" ++ task ++
    "\" --tokens_est=650 --repeats_14d=1 --errors_30d=0 --dry-run")
  Json.ofFields
    [("id", .str (campaignSeedId (campaignSeedKey slot))), ("type", .str slot.proposalType),
      ("title", .str ("[Campaign] " ++ campaignName ++ " :: " ++ phaseName ++ " :: " ++
        slot.proposalType)),
      ("summary", .str ("Campaign decomposition seed for " ++ campaignName ++ "/" ++ phaseName ++
        " (" ++ slot.proposalType ++ ").")),
      ("expected_impact", .str options.defaultImpact), ("risk", .str options.defaultRisk),
      ("validation", verifyRows), ("suggested_next_command", command),
      ("action_spec", Json.ofFields
        [("version", .ofNat 1),
          ("objective", .str ("Generate concrete " ++ slot.proposalType ++ " action for campaign " ++
            campaignName ++ "/" ++ phaseName)),
          ("objective_id", objectiveJson slot), ("next_command", command), ("verify", verifyRows),
          ("rollback", .str "Drop generated campaign seed proposal if verification fails")]),
      ("meta", additionMeta host slot)]

def planJson (options : Options) (enabled : Bool) (campaignCount : ℕ) (additions : List Json) : Json :=
  Json.ofFields
    [("enabled", .bool enabled), ("additions", .arr additions),
      ("campaign_count", .ofNat campaignCount),
      ("min_open_per_type", .ofNat options.minOpenPerType),
      ("max_additions", .ofNat options.maxAdditions)]

/-- `build_campaign_decomposition_plans`. -/
def buildCampaignDecompositionPlans (host : Host) (proposals : List Json) (strategy : Json)
    (opts : List (String × Json)) : Option Json := do
  let campaigns ← normalizeCampaigns host.printFloat strategy
  let options ← readOptions host.printFloat opts
  if campaigns = [] ∨ options.maxAdditions = 0 then
    some (planJson options (decide (campaigns ≠ [])) campaigns.length [])
  else
    let stock ← readStock host.printFloat proposals
    let seeds := takenUpTo (slotAsks options) options.maxAdditions 0 stock (slotsOf options campaigns)
    some (planJson options true campaigns.length (seeds.map (addition host options)))

/-- The proposals of a plan. -/
def additionsOf (plan : Json) : List Json := asArray (plan.get? "additions")

/-! ## Characters -/

/-- A digit, a small letter, a dash or a bar. -/
def SeedChar (c : Char) : Prop :=
  (48 ≤ c.toNat ∧ c.toNat ≤ 57) ∨ (97 ≤ c.toNat ∧ c.toNat ≤ 122) ∨ c.toNat = 45 ∨ c.toNat = 124

instance (c : Char) : Decidable (SeedChar c) := inferInstanceAs (Decidable (_ ∨ _ ∨ _ ∨ _))

section SeedChar

variable {c : Char}

theorem seedChar_toLower (h : c.toLower.isAlphanum = true) : SeedChar c.toLower := by
  have hcase : (65 ≤ c.toLower.toNat ∧ c.toLower.toNat ≤ 90) ∨
      (97 ≤ c.toLower.toNat ∧ c.toLower.toNat ≤ 122) ∨
        (48 ≤ c.toLower.toNat ∧ c.toLower.toNat ≤ 57) := by
    simp only [Char.isAlphanum, Char.isAlpha, Char.isUpper, Char.isLower, Char.isDigit,
      Bool.or_eq_true, Bool.and_eq_true, decide_eq_true_eq, or_assoc] at h
    exact h
  obtain ⟨hlo, hhi⟩ | hcase := hcase
  · -- A capital letter would not be left in lower case.
    have hbig := congrArg Char.toNat (Char.toLower_toLower_eq_toLower c)
    have hmoved : c.toLower.toLower.toNat = c.toLower.toNat + 32 := by
      generalize c.toLower = d at hlo hhi
      unfold Char.toLower
      rw [dif_pos ⟨hlo, hhi⟩]
      change (d.val + 32).toNat = d.val.toNat + 32
      rw [UInt32.toNat_add]
      change (d.toNat + 32) % 2 ^ 32 = d.toNat + 32
      omega
    omega
  · rw [SeedChar]
    omega

theorem SeedChar.not_whitespace (h : SeedChar c) : RustStd.isWhitespace c = false := by
  rw [SeedChar] at h
  simp only [RustStd.isWhitespace, Bool.or_eq_false_iff, Bool.and_eq_false_iff,
    decide_eq_false_iff_not, beq_eq_false_iff_ne]
  omega

theorem SeedChar.toLower (h : SeedChar c) : c.toLower = c := by
  rw [SeedChar] at h
  unfold Char.toLower
  rw [dif_neg]
  rintro ⟨hlo, hhi⟩
  have hlo' : 65 ≤ c.toNat := hlo
  have hhi' : c.toNat ≤ 90 := hhi
  omega

theorem SeedChar.utf8Size (h : SeedChar c) : c.utf8Size = 1 := by
  have hle : c.val ≤ 0x7f := by
    rw [SeedChar] at h
    have hnat : c.val.toNat ≤ 127 := show c.toNat ≤ 127 by omega
    exact UInt32.le_iff_toNat_le.mpr hnat
  simp [Char.utf8Size, hle]

end SeedChar

/-! ## Tokens and keys -/

/-- A text of at most so many plain characters. -/
structure SeedText (size : ℕ) (l : List Char) : Prop where
  chars : ∀ c ∈ l, SeedChar c
  size : l.length ≤ size

theorem SeedText.append {m n : ℕ} {a b : List Char} (ha : SeedText m a) (hb : SeedText n b) :
    SeedText (m + n) (a ++ b) := by
  refine ⟨List.forall_mem_append.mpr ⟨ha.chars, hb.chars⟩, ?_⟩
  rw [List.length_append]
  exact Nat.add_le_add ha.size hb.size

theorem SeedText.push {out : List Char} {c : Char} (h : SeedText 27 out) (hc : SeedChar c) :
    SeedText 28 (out ++ [c]) :=
  h.append ⟨List.forall_mem_singleton.mpr hc, Nat.le_refl 1⟩

theorem seedText_sanitizeChars {l out : List Char} (h : SeedText 27 out) (prevDash : Bool) :
    SeedText 28 (sanitizeChars l out prevDash) := by
  induction l generalizing out prevDash with
  | nil => exact ⟨h.chars, h.size.trans (by omega)⟩
  | cons ch rest ih =>
    -- What is out after a character goes on where it is short.
    have hnext {next : List Char} (dash : Bool) (hnext : SeedText 28 next) :
        SeedText 28 (if 28 ≤ next.length then next else sanitizeChars rest next dash) := by
      split
      · exact hnext
      · exact ih ⟨hnext.chars, by omega⟩ dash
    rw [sanitizeChars]
    by_cases hkeep : ch.toLower.isAlphanum = true
    · simp only [hkeep, if_true]
      exact hnext false (h.push (seedChar_toLower hkeep))
    · by_cases hdash : prevDash = true
      · simp only [hkeep, hdash, Bool.not_true, Bool.false_eq_true, if_false]
        exact hnext true ⟨h.chars, h.size.trans (by omega)⟩
      · simp only [hkeep, hdash, Bool.not_false, Bool.false_eq_true, if_true, if_false]
        exact hnext true (h.push (by decide))

theorem trimDashes_sublist (l : List Char) : (trimDashes l).Sublist l := by
  have hreverse := ((l.dropWhile (· == '-')).reverse.dropWhile_sublist (· == '-')).reverse
  rw [List.reverse_reverse] at hreverse
  exact hreverse.trans (List.dropWhile_sublist _)

theorem seedText_sanitizeToken {fallback : String} (h : SeedText 28 fallback.toList) (raw : String) :
    SeedText 28 (sanitizeToken raw fallback).toList := by
  have hchars : SeedText 28 (sanitizeChars raw.toList [] false) :=
    seedText_sanitizeChars ⟨by simp, by simp⟩ false
  have hsub := trimDashes_sublist (sanitizeChars raw.toList [] false)
  rw [sanitizeToken]
  split
  · exact h
  · rw [String.toList_ofList]
    exact ⟨fun c hc => hchars.chars c (hsub.subset hc), hsub.length_le.trans hchars.size⟩

theorem seedText_campaignSeedKey (slot : Slot) : SeedText 240 (campaignSeedKey slot).toList := by
  have hcampaign : SeedText 28 "campaign".toList := ⟨by simp [SeedChar], by simp⟩
  have hphase : SeedText 28 "phase".toList := ⟨by simp [SeedChar], by simp⟩
  have hproposal : SeedText 28 "proposal".toList := ⟨by simp [SeedChar], by simp⟩
  have hobjective : SeedText 28 "objective".toList := ⟨by simp [SeedChar], by simp⟩
  have hbar : SeedText 1 "|".toList := ⟨by simp [SeedChar], by simp⟩
  rw [campaignSeedKey]
  simp only [String.toList_append]
  have hkey := (((((seedText_sanitizeToken hcampaign slot.campaign.id).append hbar).append
    (seedText_sanitizeToken hphase slot.phase.id)).append hbar).append
      (seedText_sanitizeToken hproposal slot.proposalType)).append hbar |>.append
        (seedText_sanitizeToken hobjective (if slot.objectiveId = "" then "objective" else slot.objectiveId))
  exact ⟨hkey.chars, hkey.size.trans (by omega)⟩

/-! ## Reading seeds back -/

section ReadBack

variable {printFloat : ℚ → String}

/-- A tidy text in lower case that ends in no blank is read as it is. -/
theorem asLower_tidy {l : List Char} {maxLen : ℕ} (h : Tidy l) (hbytes : bytes l ≤ maxLen)
    (hlower : ∀ c ∈ l, c.toLower = c) (hlast : ∀ c ∈ l.getLast?, RustStd.isWhitespace c = false) :
    asLower printFloat (some (.str (String.ofList l))) maxLen = some (String.ofList l) := by
  have hend : trimEnd l = l := by
    have happend := @trimEnd_append l [] hlast
    simpa [trimEnd] using happend
  have hmap : l.map Char.toLower = l := (List.map_congr_left hlower).trans (List.map_id l)
  rw [asLower, cleanText_tidy h hbytes, hend, Option.map_some, RustStd.toAsciiLowercase,
    String.toList_ofList, hmap]

theorem SeedText.bytes_le {n : ℕ} {l : List Char} (h : SeedText n l) : bytes l ≤ n := by
  have hones : l.map Char.utf8Size = l.map fun _ => 1 :=
    List.map_congr_left fun c hc => (h.chars c hc).utf8Size
  rw [bytes, hones, List.map_const', List.sum_replicate, smul_eq_mul, mul_one]
  exact h.size

theorem SeedText.asLower {n : ℕ} {s : String} (h : SeedText n s.toList) :
    asLower printFloat (some (.str s)) n = some s := by
  have hvisible : ∀ c ∈ s.toList, RustStd.isWhitespace c = false :=
    fun c hc => (h.chars c hc).not_whitespace
  have htidy : Tidy s.toList := by
    refine ⟨fun c hc => hvisible c (List.mem_of_mem_head? hc), Words.spaced_of_free hvisible, ?_⟩
    intro c hc hblank
    rw [hvisible c hc] at hblank
    cases hblank
  have hread := @asLower_tidy printFloat s.toList n htidy h.bytes_le
    (fun c hc => (h.chars c hc).toLower) fun c hc => hvisible c (List.mem_of_mem_getLast? hc)
  rwa [String.ofList_toList] at hread

/-- What was read is read again as it is, if it ends in no blank. -/
theorem asLower_again {value : Option Json} {maxLen : ℕ} {out : String}
    (h : asLower printFloat value maxLen = some out) (hlast : out.toList.getLast? ≠ some ' ') :
    asLower printFloat (some (.str out)) maxLen = some out := by
  obtain ⟨clean, hclean, rfl⟩ := Option.map_eq_some_iff.mp h
  obtain ⟨htidy, hbytes⟩ := tidy_cleanText hclean
  rw [RustStd.toAsciiLowercase, String.toList_ofList] at hlast
  have hlower : ∀ c ∈ clean.toList.map Char.toLower, c.toLower = c := by
    intro c hc
    obtain ⟨d, -, rfl⟩ := List.mem_map.mp hc
    exact Char.toLower_toLower_eq_toLower d
  refine asLower_tidy htidy.map_toLower ((bytes_map_toLower _).trans_le hbytes) hlower fun c hc => ?_
  refine Bool.eq_false_iff.mpr fun hblank => hlast ?_
  rw [hc, htidy.map_toLower.blanks c (List.mem_of_mem_getLast? hc) hblank]

theorem readActive_eq_some {α : Type} {row : Json}
    {read : List (String × Json) → Option (Option α)} {a : α}
    (h : readActive printFloat row read = some (some a)) : ∃ obj, read obj = some (some a) := by
  rw [readActive] at h
  cases hobj : row.asObject with
  | none =>
    rw [hobj] at h
    cases h
  | some obj =>
    rw [hobj] at h
    obtain ⟨status, -, h⟩ := Option.bind_eq_some_iff.mp h
    split at h
    · exact ⟨obj, h⟩
    · cases h

theorem readPhase_types {row : Json} {phase : Phase} {kind : String}
    (h : readPhase printFloat row = some (some phase)) (hkind : kind ∈ phase.proposalTypes) :
    kind ≠ "" ∧ ∃ value, asLower printFloat value 120 = some kind := by
  obtain ⟨obj, h⟩ := readActive_eq_some h
  obtain ⟨⟨id, name, objectiveId⟩, -, h⟩ := Option.bind_eq_some_iff.mp h
  obtain ⟨filters, hfilters, h⟩ := Option.bind_eq_some_iff.mp h
  obtain ⟨proposalTypes, htypes, hfilters⟩ := Option.bind_eq_some_iff.mp hfilters
  obtain ⟨sourceEyes, -, hfilters⟩ := Option.bind_eq_some_iff.mp hfilters
  obtain ⟨tags, -, hfilters⟩ := Option.bind_eq_some_iff.mp hfilters
  obtain rfl := Option.some.inj hfilters
  have hphase := Option.some.inj h
  rw [buildPhase] at hphase
  split at hphase
  · cases hphase
  · obtain rfl := Option.some.inj hphase
    obtain ⟨tokens, htokens, rfl⟩ := Option.map_eq_some_iff.mp htypes
    obtain ⟨hne, hmem⟩ := ((distinctTokens_spec tokens).2 kind).mp hkind
    obtain ⟨value, -, hvalue⟩ := (mem_of_mapM htokens).mp hmem
    exact ⟨hne, some value, hvalue⟩

theorem listed_type {strategy : Json} {campaigns : List Campaign} {options : Options} {slot : Slot}
    (h : normalizeCampaigns printFloat strategy = some campaigns)
    (hslot : slot ∈ slotsOf options campaigns) :
    slot.proposalType ≠ "" ∧ ∃ value, asLower printFloat value 120 = some slot.proposalType := by
  rw [slotsOf, List.mem_flatMap] at hslot
  obtain ⟨campaign, hcampaign, hslot⟩ := hslot
  obtain ⟨phase, hphase, hslot⟩ := List.mem_flatMap.mp hslot
  obtain ⟨kind, hkind, rfl⟩ := List.mem_map.mp hslot
  obtain ⟨row, -, hrow⟩ := (mem_readSorted h).mp hcampaign
  obtain ⟨obj, hrow⟩ := readActive_eq_some hrow
  obtain ⟨phases, hphases, hrow⟩ := Option.bind_eq_some_iff.mp hrow
  obtain ⟨⟨id, name, objectiveId⟩, -, hrow⟩ := Option.bind_eq_some_iff.mp hrow
  obtain ⟨filters, -, hrow⟩ := Option.bind_eq_some_iff.mp hrow
  have hbuilt := Option.some.inj hrow
  rw [buildCampaign] at hbuilt
  split at hbuilt
  · cases hbuilt
  · obtain rfl := Option.some.inj hbuilt
    obtain ⟨row, -, hrow⟩ := (mem_readSorted hphases).mp hphase
    exact readPhase_types hrow hkind

end ReadBack

/-! ## The list with the seeds -/

section Enlarged

variable {host : Host} {options : Options} {slot : Slot} {proposals : List Json}

@[simp] theorem addition_id :
    (addition host options slot).get? "id" = some (.str (campaignSeedId (campaignSeedKey slot))) := by
  rw [addition]
  exact Json.get?_ofFields_mem (by simp) (by simp)

@[simp] theorem addition_type :
    (addition host options slot).get? "type" = some (.str slot.proposalType) := by
  rw [addition]
  exact Json.get?_ofFields_mem (by simp) (by simp)

@[simp] theorem addition_status : (addition host options slot).get? "status" = none := by
  rw [addition]
  exact Json.get?_ofFields_of_notMem (by simp)

@[simp] theorem addition_state : (addition host options slot).get? "state" = none := by
  rw [addition]
  exact Json.get?_ofFields_of_notMem (by simp)

@[simp] theorem addition_key :
    ((addition host options slot).get? "meta").bind (·.get? "campaign_seed_key") =
      some (.str (campaignSeedKey slot)) := by
  have hmeta : (addition host options slot).get? "meta" = some (additionMeta host slot) := by
    rw [addition]
    exact Json.get?_ofFields_mem (by simp) (by simp)
  rw [hmeta, Option.bind_some, additionMeta]
  exact Json.get?_ofFields_mem (by simp) (by simp)

/-- What a type is read as that a phase lists. -/
def ReadsBack (printFloat : ℚ → String) (slot : Slot) : Prop :=
  slot.proposalType ≠ "" ∧
    asLower printFloat (some (.str slot.proposalType)) 120 = some slot.proposalType

theorem openType_addition (h : ReadsBack host.printFloat slot) :
    openType host.printFloat (addition host options slot) = some (some slot.proposalType) := by
  have hstatus : proposalStatusLower host.printFloat (addition host options slot) = some "" := by
    rw [proposalStatusLower, addition_status, addition_state]
    rfl
  rw [openType, hstatus, addition_type]
  simp only [Option.bind_eq_bind, Option.bind_some, h.2, if_neg h.1]
  rfl

theorem campaignSeedKey_ne (slot : Slot) : campaignSeedKey slot ≠ "" := by
  intro h
  have hlength := congrArg String.length h
  simp [campaignSeedKey] at hlength

theorem seedKeyOf_addition :
    seedKeyOf host.printFloat (addition host options slot) = some (campaignSeedKey slot) := by
  rw [seedKeyOf, addition_key]
  exact (seedText_campaignSeedKey slot).asLower

/-- A seed at the end of the list is one more that is known. -/
theorem readStock_append_addition {stock : Stock String String String}
    (h : readStock host.printFloat proposals = some stock) (hback : ReadsBack host.printFloat slot) :
    readStock host.printFloat (proposals ++ [addition host options slot]) =
      some (stock.put (slotAsks options) slot) := by
  obtain ⟨keys, hkeys, h⟩ := Option.bind_eq_some_iff.mp h
  obtain ⟨counts, hcounts, h⟩ := Option.bind_eq_some_iff.mp h
  obtain rfl := Option.some.inj h
  obtain ⟨found, hfound, rfl⟩ := Option.map_eq_some_iff.mp hkeys
  obtain ⟨types, htypes, rfl⟩ := Option.map_eq_some_iff.mp hcounts
  have hfound' := mapM_append hfound (mapM_singleton (@seedKeyOf_addition host options slot))
  have htypes' := mapM_append htypes (mapM_singleton (@openType_addition host options slot hback))
  rw [readStock, existingCampaignSeedKeys, openProposalTypeCounts, hfound', htypes']
  simp only [Option.map_some, Option.bind_eq_bind, Option.bind_some, Option.some.injEq]
  refine Stock.ext ?_ ?_ (funext fun kind => ?_)
  · rw [existingIds, List.filterMap_append, List.toFinset_append, Finset.union_comm,
      List.filterMap_cons, addition_id]
    rfl
  · rw [List.filter_append, List.toFinset_append, Finset.union_comm,
      List.filter_cons_of_pos (by simpa using campaignSeedKey_ne slot)]
    rfl
  · rw [List.reduceOption_append]
    simp only [Stock.put, slotAsks, Function.update_apply, List.count_append]
    by_cases hkind : kind = slot.proposalType
    · rw [if_pos hkind, hkind]
      simp [List.reduceOption]
    · rw [if_neg hkind, List.reduceOption_singleton, Option.toList_some, List.count_singleton,
        if_neg (by simpa using Ne.symm hkind), Nat.add_zero]

/-- **The list with seeds is read as a stock with them.** -/
theorem readStock_append {stock : Stock String String String} {seeds : List Slot}
    (h : readStock host.printFloat proposals = some stock)
    (hback : ∀ slot ∈ seeds, ReadsBack host.printFloat slot) :
    readStock host.printFloat (proposals ++ seeds.map (addition host options)) =
      some (stock.putAll (slotAsks options) seeds) := by
  induction seeds generalizing proposals stock with
  | nil => rwa [List.map_nil, List.append_nil]
  | cons slot seeds ih =>
    obtain ⟨hslot, hseeds⟩ := List.forall_mem_cons.mp hback
    rw [List.map_cons, List.append_cons]
    exact ih (readStock_append_addition h hslot) hseeds

end Enlarged

/-! ## Plans -/

section Plans

variable {host : Host} {options : Options} {proposals : List Json} {strategy plan : Json}
  {opts : List (String × Json)} {campaigns : List Campaign}

@[simp] theorem additionsOf_planJson (enabled : Bool) (count : ℕ) (additions : List Json) :
    additionsOf (planJson options enabled count additions) = additions := by
  rw [additionsOf, planJson, Json.get?_ofFields_mem (by simp)
    (List.mem_cons_of_mem _ List.mem_cons_self)]
  rfl

/-- A plan seeds what a run of the slots takes. -/
theorem plan_eq (hcampaigns : normalizeCampaigns host.printFloat strategy = some campaigns)
    (hoptions : readOptions host.printFloat opts = some options) (hne : campaigns ≠ [])
    (hmax : options.maxAdditions ≠ 0) :
    buildCampaignDecompositionPlans host proposals strategy opts =
      (readStock host.printFloat proposals).map fun stock =>
        planJson options true campaigns.length
          ((takenUpTo (slotAsks options) options.maxAdditions 0 stock
            (slotsOf options campaigns)).map (addition host options)) := by
  rw [buildCampaignDecompositionPlans, hcampaigns]
  simp only [Option.bind_eq_bind, Option.bind_some, hoptions]
  rw [if_neg (not_or.mpr ⟨hne, hmax⟩)]
  cases readStock host.printFloat proposals with
  | none => rfl
  | some stock => rfl

/-- Without campaigns nothing is seeded. -/
theorem plan_nil (hcampaigns : normalizeCampaigns host.printFloat strategy = some [])
    (hoptions : readOptions host.printFloat opts = some options) :
    buildCampaignDecompositionPlans host proposals strategy opts =
      some (planJson options false 0 []) := by
  rw [buildCampaignDecompositionPlans, hcampaigns]
  simp only [Option.bind_eq_bind, Option.bind_some, hoptions]
  simp

theorem target_pos (hoptions : readOptions host.printFloat opts = some options) :
    0 < (slotAsks options).target := by
  obtain ⟨objective, -, h⟩ := Option.bind_eq_some_iff.mp hoptions
  obtain ⟨risk, -, h⟩ := Option.bind_eq_some_iff.mp h
  obtain ⟨impact, -, h⟩ := Option.bind_eq_some_iff.mp h
  obtain rfl := Option.some.inj h
  simp only [slotAsks]
  omega

/-- What a plan is for: each listed type is left with an open proposal or its seed, what is added is
new and each once, no type is brought above the minimum, and planning again adds nothing. -/
structure Seeded (host : Host) (strategy : Json) (opts : List (String × Json)) (options : Options)
    (campaigns : List Campaign) (proposals additions : List Json) : Prop where
  covered : ∀ slot ∈ slotsOf options campaigns, ∃ stock,
    readStock host.printFloat (proposals ++ additions) = some stock ∧
      (0 < stock.counts slot.proposalType ∨ campaignSeedKey slot ∈ stock.keys)
  distinctIds : (additions.map (·.get? "id")).Nodup
  distinctKeys : (additions.map (seedKeyOf host.printFloat)).Nodup
  fresh : ∀ added ∈ additions, ∃ id key, added.get? "id" = some (.str id) ∧
    seedKeyOf host.printFloat added = some key ∧ id ∉ existingIds proposals ∧
      ∀ keys, existingCampaignSeedKeys host.printFloat proposals = some keys → key ∉ keys
  bounded : ∀ counts counts', openProposalTypeCounts host.printFloat proposals = some counts →
    openProposalTypeCounts host.printFloat (proposals ++ additions) = some counts' →
      ∀ kind, counts' kind ≤ max (counts kind) options.minOpenPerType
  settled : ∀ nowIso, ∃ plan, buildCampaignDecompositionPlans { host with nowIso }
    (proposals ++ additions) strategy opts = some plan ∧ additionsOf plan = []

/-- Where an id that another seed has left blocks the seed of a type that has no open proposal,
another seed of the type is added. -/
def RoomForEach (host : Host) (options : Options) (campaigns : List Campaign)
    (proposals : List Json) : Prop :=
  ∀ stock, readStock host.printFloat proposals = some stock →
    Unblocked (slotAsks options) stock (slotsOf options campaigns)

theorem map_id_additions (seeds : List Slot) :
    (seeds.map (addition host options)).map (·.get? "id") =
      (seeds.map fun slot => (slotAsks options).idOf ((slotAsks options).key slot)).map
        fun id => some (Json.str id) := by
  simp only [List.map_map, Function.comp_def, addition_id, slotAsks]

theorem map_key_additions (seeds : List Slot) :
    (seeds.map (addition host options)).map (seedKeyOf host.printFloat) =
      (seeds.map (slotAsks options).key).map some := by
  simp only [List.map_map, Function.comp_def, seedKeyOf_addition, slotAsks]

theorem ids_of_readStock {stock : Stock String String String}
    (hstock : readStock host.printFloat proposals = some stock) :
    stock.ids = existingIds proposals := by
  obtain ⟨keys, -, hrest⟩ := Option.bind_eq_some_iff.mp hstock
  obtain ⟨counts, -, hstock⟩ := Option.bind_eq_some_iff.mp hrest
  exact Option.some.inj hstock ▸ rfl

theorem counts_of_readStock {stock : Stock String String String} {counts : String → ℕ}
    (hstock : readStock host.printFloat proposals = some stock)
    (hcounts : openProposalTypeCounts host.printFloat proposals = some counts) :
    counts = stock.counts := by
  obtain ⟨keys, -, hrest⟩ := Option.bind_eq_some_iff.mp hstock
  obtain ⟨counts', hcounts', hstock⟩ := Option.bind_eq_some_iff.mp hrest
  rw [hcounts] at hcounts'
  obtain rfl := Option.some.inj hcounts'
  obtain rfl := Option.some.inj hstock
  rfl

theorem seeded_iff_of_stock {stock : Stock String String String} (hne : campaigns ≠ [])
    (hcampaigns : normalizeCampaigns host.printFloat strategy = some campaigns)
    (hoptions : readOptions host.printFloat opts = some options)
    (hmax : options.maxAdditions ≠ 0) (hstock : readStock host.printFloat proposals = some stock)
    (hback : ∀ slot ∈ taken (slotAsks options) stock (slotsOf options campaigns),
      ReadsBack host.printFloat slot) :
    Seeded host strategy opts options campaigns proposals
        ((taken (slotAsks options) stock (slotsOf options campaigns)).map (addition host options)) ↔
      Unblocked (slotAsks options) stock (slotsOf options campaigns) := by
  set asks := slotAsks options
  set slots := slotsOf options campaigns
  set seeds := taken asks stock slots
  have henlarged : readStock host.printFloat (proposals ++ seeds.map (addition host options)) =
      some (after asks stock slots) := readStock_append hstock hback
  rw [← covers_iff (target_pos hoptions)]
  obtain ⟨hkeys, hids, hnew⟩ := @taken_new _ _ _ _ _ _ _ asks stock slots
  constructor
  · intro h slot hslot
    obtain ⟨stock', hstock', hcovered⟩ := h.covered slot hslot
    rw [henlarged] at hstock'
    obtain rfl := Option.some.inj hstock'
    exact hcovered
  · intro h
    refine ⟨fun slot hslot => ⟨_, henlarged, h slot hslot⟩, ?_, ?_, ?_, ?_, ?_⟩
    · rw [map_id_additions]
      exact hids.map fun a b heq => Json.str.inj (Option.some.inj heq)
    · rw [map_key_additions]
      exact hkeys.map (Option.some_injective _)
    · intro added hadded
      obtain ⟨slot, hslot, rfl⟩ := List.mem_map.mp hadded
      obtain ⟨hkey, hid⟩ := hnew slot hslot
      obtain ⟨keys, hread, hrest⟩ := Option.bind_eq_some_iff.mp hstock
      obtain ⟨counts, -, hstock⟩ := Option.bind_eq_some_iff.mp hrest
      obtain rfl := Option.some.inj hstock
      refine ⟨campaignSeedId (campaignSeedKey slot), campaignSeedKey slot, addition_id,
        seedKeyOf_addition, hid, fun keys' hkeys' => ?_⟩
      rw [hread] at hkeys'
      exact Option.some.inj hkeys' ▸ hkey
    · intro counts counts' hcounts hcounts' kind
      have hbefore := counts_of_readStock hstock hcounts
      have hafter := counts_of_readStock henlarged hcounts'
      rw [hbefore, hafter]
      exact counts_after_le kind
    · intro nowIso
      have hagain := @plan_eq { host with nowIso } options (proposals ++ seeds.map (addition host options))
        _ _ _ hcampaigns hoptions hne hmax
      have hnone : takenUpTo asks options.maxAdditions 0 (after asks stock slots) slots <+:
          taken asks (after asks stock slots) slots := takenUpTo_initial _ 0
      rw [taken_after, List.prefix_nil] at hnone
      refine ⟨_, hagain.trans (by rw [henlarged]; rfl), ?_⟩
      rw [additionsOf_planJson, hnone, List.map_nil]

/-- **Campaign seeding starves nobody**, where no type that is seeded ends in a blank, exactly if there
is room for each. -/
theorem seeding_starves_nobody_iff
    (hcampaigns : normalizeCampaigns host.printFloat strategy = some campaigns)
    (hoptions : readOptions host.printFloat opts = some options)
    (hplan : buildCampaignDecompositionPlans host proposals strategy opts = some plan)
    (hlimit : (additionsOf plan).length < options.maxAdditions)
    (hblank : ∀ stock, readStock host.printFloat proposals = some stock →
      ∀ slot ∈ taken (slotAsks options) stock (slotsOf options campaigns),
        slot.proposalType.toList.getLast? ≠ some ' ') :
    Seeded host strategy opts options campaigns proposals (additionsOf plan) ↔
      RoomForEach host options campaigns proposals := by
  have hmax : options.maxAdditions ≠ 0 := Nat.ne_zero_of_lt hlimit
  by_cases hne : campaigns = []
  · subst hne
    rw [plan_nil hcampaigns hoptions] at hplan
    obtain rfl := Option.some.inj hplan
    rw [additionsOf_planJson]
    constructor
    · intro _ stock _ front slot back hslots
      exact absurd hslots (by simp [slotsOf])
    · intro _
      refine ⟨by simp [slotsOf], by simp, by simp, by simp, ?_, fun nowIso => ?_⟩
      · intro counts counts' hcounts hcounts' kind
        rw [List.append_nil, hcounts] at hcounts'
        exact Option.some.inj hcounts' ▸ le_max_left _ _
      · exact ⟨_, @plan_nil { host with nowIso } options _ _ _ hcampaigns hoptions,
          additionsOf_planJson _ _ _⟩
  · rw [plan_eq hcampaigns hoptions hne hmax] at hplan
    obtain ⟨stock, hstock, rfl⟩ := Option.map_eq_some_iff.mp hplan
    have hback : ∀ slot ∈ taken (slotAsks options) stock (slotsOf options campaigns),
        ReadsBack host.printFloat slot := by
      intro slot hslot
      obtain ⟨hne, value, hvalue⟩ := listed_type hcampaigns (taken_sublist.subset hslot)
      exact ⟨hne, asLower_again hvalue (hblank stock hstock slot hslot)⟩
    rw [additionsOf_planJson, List.length_map] at hlimit
    rw [additionsOf_planJson, takenUpTo_eq (by rwa [Nat.zero_add]),
      seeded_iff_of_stock hne hcampaigns hoptions hmax hstock hback]
    constructor
    · intro h stock' hstock'
      rw [hstock] at hstock'
      exact Option.some.inj hstock' ▸ h
    · intro h
      exact h stock hstock

end Plans

/-! ## Two types of one phase -/

/-- A strategy of one campaign, whose phase lists two types. -/
def twoTypes (id : String) : Json :=
  .obj [("campaigns", .arr [.obj [("id", .str id), ("phases", .arr [.obj [("id", .str "p"),
    ("proposal_types", .arr [.str "fix", .str "doc"]), ("status", .str "active")]]),
      ("status", .str "active")]])]

def fixedHost : Host := ⟨V8Kernel.pointed, "2026-01-01T00:00:00.000Z"⟩

def manySeeds : List (String × Json) := [("max_additions", .ofNat 5)]

def fixedOptions : Options := ⟨1, 5, "", "low", "medium"⟩

/-- The phase of `twoTypes`. -/
def twoTypesPhase : Phase :=
  { proposalTypes := ["fix", "doc"], sourceEyes := [], tags := [], id := "p", name := ""
    objectiveId := "", order := 99, priority := 0 }

/-- The campaign of `twoTypes`. -/
def twoTypesCampaign (id : String) : Campaign :=
  { proposalTypes := [], sourceEyes := [], tags := [], id, name := "", objectiveId := ""
    priority := 50, phases := [twoTypesPhase] }

def longId : String := "continuous-improvement-programme"

/-- The second type of the campaign with the long id. -/
def starvedSlot : Slot := ⟨twoTypesCampaign longId, twoTypesPhase, "doc", ""⟩

/-- The first type of it. -/
def seededSlot : Slot := ⟨twoTypesCampaign longId, twoTypesPhase, "fix", ""⟩

/-- Short ids leave room for both types. -/
theorem short_id_seeded : ∃ plan,
    buildCampaignDecompositionPlans fixedHost [] (twoTypes "a") manySeeds = some plan ∧
      Seeded fixedHost (twoTypes "a") manySeeds fixedOptions [twoTypesCampaign "a"] []
        (additionsOf plan) := by
  have hcampaigns : normalizeCampaigns fixedHost.printFloat (twoTypes "a") =
      some [twoTypesCampaign "a"] := by
    decide
  have hoptions : readOptions fixedHost.printFloat manySeeds = some fixedOptions := by
    decide
  have hsize : (buildCampaignDecompositionPlans fixedHost [] (twoTypes "a") manySeeds).map
      (fun plan => (additionsOf plan).length) = some 2 := by
    decide
  obtain ⟨plan, hplan, hlength⟩ := Option.map_eq_some_iff.mp hsize
  refine ⟨plan, hplan, (seeding_starves_nobody_iff hcampaigns hoptions hplan ?_ ?_).mpr ?_⟩
  · rw [hlength]
    decide
  · intro stock _ slot hslot
    have hlast : ∀ slot ∈ slotsOf fixedOptions [twoTypesCampaign "a"],
        slot.proposalType.toList.getLast? ≠ some ' ' := by
      decide
    exact hlast slot (taken_sublist.subset hslot)
  · intro stock hstock
    refine unblocked_of_injective (fun slot _ hid => ?_) ?_
    · rw [ids_of_readStock hstock] at hid
      cases hid
    · decide

theorem longId_campaigns : normalizeCampaigns fixedHost.printFloat (twoTypes longId) =
    some [twoTypesCampaign longId] := by
  decide

/-- Only the first type is taken. -/
theorem longId_taken : takenUpTo (slotAsks fixedOptions) fixedOptions.maxAdditions 0 ⟨∅, ∅, fun _ => 0⟩
    (slotsOf fixedOptions [twoTypesCampaign longId]) = [seededSlot] := by
  decide +kernel

/-- Twenty-eight characters of a campaign's id leave no room for the type: the second type has the id
of the first one's seed. -/
theorem long_id_starves : ¬∀ (host : Host) (options : Options) (proposals : List Json)
    (strategy plan : Json) (opts : List (String × Json)) (campaigns : List Campaign),
      normalizeCampaigns host.printFloat strategy = some campaigns → DistinctIds campaigns →
        readOptions host.printFloat opts = some options →
          buildCampaignDecompositionPlans host proposals strategy opts = some plan →
            (additionsOf plan).length < options.maxAdditions →
              Seeded host strategy opts options campaigns proposals (additionsOf plan) := by
  intro h
  have hdistinct : DistinctIds [twoTypesCampaign longId] := ⟨by decide, by decide⟩
  have hoptions : readOptions fixedHost.printFloat manySeeds = some fixedOptions := by
    decide
  have hslot : starvedSlot ∈ slotsOf fixedOptions [twoTypesCampaign longId] := by
    decide
  have hstock : readStock fixedHost.printFloat [] = some ⟨∅, ∅, fun _ => 0⟩ := rfl
  have hback : ∀ slot ∈ [seededSlot],
      ReadsBack fixedHost.printFloat slot := by
    rw [List.forall_mem_singleton]
    exact ⟨by decide, by decide⟩
  have hplan := @plan_eq fixedHost fixedOptions [] (twoTypes longId) manySeeds _ longId_campaigns
    hoptions (List.cons_ne_nil _ _) (by decide)
  rw [hstock, Option.map_some, longId_taken] at hplan
  have hseeded := h fixedHost fixedOptions [] (twoTypes longId) _ manySeeds _ longId_campaigns hdistinct
    hoptions hplan (by rw [additionsOf_planJson]; decide)
  obtain ⟨stock, hread, hcovered⟩ := hseeded.covered starvedSlot hslot
  rw [additionsOf_planJson, readStock_append hstock hback] at hread
  obtain rfl := Option.some.inj hread
  revert hcovered
  decide

end Protheus.Campaigns
