import Protheus.Campaigns.Normalize
import Protheus.V8Kernel

/-!
The campaign and phase that a candidate is matched with, and its priority.

`annotate-priority` scores each campaign and phase that lets a candidate through, and
attaches the first of the highest score.  Scores are summed in 64 bits and not clamped:
`annotation_settled_iff` says for which texts and numbers the annotation is one that the
order of the lists does not change.
-/

namespace Protheus.Campaigns

open LaneUtils MapM
open TextCuts (Answers Cut answers_some answers_cleanText answers_cleanText_bind answers_mapM)

variable {printFloat : ℚ → String}

/-! ## Candidates -/

/-- `Value::pointer` by names. -/
def pointer (value : Json) (path : List String) : Option Json :=
  path.foldl (fun found key => found.bind (·.get? key)) (some value)

/-- Where an objective may stand: the first text that is not blank counts. -/
def objectivePaths : List (List String) :=
  [["objective_binding", "objective_id"], ["directive_pulse", "objective_id"],
    ["proposal", "meta", "objective_id"], ["proposal", "meta", "directive_objective_id"],
    ["proposal", "action_spec", "objective_id"]]

def firstToken (printFloat : ℚ → String) : List (Option Json) → Option String
  | [] => some ""
  | value :: parts => do
    let token ← cleanText printFloat value 160
    if token ≠ "" then some token else firstToken printFloat parts

/-- `candidate_objective_id`. -/
def candidateObjectiveId (printFloat : ℚ → String) (candidate : Json) : Option String :=
  firstToken printFloat (objectivePaths.map (pointer candidate))

/-- `candidate_tag_set`. -/
def candidateTagSet (printFloat : ℚ → String) (candidate : Json) : Option (Finset String) := do
  let tags ← asStringArrayLower printFloat (pointer candidate ["proposal", "tags"])
  let metaTags ← asStringArrayLower printFloat (pointer candidate ["proposal", "meta", "tags"])
  some (tags.toFinset ∪ metaTags.toFinset)

/-- What a match reads of a candidate. -/
structure Facts where
  objectiveId : String
  proposalType : String
  sourceEye : String
  tags : Finset String
  deriving DecidableEq

def readFacts (printFloat : ℚ → String) (candidate : Json) : Option Facts := do
  let objectiveId ← candidateObjectiveId printFloat candidate
  let proposalType ← asLower printFloat (pointer candidate ["proposal", "type"]) 120
  let sourceEye ← asLower printFloat (pointer candidate ["proposal", "meta", "source_eye"]) 120
  let tags ← candidateTagSet printFloat candidate
  some { objectiveId, proposalType, sourceEye, tags }

/-! ## Filters -/

def hasAnyOverlap (required : List String) (values : Finset String) : Bool :=
  required.isEmpty || required.any fun row => decide (row ∈ values)

def isFilterMatch (required : List String) (value : String) : Bool :=
  required.isEmpty || required.any (· == value)

def isPhasePreferredFilterMatch (campaignRequired phaseRequired : List String)
    (value : String) : Bool :=
  if !phaseRequired.isEmpty then isFilterMatch phaseRequired value
  else isFilterMatch campaignRequired value

/-- The campaign and the phase let the candidate through. -/
def matchesFacts (campaign : Campaign) (phase : Phase) (facts : Facts) : Bool :=
  (campaign.objectiveId.isEmpty || facts.objectiveId == campaign.objectiveId) &&
    (phase.objectiveId.isEmpty || facts.objectiveId == phase.objectiveId) &&
    isPhasePreferredFilterMatch campaign.proposalTypes phase.proposalTypes facts.proposalType &&
    isFilterMatch campaign.sourceEyes facts.sourceEye &&
    isFilterMatch phase.sourceEyes facts.sourceEye &&
    hasAnyOverlap campaign.tags facts.tags && hasAnyOverlap phase.tags facts.tags

/-! ## Scores -/

/-- A number in 64 bits; `none` where it does not fit, which aborts a checked build. -/
def checked (z : ℤ) : Option ℤ := if -2 ^ 63 ≤ z ∧ z < 2 ^ 63 then some z else none

/-- `score += n` under a condition. -/
def addIf (cond : Bool) (n score : ℤ) : Option ℤ := if cond then checked (score + n) else some score

def tagOverlap (campaign : Campaign) (phase : Phase) (facts : Facts) : ℕ :=
  (facts.tags.filter fun tag => tag ∈ campaign.tags ∨ tag ∈ phase.tags).card

/-- What the tags add.  The overlap counts tags in memory, so four times it fits. -/
def tagBonus (campaign : Campaign) (phase : Phase) (facts : Facts) : ℤ :=
  min ((tagOverlap campaign phase facts : ℤ) * 4) 20

def clampedScore (campaign : Campaign) (phase : Phase) : Option ℤ := do
  let early ← checked (120 - campaign.priority.toInt)
  let score ← checked (0 + max early 0)
  let steps ← checked (phase.order.toInt * 5)
  let left ← checked (80 - steps)
  checked (score + max left 0)

def matchScore (campaign : Campaign) (phase : Phase) (facts : Facts) : Option ℤ := do
  let score ← clampedScore campaign phase
  let score ← checked (score + phase.priority.toInt)
  let score ← addIf (!campaign.objectiveId.isEmpty && !facts.objectiveId.isEmpty) 35 score
  let score ← addIf (!phase.objectiveId.isEmpty && !facts.objectiveId.isEmpty) 20 score
  let score ← addIf (!campaign.proposalTypes.isEmpty) 18 score
  let score ← addIf (!phase.proposalTypes.isEmpty) 14 score
  let score ← addIf (!campaign.sourceEyes.isEmpty || !phase.sourceEyes.isEmpty) 10 score
  checked (score + tagBonus campaign phase facts)

/-- A match, as it is attached to a candidate. -/
structure Match where
  score : ℤ
  campaignId : String
  campaignName : String
  campaignPriority : Int64
  phaseId : String
  phaseName : String
  phaseOrder : Int64
  phasePriority : Int64
  objectiveId : String
  deriving DecidableEq

/-- A text, or what stands for an empty one. -/
def orElse (text fallback : String) : String := if text = "" then fallback else text

def buildMatch (campaign : Campaign) (phase : Phase) (facts : Facts) (score : ℤ) : Match where
  score
  campaignId := campaign.id
  campaignName := orElse campaign.name campaign.id
  campaignPriority := campaign.priority
  phaseId := phase.id
  phaseName := orElse phase.name phase.id
  phaseOrder := phase.order
  phasePriority := phase.priority
  objectiveId := orElse facts.objectiveId (orElse campaign.objectiveId phase.objectiveId)

def Match.toJson (found : Match) : Json :=
  Json.ofFields
    [("matched", .bool true), ("score", .ofInt found.score),
      ("campaign_id", .str found.campaignId), ("campaign_name", .str found.campaignName),
      ("campaign_priority", .ofInt found.campaignPriority.toInt),
      ("phase_id", .str found.phaseId), ("phase_name", .str found.phaseName),
      ("phase_order", .ofInt found.phaseOrder.toInt),
      ("phase_priority", .ofInt found.phasePriority.toInt),
      ("objective_id", .str found.objectiveId)]

/-- `score_match`. -/
def scoreMatch (campaign : Campaign) (phase : Phase) (facts : Facts) : Option (Option Match) :=
  if matchesFacts campaign phase facts then
    (matchScore campaign phase facts).map fun score => some (buildMatch campaign phase facts score)
  else some none

/-- The next match, where its score is above that of the best so far. -/
def better (best next : Option Match) : Option Match :=
  match next, best with
  | none, _ => best
  | some next, none => some next
  | some next, some best => if best.score < next.score then some next else some best

/-- The campaigns with each of their phases. -/
def pairs (campaigns : List Campaign) : List (Campaign × Phase) :=
  campaigns.flatMap fun campaign => campaign.phases.map fun phase => (campaign, phase)

/-- `best_campaign_match`, which reads the candidate for each campaign and phase. -/
def bestCampaignMatch (printFloat : ℚ → String) (candidate : Json) (campaigns : List Campaign) :
    Option (Option Match) :=
  (pairs campaigns).foldlM (fun best pair => do
    let facts ← readFacts printFloat candidate
    (scoreMatch pair.1 pair.2 facts).map (better best)) none

/-! ## Annotations -/

/-- A candidate with its match. -/
def annotated (candidate : Json) (found : Option Match) : Json :=
  .obj (Json.insertFields
    [("campaign_match", (found.map Match.toJson).getD .null),
      ("campaign_sort_bucket", .ofInt (if found.isSome then 1 else 0)),
      ("campaign_sort_score", .ofInt ((found.map Match.score).getD 0))]
    (candidate.asObject.getD []))

def matchedByCampaign (found : List Match) : Json :=
  Json.ofFields (found.map fun m =>
    (m.campaignId, .ofNat (found.countP fun other => other.campaignId == m.campaignId)))

/-- `annotate_campaign_priority`. -/
def annotateCampaignPriority (printFloat : ℚ → String) (candidates : List Json)
    (strategy : Json) : Option Json := do
  let campaigns ← normalizeCampaigns printFloat strategy
  if campaigns = [] then
    some (Json.ofFields
      [("summary", Json.ofFields [("enabled", .bool false), ("campaign_count", .ofNat 0),
          ("matched_count", .ofNat 0)]),
        ("candidates", .arr (candidates.map fun candidate => annotated candidate none))])
  else
    let found ← candidates.mapM fun candidate => bestCampaignMatch printFloat candidate campaigns
    let matched := found.reduceOption
    some (Json.ofFields
      [("summary", Json.ofFields [("enabled", .bool true), ("campaign_count", .ofNat campaigns.length),
          ("matched_count", .ofNat matched.length),
          ("unmatched_count", .ofNat (candidates.length - matched.length)),
          ("matched_by_campaign", matchedByCampaign matched)]),
        ("candidates", .arr (candidates.zipWith annotated found))])

/-! ## The score without bounds -/

def clampedTerms (campaign : Campaign) (phase : Phase) : ℤ :=
  max (120 - campaign.priority.toInt) 0 + max (80 - phase.order.toInt * 5) 0

def filterBonus (campaign : Campaign) (phase : Phase) (facts : Facts) : ℤ :=
  (if !campaign.objectiveId.isEmpty && !facts.objectiveId.isEmpty then 35 else 0) +
    (if !phase.objectiveId.isEmpty && !facts.objectiveId.isEmpty then 20 else 0) +
    (if !campaign.proposalTypes.isEmpty then 18 else 0) +
    (if !phase.proposalTypes.isEmpty then 14 else 0) +
    (if !campaign.sourceEyes.isEmpty || !phase.sourceEyes.isEmpty then 10 else 0) +
    tagBonus campaign phase facts

def idealScore (campaign : Campaign) (phase : Phase) (facts : Facts) : ℤ :=
  clampedTerms campaign phase + phase.priority.toInt + filterBonus campaign phase facts

/-- The numbers of a match whose score fits into 64 bits. -/
def ScoreFits (campaign : Campaign) (phase : Phase) (facts : Facts) : Prop :=
  phase.order.toInt * 5 < 2 ^ 63 ∧ clampedTerms campaign phase < 2 ^ 63 ∧
    idealScore campaign phase facts < 2 ^ 63

instance (campaign : Campaign) (phase : Phase) (facts : Facts) :
    Decidable (ScoreFits campaign phase facts) :=
  inferInstanceAs (Decidable (_ ∧ _ ∧ _))

theorem checked_of_bounds {z : ℤ} (hlow : -2 ^ 63 ≤ z) :
    checked z = if z < 2 ^ 63 then some z else none := by
  rw [checked]
  exact if_congr (and_iff_right hlow) rfl rfl

/-- Adding on does not bring a sum back into bounds. -/
theorem checked_bind_addIf {z n : ℤ} (hlow : -2 ^ 63 ≤ z) (hn : 0 ≤ n) (cond : Bool) :
    (checked z).bind (addIf cond n) = checked (z + if cond then n else 0) ∧
      -2 ^ 63 ≤ z + if cond then n else 0 := by
  cases cond with
  | false =>
    rw [if_neg Bool.false_ne_true, add_zero]
    exact ⟨by cases checked z <;> rfl, hlow⟩
  | true =>
    rw [if_pos rfl, checked_of_bounds hlow, checked_of_bounds (by omega)]
    refine ⟨?_, by omega⟩
    by_cases hz : z < 2 ^ 63
    · rw [if_pos hz, Option.bind_some, addIf, if_pos rfl, checked_of_bounds (by omega)]
    · rw [if_neg hz, if_neg (by omega)]
      rfl

theorem clampedScore_eq (campaign : Campaign) (phase : Phase) :
    clampedScore campaign phase =
      if phase.order.toInt * 5 < 2 ^ 63 ∧ clampedTerms campaign phase < 2 ^ 63 then
        some (clampedTerms campaign phase) else none := by
  have hpriority := campaign.priority.toInt_lt
  have horder := phase.order.le_toInt
  simp only [clampedScore, Option.bind_eq_bind]
  rw [checked_of_bounds (by omega)]
  by_cases hearly : 120 - campaign.priority.toInt < 2 ^ 63
  · rw [if_pos hearly, Option.bind_some, zero_add, checked_of_bounds (by omega),
      if_pos (by omega), Option.bind_some]
    by_cases hsteps : -2 ^ 63 ≤ phase.order.toInt * 5 ∧ phase.order.toInt * 5 < 2 ^ 63
    · rw [checked, if_pos hsteps, Option.bind_some, checked_of_bounds (by omega)]
      by_cases hleft : 80 - phase.order.toInt * 5 < 2 ^ 63
      · rw [if_pos hleft, Option.bind_some, checked_of_bounds (by omega)]
        exact if_congr (and_iff_right hsteps.2).symm rfl rfl
      · rw [if_neg hleft, if_neg (by rw [clampedTerms]; omega)]
        rfl
    · rw [checked, if_neg hsteps, if_neg (by rw [clampedTerms]; omega)]
      rfl
  · rw [if_neg hearly, if_neg (by rw [clampedTerms]; omega)]
    rfl

/-- The score of a match is the ideal one where it fits, and there is none elsewhere. -/
theorem matchScore_eq (campaign : Campaign) (phase : Phase) (facts : Facts) :
    matchScore campaign phase facts =
      if ScoreFits campaign phase facts then some (idealScore campaign phase facts) else none := by
  have hpriority := phase.priority.le_toInt
  have hclamped : 0 ≤ clampedTerms campaign phase := by
    rw [clampedTerms]
    omega
  by_cases hfits : phase.order.toInt * 5 < 2 ^ 63 ∧ clampedTerms campaign phase < 2 ^ 63
  · have hlow : -2 ^ 63 ≤ clampedTerms campaign phase + phase.priority.toInt := by omega
    obtain ⟨hone, hlow⟩ := checked_bind_addIf hlow (show (0 : ℤ) ≤ 35 by omega)
      (!campaign.objectiveId.isEmpty && !facts.objectiveId.isEmpty)
    obtain ⟨htwo, hlow⟩ := checked_bind_addIf hlow (show (0 : ℤ) ≤ 20 by omega)
      (!phase.objectiveId.isEmpty && !facts.objectiveId.isEmpty)
    obtain ⟨hthree, hlow⟩ := checked_bind_addIf hlow (show (0 : ℤ) ≤ 18 by omega)
      (!campaign.proposalTypes.isEmpty)
    obtain ⟨hfour, hlow⟩ := checked_bind_addIf hlow (show (0 : ℤ) ≤ 14 by omega)
      (!phase.proposalTypes.isEmpty)
    obtain ⟨hfive, hlow⟩ := checked_bind_addIf hlow (show (0 : ℤ) ≤ 10 by omega)
      (!campaign.sourceEyes.isEmpty || !phase.sourceEyes.isEmpty)
    have htags : 0 ≤ tagBonus campaign phase facts := by
      rw [tagBonus]
      omega
    obtain ⟨hsix, hlow⟩ := checked_bind_addIf hlow htags true
    have hsum (score : ℤ) : checked (score + tagBonus campaign phase facts) =
        addIf true (tagBonus campaign phase facts) score := rfl
    simp only [matchScore, clampedScore_eq, if_pos hfits, Option.bind_eq_bind, Option.bind_some,
      hsum, ← Option.bind_assoc]
    rw [hone, htwo, hthree, hfour, hfive, hsix, checked_of_bounds hlow]
    have hideal {total : ℤ} (h : total = idealScore campaign phase facts) :
        (if total < 2 ^ 63 then some total else none) =
          if ScoreFits campaign phase facts then some (idealScore campaign phase facts)
          else none := by
      rw [h]
      exact if_congr ⟨fun hlt => ⟨hfits.1, hfits.2, hlt⟩, fun h => h.2.2⟩ rfl rfl
    refine hideal ?_
    simp only [idealScore, filterBonus, ← add_assoc, if_true]
  · rw [matchScore, clampedScore_eq, if_neg hfits, if_neg fun h => hfits ⟨h.1, h.2.1⟩]
    rfl

/-! ## The best match -/

/-- The match of a campaign and a phase, with its ideal score. -/
def idealMatch (facts : Facts) (pair : Campaign × Phase) : Option Match :=
  if matchesFacts pair.1 pair.2 facts then
    some (buildMatch pair.1 pair.2 facts (idealScore pair.1 pair.2 facts))
  else none

def ScoresFit (facts : Facts) (campaigns : List Campaign) : Prop :=
  ∀ pair ∈ pairs campaigns, matchesFacts pair.1 pair.2 facts = true →
    ScoreFits pair.1 pair.2 facts

theorem scoreMatch_eq (campaign : Campaign) (phase : Phase) (facts : Facts) :
    scoreMatch campaign phase facts =
      if matchesFacts campaign phase facts = true → ScoreFits campaign phase facts then
        some (idealMatch facts (campaign, phase)) else none := by
  rw [scoreMatch, matchScore_eq, idealMatch]
  by_cases hmatches : matchesFacts campaign phase facts = true
  · by_cases hfits : ScoreFits campaign phase facts <;> simp [hmatches, hfits]
  · simp [hmatches]

theorem better_spec (best next : Option Match) :
    (better best next = best ∨ better best next = next) ∧
      (∀ found ∈ best, ∃ out ∈ better best next, found.score ≤ out.score) ∧
        ∀ found ∈ next, ∃ out ∈ better best next, found.score ≤ out.score := by
  cases next with
  | none => exact ⟨.inl rfl, fun found h => ⟨found, h, le_rfl⟩, by simp⟩
  | some next =>
    cases best with
    | none => exact ⟨.inr rfl, by simp, fun found h => ⟨found, h, le_rfl⟩⟩
    | some best =>
      rw [better]
      by_cases hlt : best.score < next.score
      · rw [if_pos hlt]
        simp [hlt.le]
      · rw [if_neg hlt]
        simp [not_lt.mp hlt]

/-- What is kept of matches in turn is one of them, with a score no other is above. -/
theorem foldl_better_spec (all : List (Option Match)) (best : Option Match) :
    (all.foldl better best ∈ best :: all) ∧
      ∀ option ∈ best :: all, ∀ found ∈ option,
        ∃ out ∈ all.foldl better best, found.score ≤ out.score := by
  induction all generalizing best with
  | nil =>
    refine ⟨List.mem_cons_self, fun option hoption found hfound => ?_⟩
    obtain rfl := List.mem_singleton.mp hoption
    exact ⟨found, hfound, le_rfl⟩
  | cons next all ih =>
    obtain ⟨hmem, hmax⟩ := ih (better best next)
    obtain ⟨hone, hbest, hnext⟩ := better_spec best next
    rw [List.foldl_cons]
    constructor
    · cases List.mem_cons.mp hmem with
      | inl heq =>
        rw [heq]
        obtain hbest | hnext := hone
        · rw [hbest]
          exact List.mem_cons_self
        · rw [hnext]
          exact List.mem_cons_of_mem _ List.mem_cons_self
      | inr hrest => exact List.mem_cons_of_mem _ (List.mem_cons_of_mem _ hrest)
    · have hraise {found out : Match} (hout : out ∈ better best next)
          (hle : found.score ≤ out.score) :
          ∃ last ∈ all.foldl better (better best next), found.score ≤ last.score := by
        obtain ⟨last, hlast, hle'⟩ := hmax _ List.mem_cons_self out hout
        exact ⟨last, hlast, hle.trans hle'⟩
      intro option hoption found hfound
      rw [List.mem_cons, List.mem_cons] at hoption
      obtain rfl | rfl | hrest := hoption
      · obtain ⟨out, hout, hle⟩ := hbest found hfound
        exact hraise hout hle
      · obtain ⟨out, hout, hle⟩ := hnext found hfound
        exact hraise hout hle
      · exact hmax option (List.mem_cons_of_mem _ hrest) found hfound

/-- The best match of a candidate that has been read. -/
def idealBest (facts : Facts) (campaigns : List Campaign) : Option Match :=
  ((pairs campaigns).map (idealMatch facts)).foldl better none

theorem foldlM_better (facts : Facts) (all : List (Campaign × Phase)) (best : Option Match) :
    all.foldlM (fun best pair => (scoreMatch pair.1 pair.2 facts).map (better best)) best =
        if ∀ pair ∈ all, matchesFacts pair.1 pair.2 facts = true →
            ScoreFits pair.1 pair.2 facts then
          some ((all.map (idealMatch facts)).foldl better best) else none := by
  induction all generalizing best with
  | nil => simp
  | cons pair all ih =>
    rw [List.foldlM_cons, scoreMatch_eq]
    by_cases hpair : matchesFacts pair.1 pair.2 facts = true → ScoreFits pair.1 pair.2 facts
    · rw [if_pos hpair, Option.map_some, Option.bind_eq_bind, Option.bind_some, ih,
        List.map_cons, List.foldl_cons]
      refine if_congr ?_ rfl rfl
      rw [List.forall_mem_cons]
      exact (and_iff_right hpair).symm
    · rw [if_neg hpair, if_neg fun h => hpair (h pair List.mem_cons_self)]
      rfl

/-- The scan answers where the candidate is read and every score fits, with the best match. -/
theorem bestCampaignMatch_eq_some_iff {candidate : Json} {campaigns : List Campaign}
    {best : Option Match} (hne : pairs campaigns ≠ []) :
    bestCampaignMatch printFloat candidate campaigns = some best ↔
      ∃ facts, readFacts printFloat candidate = some facts ∧ ScoresFit facts campaigns ∧
        best = idealBest facts campaigns := by
  rw [bestCampaignMatch]
  cases hread : readFacts printFloat candidate with
  | none =>
    obtain ⟨pair, rest, hpairs⟩ := List.exists_cons_of_ne_nil hne
    rw [hpairs, List.foldlM_cons]
    simp
  | some facts =>
    simp only [Option.bind_eq_bind, Option.bind_some]
    rw [foldlM_better]
    simp only [ScoresFit, idealBest, Option.some.injEq, exists_eq_left']
    constructor
    · intro h
      split at h
      · rename_i hfits
        exact ⟨hfits, (Option.some.inj h).symm⟩
      · cases h
    · rintro ⟨hfits, rfl⟩
      exact if_pos hfits

/-! ## What the order of the filters does not show in -/

section Core

variable (campaign : Campaign) (phase : Phase) (facts : Facts)

theorem isEmpty_sorted (tokens : List String) :
    (tokens.insertionSort (· ≤ ·)).isEmpty = tokens.isEmpty :=
  (List.perm_insertionSort _ tokens).isEmpty_eq

theorem isFilterMatch_sorted (required : List String) (value : String) :
    isFilterMatch (required.insertionSort (· ≤ ·)) value = isFilterMatch required value := by
  rw [isFilterMatch, isFilterMatch, isEmpty_sorted, (List.perm_insertionSort _ required).any_eq]

theorem hasAnyOverlap_sorted (required : List String) (values : Finset String) :
    hasAnyOverlap (required.insertionSort (· ≤ ·)) values = hasAnyOverlap required values := by
  rw [hasAnyOverlap, hasAnyOverlap, isEmpty_sorted, (List.perm_insertionSort _ required).any_eq]

theorem matchesFacts_core :
    matchesFacts campaign.core phase.core facts = matchesFacts campaign phase facts := by
  simp only [matchesFacts, isPhasePreferredFilterMatch, Campaign.core, Phase.core, Filters.core,
    isFilterMatch_sorted, hasAnyOverlap_sorted, isEmpty_sorted]

theorem tagOverlap_core :
    tagOverlap campaign.core phase.core facts = tagOverlap campaign phase facts := by
  refine congrArg Finset.card (Finset.filter_congr fun tag _ => ?_)
  simp only [Campaign.core, Phase.core, Filters.core, List.mem_insertionSort]

theorem idealScore_core :
    idealScore campaign.core phase.core facts = idealScore campaign phase facts := by
  have htypes : campaign.core.proposalTypes.isEmpty = campaign.proposalTypes.isEmpty :=
    isEmpty_sorted _
  have hphaseTypes : phase.core.proposalTypes.isEmpty = phase.proposalTypes.isEmpty :=
    isEmpty_sorted _
  have heyes : campaign.core.sourceEyes.isEmpty = campaign.sourceEyes.isEmpty := isEmpty_sorted _
  have hphaseEyes : phase.core.sourceEyes.isEmpty = phase.sourceEyes.isEmpty := isEmpty_sorted _
  rw [idealScore, idealScore, filterBonus, filterBonus, tagBonus, tagBonus, tagOverlap_core, htypes,
    hphaseTypes, heyes, hphaseEyes]
  rfl

theorem scoreFits_core :
    ScoreFits campaign.core phase.core facts ↔ ScoreFits campaign phase facts := by
  rw [ScoreFits, ScoreFits, idealScore_core]
  exact Iff.rfl

theorem idealMatch_core :
    idealMatch facts (campaign.core, phase.core) = idealMatch facts (campaign, phase) := by
  rw [idealMatch, idealMatch, matchesFacts_core, idealScore_core]
  rfl

end Core

section Congr

variable {facts : Facts} {campaigns campaigns' : List Campaign}

theorem pairs_core (campaigns : List Campaign) : pairs (campaigns.map Campaign.core) =
    (pairs campaigns).map fun pair => (pair.1.core, pair.2.core) := by
  rw [pairs, pairs, List.flatMap_map, List.map_flatMap]
  refine List.flatMap_congr fun campaign _ => ?_
  rw [Campaign.core, List.map_map, List.map_map]
  rfl

theorem idealBest_core : idealBest facts (campaigns.map Campaign.core) = idealBest facts campaigns := by
  rw [idealBest, idealBest, pairs_core, List.map_map]
  refine congrArg (List.foldl better none) (List.map_congr_left fun pair _ => ?_)
  exact idealMatch_core pair.1 pair.2 facts

theorem scoresFit_core : ScoresFit facts (campaigns.map Campaign.core) ↔ ScoresFit facts campaigns := by
  rw [ScoresFit, ScoresFit, pairs_core, List.forall_mem_map]
  simp only [matchesFacts_core, scoreFits_core]

/-- Campaigns that differ in the order of their filters give the same matches. -/
theorem bestCampaignMatch_congr {candidate candidate' : Json} {best : Option Match}
    (hcore : campaigns.map Campaign.core = campaigns'.map Campaign.core)
    (hne : pairs campaigns ≠ [])
    (hfacts : readFacts printFloat candidate' = readFacts printFloat candidate)
    (h : bestCampaignMatch printFloat candidate campaigns = some best) :
    bestCampaignMatch printFloat candidate' campaigns' = some best := by
  have hne' : pairs campaigns' ≠ [] := by
    have hpairs := congrArg pairs hcore
    rw [pairs_core, pairs_core] at hpairs
    intro hnil
    rw [hnil, List.map_nil, List.map_eq_nil_iff] at hpairs
    exact hne hpairs
  obtain ⟨facts, hread, hfit, rfl⟩ := (bestCampaignMatch_eq_some_iff hne).mp h
  refine (bestCampaignMatch_eq_some_iff hne').mpr ⟨facts, hfacts.trans hread, ?_, ?_⟩
  · rwa [← scoresFit_core, ← hcore, scoresFit_core]
  · rw [← idealBest_core, hcore, idealBest_core]

end Congr

/-- A candidate with its tags in another order. -/
def CandidateRearranged (candidate candidate' : Json) : Prop :=
  (∀ path ∈ objectivePaths ++ [["proposal", "type"], ["proposal", "meta", "source_eye"]],
    pointer candidate' path = pointer candidate path) ∧
    ∀ path ∈ [["proposal", "tags"], ["proposal", "meta", "tags"]],
      SameList (pointer candidate path) (pointer candidate' path)

theorem tokenSet_congr {value value' : Option Json} (h : SameList value value') :
    (asStringArrayLower printFloat value).map List.toFinset =
      (asStringArrayLower printFloat value').map List.toFinset := by
  have hsorted (value : Option Json) : (asStringArrayLower printFloat value).map List.toFinset =
      ((asStringArrayLower printFloat value).map (List.insertionSort (· ≤ ·))).map
        List.toFinset := by
    rw [Option.map_map]
    exact congrArg (fun f => Option.map f _) (funext fun tokens =>
      (List.toFinset_eq_of_perm _ _ (List.perm_insertionSort _ tokens)).symm)
  rw [hsorted value, hsorted value', asStringArrayLower_congr h]

theorem readFacts_congr {candidate candidate' : Json} (h : CandidateRearranged candidate candidate') :
    readFacts printFloat candidate' = readFacts printFloat candidate := by
  obtain ⟨hkept, hlists⟩ := h
  have hobjective : candidateObjectiveId printFloat candidate' =
      candidateObjectiveId printFloat candidate := by
    rw [candidateObjectiveId, candidateObjectiveId]
    exact congrArg _ (List.map_congr_left fun path hpath => hkept path (List.mem_append_left _ hpath))
  have htags : candidateTagSet printFloat candidate' = candidateTagSet printFloat candidate := by
    have hset (candidate : Json) : candidateTagSet printFloat candidate = (do
        let tags ← (asStringArrayLower printFloat (pointer candidate ["proposal", "tags"])).map
          List.toFinset
        let metaTags ← (asStringArrayLower printFloat
          (pointer candidate ["proposal", "meta", "tags"])).map List.toFinset
        some (tags ∪ metaTags)) := by
      rw [candidateTagSet]
      cases asStringArrayLower printFloat (pointer candidate ["proposal", "tags"]) with
      | none => rfl
      | some tags =>
        cases asStringArrayLower printFloat (pointer candidate ["proposal", "meta", "tags"]) <;> rfl
    rw [hset, hset, tokenSet_congr (hlists _ List.mem_cons_self),
      tokenSet_congr (hlists _ (List.mem_cons_of_mem _ List.mem_cons_self))]
  rw [readFacts, readFacts, hobjective, htags, hkept ["proposal", "type"] (by simp),
    hkept ["proposal", "meta", "source_eye"] (by simp)]

/-! ## What is cut -/

/-- The texts of an objective that are cleaned: those up to the first that is not blank. -/
def firstTokenCuts (printFloat : ℚ → String) : List (Option Json) → List Cut
  | [] => []
  | value :: parts =>
    ⟨value, 160⟩ ::
      if cleanText printFloat value 160 = some "" then firstTokenCuts printFloat parts else []

/-- The texts of a candidate that are cleaned. -/
def candidateCuts (printFloat : ℚ → String) (candidate : Json) : List Cut :=
  firstTokenCuts printFloat (objectivePaths.map (pointer candidate)) ++
    (⟨pointer candidate ["proposal", "type"], 120⟩ ::
      ⟨pointer candidate ["proposal", "meta", "source_eye"], 120⟩ ::
        (listCuts (pointer candidate ["proposal", "tags"]) ++
          listCuts (pointer candidate ["proposal", "meta", "tags"])))

theorem answers_firstToken (parts : List (Option Json)) :
    Answers printFloat (firstToken printFloat parts) (firstTokenCuts printFloat parts) := by
  induction parts with
  | nil => exact answers_some ""
  | cons value parts ih =>
    rw [firstToken, firstTokenCuts]
    refine answers_cleanText_bind fun token htoken => ?_
    rw [htoken]
    by_cases hempty : token = ""
    · rw [if_neg (not_not_intro hempty), if_pos (congrArg some hempty)]
      exact ih
    · rw [if_pos hempty, if_neg fun heq => hempty (Option.some.inj heq)]
      exact answers_some token

/-- A candidate is read exactly where no text of it is cut inside a character. -/
theorem answers_readFacts (candidate : Json) :
    Answers printFloat (readFacts printFloat candidate) (candidateCuts printFloat candidate) := by
  refine (answers_firstToken _).bind fun objectiveId _ => ?_
  refine (answers_asLower _ _).bind fun proposalType _ => (answers_asLower _ _).bind fun eye _ => ?_
  refine Answers.bind_answered ?_ fun _ _ => rfl
  exact (answers_asStringArrayLower _).bind fun _ _ =>
    (answers_asStringArrayLower _).bind_answered fun _ _ => rfl

/-! ## Annotations that are settled -/

/-- The three fields that annotate a candidate. -/
def annotationOf (candidate : Json) : Option Json × Option Json × Option Json :=
  (candidate.get? "campaign_match", candidate.get? "campaign_sort_bucket",
    candidate.get? "campaign_sort_score")

def annotations (out : Json) : List (Option Json × Option Json × Option Json) :=
  (asArray (out.get? "candidates")).map annotationOf

/-- The fields of a match, or of none. -/
def matchAnnotation (found : Option Match) : Option Json × Option Json × Option Json :=
  (some ((found.map Match.toJson).getD .null), some (.ofInt (if found.isSome then 1 else 0)),
    some (.ofInt ((found.map Match.score).getD 0)))

/-- The match is one of the candidate with a campaign and a phase, and no other has a higher score;
there is none where nothing matches. -/
def Attached (printFloat : ℚ → String) (campaigns : List Campaign) (candidate : Json)
    (found : Option Match) : Prop :=
  match found with
  | none => ∀ pair ∈ pairs campaigns, ∀ facts, readFacts printFloat candidate = some facts →
      matchesFacts pair.1 pair.2 facts = false
  | some found => ∃ facts, readFacts printFloat candidate = some facts ∧
      ∃ pair ∈ pairs campaigns, matchesFacts pair.1 pair.2 facts = true ∧
        found = buildMatch pair.1 pair.2 facts (idealScore pair.1 pair.2 facts) ∧
          ∀ other ∈ pairs campaigns, matchesFacts other.1 other.2 facts = true →
            idealScore other.1 other.2 facts ≤ idealScore pair.1 pair.2 facts

/-- `annotate-priority` answers, attaches a match of the highest score to each candidate, and
annotates the candidates alike where the lists stand in any other order. -/
def Settled (printFloat : ℚ → String) (strategy : Json) (candidates : List Json) : Prop :=
  ∃ campaigns out found, normalizeCampaigns printFloat strategy = some campaigns ∧
    annotateCampaignPriority printFloat candidates strategy = some out ∧
      annotations out = found.map matchAnnotation ∧
        List.Forall₂ (Attached printFloat campaigns) candidates found ∧
          ∀ strategy' candidates', StrategyRearranged strategy strategy' →
            List.Forall₂ CandidateRearranged candidates candidates' →
              ∃ out', annotateCampaignPriority printFloat candidates' strategy' = some out' ∧
                annotations out' = annotations out

/-- The texts of a candidate are cut between characters, and its scores fit into 64 bits. -/
def CandidateFits (printFloat : ℚ → String) (campaigns : List Campaign) (candidate : Json) : Prop :=
  (∀ cut ∈ candidateCuts printFloat candidate, cut.Fits printFloat) ∧
    ∀ facts, readFacts printFloat candidate = some facts → ScoresFit facts campaigns

/-- The texts of a strategy are cut between characters, and where it has campaigns every candidate
fits. -/
def PriorityFits (printFloat : ℚ → String) (strategy : Json) (candidates : List Json) : Prop :=
  (∀ cut ∈ strategyCuts printFloat strategy, cut.Fits printFloat) ∧
    ∀ campaigns, normalizeCampaigns printFloat strategy = some campaigns → campaigns ≠ [] →
      ∀ candidate ∈ candidates, CandidateFits printFloat campaigns candidate

def matchesOf (printFloat : ℚ → String) (candidates : List Json) (campaigns : List Campaign) :
    Option (List (Option Match)) :=
  if campaigns = [] then some (candidates.map fun _ => none)
  else candidates.mapM fun candidate => bestCampaignMatch printFloat candidate campaigns

theorem annotationOf_annotated (candidate : Json) (found : Option Match) :
    annotationOf (annotated candidate found) = matchAnnotation found := by
  have hfield {key : String} {value : Json} (h : (key, value) ∈
      [("campaign_match", (found.map Match.toJson).getD .null),
        ("campaign_sort_bucket", .ofInt (if found.isSome then 1 else 0)),
        ("campaign_sort_score", .ofInt ((found.map Match.score).getD 0))]) :
      (annotated candidate found).get? key = some value :=
    Json.lookup_insertFields (by simp) (f := (key, value)) h
  rw [annotationOf, hfield List.mem_cons_self, hfield (List.mem_cons_of_mem _ List.mem_cons_self),
    hfield (List.mem_cons_of_mem _ (List.mem_cons_of_mem _ List.mem_cons_self)), matchAnnotation]

section Settled

variable {strategy : Json} {candidates : List Json} {campaigns : List Campaign}
  {found : List (Option Match)}

/-- A campaign that is kept has a phase. -/
theorem phases_ne_nil {row : Json} {campaign : Campaign}
    (h : readCampaign printFloat row = some (some campaign)) : campaign.phases ≠ [] := by
  rw [readCampaign, readActive] at h
  cases hrow : row.asObject with
  | none =>
    rw [hrow] at h
    cases h
  | some obj =>
    rw [hrow] at h
    obtain ⟨status, -, h⟩ := Option.bind_eq_some_iff.mp h
    split at h
    · obtain ⟨phases, -, h⟩ := Option.bind_eq_some_iff.mp h
      obtain ⟨⟨id, name, objectiveId⟩, -, h⟩ := Option.bind_eq_some_iff.mp h
      obtain ⟨filters, -, h⟩ := Option.bind_eq_some_iff.mp h
      have hbuild := Option.some.inj h
      rw [buildCampaign] at hbuild
      split at hbuild
      · cases hbuild
      · rename_i hkept
        rw [← Option.some.inj hbuild]
        exact fun hnil => hkept (.inr hnil)
    · cases h

theorem pairs_ne_nil (h : normalizeCampaigns printFloat strategy = some campaigns)
    (hne : campaigns ≠ []) : pairs campaigns ≠ [] := by
  obtain ⟨campaign, rest, rfl⟩ := List.exists_cons_of_ne_nil hne
  obtain ⟨row, -, hrow⟩ := (mem_readSorted h).mp List.mem_cons_self
  rw [pairs, List.flatMap_cons]
  exact List.append_ne_nil_of_left_ne_nil (by simpa using phases_ne_nil hrow) _

theorem length_matchesOf (h : matchesOf printFloat candidates campaigns = some found) :
    candidates.length = found.length := by
  rw [matchesOf] at h
  split at h
  · rw [← Option.some.inj h, List.length_map]
  · simpa using congrArg List.length (mapM_eq_some_iff.mp h)

theorem annotate_of_matchesOf (h : normalizeCampaigns printFloat strategy = some campaigns)
    (hfound : matchesOf printFloat candidates campaigns = some found) :
    ∃ out, annotateCampaignPriority printFloat candidates strategy = some out ∧
      annotations out = found.map matchAnnotation := by
  have hlength := length_matchesOf hfound
  have hread {summary : Json} {rows : List Json} :
      annotations (Json.ofFields [("summary", summary), ("candidates", .arr rows)]) =
        rows.map annotationOf := by
    rw [annotations, Json.get?_ofFields_mem (v := .arr rows) (by simp) (by simp)]
    rfl
  rw [annotateCampaignPriority, h, Option.bind_eq_bind, Option.bind_some]
  rw [matchesOf] at hfound
  split at hfound
  · rename_i hempty
    obtain rfl := Option.some.inj hfound
    rw [if_pos hempty]
    refine ⟨_, rfl, ?_⟩
    rw [hread, List.map_map, List.map_map]
    exact List.map_congr_left fun candidate _ => annotationOf_annotated candidate none
  · rename_i hne
    rw [if_neg hne, hfound]
    refine ⟨_, rfl, ?_⟩
    rw [hread]
    clear hfound hne
    induction candidates generalizing found with
    | nil =>
      obtain rfl := List.length_eq_zero_iff.mp hlength.symm
      rfl
    | cons candidate candidates ih =>
      cases found with
      | nil => cases hlength
      | cons best found =>
        rw [List.zipWith_cons_cons, List.map_cons, List.map_cons, annotationOf_annotated,
          ih (by simpa using hlength)]

theorem matchesOf_of_annotate {out : Json}
    (h : annotateCampaignPriority printFloat candidates strategy = some out) :
    ∃ campaigns found, normalizeCampaigns printFloat strategy = some campaigns ∧
      matchesOf printFloat candidates campaigns = some found := by
  rw [annotateCampaignPriority] at h
  obtain ⟨campaigns, hcampaigns, h⟩ := Option.bind_eq_some_iff.mp h
  by_cases hempty : campaigns = []
  · exact ⟨campaigns, _, hcampaigns, if_pos hempty⟩
  · rw [if_neg hempty] at h
    obtain ⟨found, hfound, -⟩ := Option.bind_eq_some_iff.mp h
    exact ⟨campaigns, found, hcampaigns, by rw [matchesOf, if_neg hempty, hfound]⟩

/-- The candidates are matched where each fits. -/
theorem isSome_matchesOf_iff (h : normalizeCampaigns printFloat strategy = some campaigns) :
    (matchesOf printFloat candidates campaigns).isSome = true ↔
      (campaigns ≠ [] → ∀ candidate ∈ candidates, CandidateFits printFloat campaigns candidate) := by
  by_cases hempty : campaigns = []
  · simp [matchesOf, hempty]
  · rw [matchesOf, if_neg hempty, isSome_mapM_iff]
    simp only [ne_eq, hempty, not_false_eq_true, forall_const]
    refine forall₂_congr fun candidate _ => ?_
    have hanswers := @answers_readFacts printFloat candidate
    rw [Answers] at hanswers
    rw [CandidateFits, ← hanswers]
    have hpairs := pairs_ne_nil h hempty
    rw [Option.isSome_iff_exists]
    simp only [bestCampaignMatch_eq_some_iff hpairs]
    constructor
    · rintro ⟨best, facts, hread, hfit, -⟩
      refine ⟨Option.isSome_of_eq_some hread, fun facts' hread' => ?_⟩
      rwa [← Option.some.inj (hread.symm.trans hread')]
    · rintro ⟨hread, hfit⟩
      obtain ⟨facts, hfacts⟩ := Option.isSome_iff_exists.mp hread
      exact ⟨_, facts, hfacts, hfit facts hfacts, rfl⟩

/-- **The match that is attached is the best.** -/
theorem attached_best (hpairs : pairs campaigns ≠ []) {candidate : Json} {best : Option Match}
    (h : bestCampaignMatch printFloat candidate campaigns = some best) :
    Attached printFloat campaigns candidate best := by
  obtain ⟨facts, hread, -, rfl⟩ := (bestCampaignMatch_eq_some_iff hpairs).mp h
  obtain ⟨hmem, hmax⟩ := foldl_better_spec ((pairs campaigns).map (idealMatch facts)) none
  -- No match of a pair has a higher score than what the scan keeps.
  have hbelow {pair : Campaign × Phase} (hpair : pair ∈ pairs campaigns)
      (hmatches : matchesFacts pair.1 pair.2 facts = true) :
      ∃ out ∈ idealBest facts campaigns, idealScore pair.1 pair.2 facts ≤ out.score := by
    have hideal : idealMatch facts pair =
        some (buildMatch pair.1 pair.2 facts (idealScore pair.1 pair.2 facts)) := if_pos hmatches
    exact hmax _ (List.mem_cons_of_mem _ (List.mem_map.mpr ⟨pair, hpair, rfl⟩)) _ hideal
  cases hbest : idealBest facts campaigns with
  | none =>
    intro pair hpair facts' hread'
    obtain rfl := Option.some.inj (hread.symm.trans hread')
    by_contra hmatches
    obtain ⟨out, hout, -⟩ := hbelow hpair (by simpa using hmatches)
    rw [hbest] at hout
    cases hout
  | some found =>
    rw [← idealBest, hbest, List.mem_cons, List.mem_map] at hmem
    obtain hnone | ⟨pair, hpair, hfound⟩ := hmem
    · cases hnone
    · rw [idealMatch] at hfound
      split at hfound
      · rename_i hmatches
        have hscore := Option.some.inj hfound
        refine ⟨facts, hread, pair, hpair, hmatches, hscore.symm, fun other hother hmatch => ?_⟩
        obtain ⟨out, hout, hle⟩ := hbelow hother hmatch
        rw [hbest] at hout
        rw [← Option.some.inj hout, ← hscore] at hle
        exact hle
      · cases hfound

theorem attached_matchesOf (h : normalizeCampaigns printFloat strategy = some campaigns)
    (hfound : matchesOf printFloat candidates campaigns = some found) :
    List.Forall₂ (Attached printFloat campaigns) candidates found := by
  rw [matchesOf] at hfound
  split at hfound
  · rename_i hempty
    obtain rfl := Option.some.inj hfound
    rw [List.forall₂_map_right_iff, List.forall₂_same]
    intro candidate _ pair hpair
    rw [hempty] at hpair
    cases hpair
  · rename_i hne
    exact (forall₂_of_mapM hfound).imp fun candidate best => attached_best (pairs_ne_nil h hne)

/-- Rearranged candidates are matched alike by rearranged campaigns. -/
theorem matchesOf_congr {candidates' : List Json} {campaigns' : List Campaign}
    (h : normalizeCampaigns printFloat strategy = some campaigns)
    (hcore : campaigns.map Campaign.core = campaigns'.map Campaign.core)
    (hrearranged : List.Forall₂ CandidateRearranged candidates candidates')
    (hfound : matchesOf printFloat candidates campaigns = some found) :
    matchesOf printFloat candidates' campaigns' = some found := by
  have hempty : campaigns = [] ↔ campaigns' = [] := by
    rw [← List.map_eq_nil_iff (f := Campaign.core), hcore, List.map_eq_nil_iff]
  rw [matchesOf] at hfound ⊢
  split at hfound
  · rename_i hnil
    rw [if_pos (hempty.mp hnil), ← Option.some.inj hfound, List.map_const', List.map_const',
      hrearranged.length_eq]
  · rename_i hne
    rw [if_neg fun hnil => hne (hempty.mpr hnil), mapM_eq_some_iff]
    have hpairs := pairs_ne_nil h hne
    replace hfound := forall₂_of_mapM hfound
    clear h hempty hne
    induction hrearranged generalizing found with
    | nil =>
      cases hfound
      rfl
    | cons hcandidate _ ih =>
      cases hfound with
      | cons hbest hrest =>
        rw [List.map_cons, List.map_cons, ih hrest,
          bestCampaignMatch_congr hcore hpairs (readFacts_congr hcandidate) hbest]

end Settled

/-- **When the annotations are settled**: where the texts are cut between characters, and for every
campaign and phase that matches five times the order, the clamped terms and the whole score fit into
64 bits. -/
theorem annotation_settled_iff (printFloat : ℚ → String) (strategy : Json) (candidates : List Json)
    (hdistinct : ∀ campaigns, normalizeCampaigns printFloat strategy = some campaigns →
      DistinctIds campaigns) :
    Settled printFloat strategy candidates ↔ PriorityFits printFloat strategy candidates := by
  have hanswers := @answers_normalizeCampaigns printFloat strategy
  rw [Answers] at hanswers
  rw [PriorityFits, ← hanswers]
  constructor
  · rintro ⟨campaigns, out, -, hcampaigns, hout, -⟩
    obtain ⟨campaigns', found, hcampaigns', hfound⟩ := matchesOf_of_annotate hout
    refine ⟨Option.isSome_of_eq_some hcampaigns, fun other hother => ?_⟩
    obtain rfl := Option.some.inj (hcampaigns'.symm.trans hother)
    exact (isSome_matchesOf_iff hother).mp (Option.isSome_of_eq_some hfound)
  · rintro ⟨hread, hfits⟩
    obtain ⟨campaigns, hcampaigns⟩ := Option.isSome_iff_exists.mp hread
    obtain ⟨found, hfound⟩ := Option.isSome_iff_exists.mp
      ((isSome_matchesOf_iff hcampaigns).mpr (hfits campaigns hcampaigns))
    obtain ⟨out, hout, hannotations⟩ := annotate_of_matchesOf hcampaigns hfound
    refine ⟨campaigns, out, found, hcampaigns, hout, hannotations,
      attached_matchesOf hcampaigns hfound, fun strategy' candidates' hstrategy hcandidates => ?_⟩
    obtain ⟨campaigns', hcampaigns', hcore⟩ :=
      normalizeCampaigns_congr hstrategy hcampaigns (hdistinct campaigns hcampaigns)
    obtain ⟨out', hout', hannotations'⟩ := annotate_of_matchesOf hcampaigns'
      (matchesOf_congr hcampaigns hcore hcandidates hfound)
    exact ⟨out', hout', hannotations'.trans hannotations.symm⟩

/-! ## A strategy of one campaign -/

/-- A strategy whose only campaign has a priority and a phase. -/
def oneCampaign (priority : ℤ) : Json :=
  .obj [("campaigns", .arr [.obj [("id", .str "a"), ("phases", .arr [.obj [("id", .str "p"),
    ("order", .ofInt 1), ("status", .str "active")]]), ("priority", .ofInt priority),
    ("status", .str "active")]])]

/-- A candidate of some type. -/
def fixCandidate : Json := .obj [("proposal", .obj [("type", .str "fix")])]

theorem fixCandidate_settled : Settled V8Kernel.pointed (oneCampaign 10) [fixCandidate] := by
  let phase : Phase :=
    { proposalTypes := [], sourceEyes := [], tags := [], id := "p", name := "", objectiveId := "",
      order := 1, priority := 0 }
  let campaign : Campaign :=
    { proposalTypes := [], sourceEyes := [], tags := [], id := "a", name := "", objectiveId := "",
      priority := 10, phases := [phase] }
  have hread : normalizeCampaigns V8Kernel.pointed (oneCampaign 10) = some [campaign] := by
    decide
  have hfacts : readFacts V8Kernel.pointed fixCandidate = some ⟨"", "fix", "", ∅⟩ := by
    decide
  have hstrategy : ∀ cut ∈ strategyCuts V8Kernel.pointed (oneCampaign 10),
      LaneUtils.bytes (cut.collapsed V8Kernel.pointed) ≤ cut.maxLen := by
    decide
  have hcandidate : ∀ cut ∈ candidateCuts V8Kernel.pointed fixCandidate,
      LaneUtils.bytes (cut.collapsed V8Kernel.pointed) ≤ cut.maxLen := by
    decide
  have hscores : ∀ pair ∈ pairs [campaign], ScoreFits pair.1 pair.2 ⟨"", "fix", "", ∅⟩ := by
    decide
  refine (annotation_settled_iff V8Kernel.pointed (oneCampaign 10) [fixCandidate] ?_).mpr
    ⟨fun cut hcut => .inl (hstrategy cut hcut), ?_⟩
  · intro campaigns hcampaigns
    obtain rfl := Option.some.inj (hread.symm.trans hcampaigns)
    exact ⟨by decide, by decide⟩
  · intro campaigns hcampaigns _ candidate hmem
    obtain rfl := Option.some.inj (hread.symm.trans hcampaigns)
    obtain rfl := List.mem_singleton.mp hmem
    refine ⟨fun cut hcut => .inl (hcandidate cut hcut), fun facts hread' => ?_⟩
    obtain rfl := Option.some.inj (hfacts.symm.trans hread')
    exact fun pair hpair _ => hscores pair hpair

/-- The smallest priority overflows the first difference of the score. -/
theorem smallest_priority_not_settled : ¬∀ (printFloat : ℚ → String) (strategy : Json)
    (candidates : List Json),
      (∀ campaigns, normalizeCampaigns printFloat strategy = some campaigns →
        DistinctIds campaigns) → Settled printFloat strategy candidates := by
  intro h
  have hread : (normalizeCampaigns V8Kernel.pointed (oneCampaign (-2 ^ 63))).map
      (fun campaigns => (campaigns.map Campaign.id, campaigns.map fun campaign =>
        campaign.phases.map Phase.id)) = some (["a"], [["p"]]) := by
    decide
  have hnone : (annotateCampaignPriority V8Kernel.pointed [fixCandidate]
      (oneCampaign (-2 ^ 63))).isSome = false := by
    decide
  have hdistinct : ∀ campaigns, normalizeCampaigns V8Kernel.pointed (oneCampaign (-2 ^ 63)) =
      some campaigns → DistinctIds campaigns := by
    intro campaigns hcampaigns
    rw [hcampaigns] at hread
    obtain ⟨hids, hphases⟩ := Prod.mk.inj (Option.some.inj hread)
    refine ⟨hids ▸ by decide, fun campaign hcampaign => ?_⟩
    have hmem : campaign.phases.map Phase.id ∈ campaigns.map fun campaign =>
        campaign.phases.map Phase.id := List.mem_map.mpr ⟨campaign, hcampaign, rfl⟩
    rw [hphases, List.mem_singleton] at hmem
    rw [hmem]
    exact List.nodup_singleton "p"
  obtain ⟨-, out, -, -, hout, -⟩ := h _ _ [fixCandidate] hdistinct
  rw [hout] at hnone
  cases hnone

end Protheus.Campaigns
