import Protheus.Cuts
import Protheus.Lib.MapM
import Protheus.Lib.Rank

/-!
The campaigns of `strategy_campaign_scheduler_kernel.rs`.

A strategy lists campaigns, each with phases.  The active ones are read into records,
their texts cleaned and lowered, and sorted: campaigns by priority and id, phases by
order, priority and id.
-/

namespace Protheus.Campaigns

open LaneUtils MapM
open Rank (insertionSort_eq_of_perm)
open TextCuts (Answers Cut answers_some answers_cleanText answers_cleanText_bind answers_mapM)

variable {printFloat : ℚ → String}

/-! ## Reading values -/

/-- `as_array`. -/
def asArray (value : Option Json) : List Json := (value.bind Json.asArray).getD []

/-- `as_lower`; `none` where `clean_text` aborts. -/
def asLower (printFloat : ℚ → String) (value : Option Json) (maxLen : ℕ) : Option String :=
  (cleanText printFloat value maxLen).map RustStd.toAsciiLowercase

/-- `as_i64`. -/
def asI64 (value : Option Json) : Option Int64 :=
  match value with
  | some (.num n) => (Json.num n).asI64.map Int64.ofInt
  | some (.str s) => RustStd.parseI64 (RustStd.trim s)
  | _ => none

/-- The tokens that are not empty, each where it stands first. -/
def distinctTokens (tokens : List String) : List String :=
  tokens.foldl (fun out token => if token = "" ∨ token ∈ out then out else out ++ [token]) []

/-- `as_string_array_lower`. -/
def asStringArrayLower (printFloat : ℚ → String) (value : Option Json) : Option (List String) :=
  ((asArray value).mapM fun row => asLower printFloat (some row) 120).map distinctTokens

theorem distinctTokens_spec (tokens : List String) :
    (distinctTokens tokens).Nodup ∧
      ∀ token, token ∈ distinctTokens tokens ↔ token ≠ "" ∧ token ∈ tokens := by
  have hfold (tokens out : List String) (hout : out.Nodup) :
      let all := tokens.foldl
        (fun out token => if token = "" ∨ token ∈ out then out else out ++ [token]) out
      all.Nodup ∧ ∀ token, token ∈ all ↔ token ∈ out ∨ token ≠ "" ∧ token ∈ tokens := by
    induction tokens generalizing out with
    | nil => exact ⟨hout, by simp⟩
    | cons token tokens ih =>
      dsimp only
      rw [List.foldl_cons]
      split
      · rename_i hskip
        obtain ⟨hnodup, hmem⟩ := ih out hout
        refine ⟨hnodup, fun other => ?_⟩
        rw [hmem, List.mem_cons]
        grind
      · rename_i hnew
        obtain ⟨hempty, hfresh⟩ := not_or.mp hnew
        have happend : (out ++ [token]).Nodup := by
          rw [List.nodup_append]
          refine ⟨hout, List.nodup_singleton token, ?_⟩
          rintro a ha b hb rfl
          exact hfresh (List.mem_singleton.mp hb ▸ ha)
        obtain ⟨hnodup, hmem⟩ := ih _ happend
        refine ⟨hnodup, fun other => ?_⟩
        rw [hmem, List.mem_append, List.mem_singleton, List.mem_cons]
        grind
  obtain ⟨hnodup, hmem⟩ := hfold tokens [] List.nodup_nil
  refine ⟨hnodup, fun token => ?_⟩
  rw [distinctTokens, hmem]
  simp

/-- The order of the tokens is all that changes with their order. -/
theorem distinctTokens_perm {tokens tokens' : List String} (h : tokens.Perm tokens') :
    (distinctTokens tokens).Perm (distinctTokens tokens') := by
  obtain ⟨hnodup, hmem⟩ := distinctTokens_spec tokens
  obtain ⟨hnodup', hmem'⟩ := distinctTokens_spec tokens'
  refine (List.perm_ext_iff_of_nodup hnodup hnodup').mpr fun token => ?_
  rw [hmem, hmem', h.mem_iff]

/-! ## Records -/

/-- What the lists of a campaign or a phase let through. -/
structure Filters where
  proposalTypes : List String
  sourceEyes : List String
  tags : List String
  deriving DecidableEq

structure Phase extends Filters where
  id : String
  name : String
  objectiveId : String
  order : Int64
  priority : Int64
  deriving DecidableEq

structure Campaign extends Filters where
  id : String
  name : String
  objectiveId : String
  priority : Int64
  phases : List Phase
  deriving DecidableEq

def campaignCmp (a b : Campaign) : Ordering :=
  (compare a.priority.toInt b.priority.toInt).then (compare a.id b.id)

def phaseCmp (a b : Phase) : Ordering :=
  (compare a.order.toInt b.order.toInt).then <|
    (compare b.priority.toInt a.priority.toInt).then (compare a.id b.id)

/-- The id, the name and the objective of a row. -/
def readNames (printFloat : ℚ → String) (obj : List (String × Json)) :
    Option (String × String × String) := do
  let id ← asLower printFloat (obj.lookup "id") 120
  let name ← cleanText printFloat (obj.lookup "name") 260
  let objectiveId ← cleanText printFloat (obj.lookup "objective_id") 160
  some (id, name, objectiveId)

def readFilters (printFloat : ℚ → String) (obj : List (String × Json)) : Option Filters := do
  let proposalTypes ← asStringArrayLower printFloat (obj.lookup "proposal_types")
  let sourceEyes ← asStringArrayLower printFloat (obj.lookup "source_eyes")
  let tags ← asStringArrayLower printFloat (obj.lookup "tags")
  some { proposalTypes, sourceEyes, tags }

/-- A row that is active, read further; nothing where it is no object or not active. -/
def readActive {α : Type} (printFloat : ℚ → String) (row : Json)
    (read : List (String × Json) → Option (Option α)) : Option (Option α) :=
  match row.asObject with
  | none => some none
  | some obj => do
    let status ← asLower printFloat (obj.lookup "status") 40
    if status = "active" then read obj else some none

/-- The phase of an object, if it has an id. -/
def buildPhase (obj : List (String × Json)) (names : String × String × String)
    (filters : Filters) : Option Phase :=
  let (id, name, objectiveId) := names
  if id = "" then none
  else some
    { filters with
      id, name, objectiveId
      order := (asI64 (obj.lookup "order")).getD 99
      priority := (asI64 (obj.lookup "priority")).getD 0 }

def readPhase (printFloat : ℚ → String) (row : Json) : Option (Option Phase) :=
  readActive printFloat row fun obj => do
    let names ← readNames printFloat obj
    let filters ← readFilters printFloat obj
    some (buildPhase obj names filters)

def readSorted {α : Type} (cmp : α → α → Ordering) (read : Json → Option (Option α))
    (rows : List Json) : Option (List α) :=
  (rows.mapM read).map fun found => RustStd.sortBy cmp found.reduceOption

/-- The campaign of an object, if it has an id and a phase. -/
def buildCampaign (obj : List (String × Json)) (phases : List Phase)
    (names : String × String × String) (filters : Filters) : Option Campaign :=
  let (id, name, objectiveId) := names
  if id = "" ∨ phases = [] then none
  else some
    { filters with
      id, name, objectiveId, phases
      priority := (asI64 (obj.lookup "priority")).getD 50 }

def readCampaign (printFloat : ℚ → String) (row : Json) : Option (Option Campaign) :=
  readActive printFloat row fun obj => do
    let phases ← readSorted phaseCmp (readPhase printFloat) (asArray (obj.lookup "phases"))
    let names ← readNames printFloat obj
    let filters ← readFilters printFloat obj
    some (buildCampaign obj phases names filters)

/-- `normalize_campaigns`. -/
def normalizeCampaigns (printFloat : ℚ → String) (strategy : Json) : Option (List Campaign) :=
  readSorted campaignCmp (readCampaign printFloat) (asArray (strategy.get? "campaigns"))

/-! ## What is cut -/

def listCuts (value : Option Json) : List Cut := (asArray value).map fun row => ⟨some row, 120⟩

def nameCuts (obj : List (String × Json)) : List Cut :=
  [⟨obj.lookup "id", 120⟩, ⟨obj.lookup "name", 260⟩, ⟨obj.lookup "objective_id", 160⟩]

def filterCuts (obj : List (String × Json)) : List Cut :=
  listCuts (obj.lookup "proposal_types") ++
    (listCuts (obj.lookup "source_eyes") ++ listCuts (obj.lookup "tags"))

/-- The texts of a row: its status, and the others where it is active. -/
def activeCuts (printFloat : ℚ → String) (row : Json) (cuts : List (String × Json) → List Cut) :
    List Cut :=
  match row.asObject with
  | none => []
  | some obj => ⟨obj.lookup "status", 40⟩ ::
      if asLower printFloat (obj.lookup "status") 40 = some "active" then cuts obj else []

def phaseCuts (printFloat : ℚ → String) (row : Json) : List Cut :=
  activeCuts printFloat row fun obj => nameCuts obj ++ filterCuts obj

def campaignCuts (printFloat : ℚ → String) (row : Json) : List Cut :=
  activeCuts printFloat row fun obj =>
    (asArray (obj.lookup "phases")).flatMap (phaseCuts printFloat) ++ (nameCuts obj ++ filterCuts obj)

/-- The texts of a strategy that are cleaned. -/
def strategyCuts (printFloat : ℚ → String) (strategy : Json) : List Cut :=
  (asArray (strategy.get? "campaigns")).flatMap (campaignCuts printFloat)

section Answers

variable {α β : Type}

theorem answers_map {x : Option α} {f : α → β} {cuts : List Cut} (h : Answers printFloat x cuts) :
    Answers printFloat (x.map f) cuts := by
  rwa [Answers, Option.isSome_map]

theorem answers_asLower (value : Option Json) (maxLen : ℕ) :
    Answers printFloat (asLower printFloat value maxLen) [⟨value, maxLen⟩] :=
  answers_map (answers_cleanText value maxLen)

theorem answers_asStringArrayLower (value : Option Json) :
    Answers printFloat (asStringArrayLower printFloat value) (listCuts value) := by
  rw [listCuts, List.map_eq_flatMap]
  exact answers_map (answers_mapM fun row _ => answers_asLower (some row) 120)

theorem answers_readNames (obj : List (String × Json)) :
    Answers printFloat (readNames printFloat obj) (nameCuts obj) :=
  (answers_asLower _ _).bind fun _ _ => answers_cleanText_bind fun _ _ =>
    answers_cleanText_bind fun _ _ => answers_some _

theorem answers_readFilters (obj : List (String × Json)) :
    Answers printFloat (readFilters printFloat obj) (filterCuts obj) :=
  (answers_asStringArrayLower _).bind fun _ _ => (answers_asStringArrayLower _).bind fun _ _ =>
    (answers_asStringArrayLower _).bind_answered fun _ _ => rfl

theorem answers_readActive (row : Json) {read : List (String × Json) → Option (Option α)}
    {cuts : List (String × Json) → List Cut}
    (h : ∀ obj, Answers printFloat (read obj) (cuts obj)) :
    Answers printFloat (readActive printFloat row read) (activeCuts printFloat row cuts) := by
  rw [readActive, activeCuts]
  cases row.asObject with
  | none => exact answers_some _
  | some obj =>
    dsimp only
    rw [← List.singleton_append]
    refine (answers_asLower _ _).bind fun status hstatus => ?_
    rw [hstatus]
    by_cases hactive : status = "active"
    · rw [if_pos hactive, if_pos (congrArg some hactive)]
      exact h obj
    · rw [if_neg hactive, if_neg fun heq => hactive (Option.some.inj heq)]
      exact answers_some _

theorem answers_readPhase (row : Json) :
    Answers printFloat (readPhase printFloat row) (phaseCuts printFloat row) :=
  answers_readActive row fun obj => (answers_readNames obj).bind fun _ _ =>
    (answers_readFilters obj).bind_answered fun _ _ => rfl

theorem answers_readSorted {cmp : α → α → Ordering} {read : Json → Option (Option α)}
    {cuts : Json → List Cut} (h : ∀ row, Answers printFloat (read row) (cuts row))
    (rows : List Json) : Answers printFloat (readSorted cmp read rows) (rows.flatMap cuts) :=
  answers_map (answers_mapM fun row _ => h row)

theorem answers_readCampaign (row : Json) :
    Answers printFloat (readCampaign printFloat row) (campaignCuts printFloat row) :=
  answers_readActive row fun _ => (answers_readSorted answers_readPhase _).bind fun _ _ =>
    (answers_readNames _).bind fun _ _ => (answers_readFilters _).bind_answered fun _ _ => rfl

/-- The campaigns are read exactly where no text is cut inside a character. -/
theorem answers_normalizeCampaigns (strategy : Json) :
    Answers printFloat (normalizeCampaigns printFloat strategy) (strategyCuts printFloat strategy) :=
  answers_readSorted answers_readCampaign _

end Answers

/-! ## Sorting -/

def campaignKey (campaign : Campaign) : ℤ ×ₗ String :=
  toLex (campaign.priority.toInt, campaign.id)

def phaseKey (phase : Phase) : ℤ ×ₗ ℤ ×ₗ String :=
  toLex (phase.order.toInt, toLex (-phase.priority.toInt, phase.id))

theorem then_ne_gt_iff {α : Type*} [LinearOrder α] {a a' : α} {rest : Ordering} :
    (compare a a').then rest ≠ .gt ↔ a < a' ∨ a = a' ∧ rest ≠ .gt := by
  obtain hlt | heq | hgt := lt_trichotomy a a'
  · simp [compare_lt_iff_lt.mpr hlt, hlt]
  · subst heq
    simp
  · simp [compare_gt_iff_gt.mpr hgt, not_lt_of_gt hgt, ne_of_gt hgt]

theorem campaignCmp_ne_gt_iff (a b : Campaign) :
    campaignCmp a b ≠ .gt ↔ campaignKey a ≤ campaignKey b := by
  rw [campaignCmp, then_ne_gt_iff, campaignKey, campaignKey, Prod.Lex.toLex_le_toLex]
  simp only [compare_gt_iff_gt, ne_eq, not_lt]

theorem phaseCmp_ne_gt_iff (a b : Phase) : phaseCmp a b ≠ .gt ↔ phaseKey a ≤ phaseKey b := by
  rw [phaseCmp, then_ne_gt_iff, then_ne_gt_iff, phaseKey, phaseKey, Prod.Lex.toLex_le_toLex,
    Prod.Lex.toLex_le_toLex, neg_lt_neg_iff, neg_inj]
  simp only [compare_gt_iff_gt, ne_eq, not_lt, @eq_comm ℤ b.priority.toInt]

/-! ## What the order of the lists does not show in -/

def Filters.core (filters : Filters) : Filters where
  proposalTypes := filters.proposalTypes.insertionSort (· ≤ ·)
  sourceEyes := filters.sourceEyes.insertionSort (· ≤ ·)
  tags := filters.tags.insertionSort (· ≤ ·)

def Phase.core (phase : Phase) : Phase := { phase with toFilters := phase.toFilters.core }

def Campaign.core (campaign : Campaign) : Campaign :=
  { campaign with toFilters := campaign.toFilters.core, phases := campaign.phases.map Phase.core }

/-- Two values that list the same. -/
def SameList (value value' : Option Json) : Prop := (asArray value).Perm (asArray value')

/-- The lists by which a row filters. -/
def filterKeys : List String := ["proposal_types", "source_eyes", "tags"]

/-- A phase with its filters in another order. -/
inductive PhaseRearranged : Json → Json → Prop
  | same (row : Json) : PhaseRearranged row row
  | lists {fields fields' : List (String × Json)}
      (hkept : ∀ key ∉ filterKeys, fields'.lookup key = fields.lookup key)
      (hlists : ∀ key ∈ filterKeys, SameList (fields.lookup key) (fields'.lookup key)) :
      PhaseRearranged (.obj fields) (.obj fields')

/-- A campaign with its phases and its filters in another order, and those of its phases too. -/
inductive CampaignRearranged : Json → Json → Prop
  | same (row : Json) : CampaignRearranged row row
  | lists {fields fields' : List (String × Json)} {phases : List Json}
      (hkept : ∀ key ∉ "phases" :: filterKeys, fields'.lookup key = fields.lookup key)
      (hlists : ∀ key ∈ filterKeys, SameList (fields.lookup key) (fields'.lookup key))
      (hperm : (asArray (fields.lookup "phases")).Perm phases)
      (hphases : List.Forall₂ PhaseRearranged phases (asArray (fields'.lookup "phases"))) :
      CampaignRearranged (.obj fields) (.obj fields')

/-- A strategy with its campaigns in another order, and each of them rearranged. -/
def StrategyRearranged (strategy strategy' : Json) : Prop :=
  ∃ rows, (asArray (strategy.get? "campaigns")).Perm rows ∧
    List.Forall₂ CampaignRearranged rows (asArray (strategy'.get? "campaigns"))

/-- The ids of the campaigns tell them apart, and so do those of each campaign's phases. -/
def DistinctIds (campaigns : List Campaign) : Prop :=
  (campaigns.map Campaign.id).Nodup ∧ ∀ campaign ∈ campaigns, (campaign.phases.map Phase.id).Nodup

section ReadSorted

variable {α κ : Type} [LinearOrder κ] {cmp : α → α → Ordering} {read : Json → Option (Option α)}
  {key : α → κ} {core : α → α} {rows rows' : List Json}

/-- What is sorted by a key is told apart by it, or is not sorted the same. -/
theorem map_sortBy_eq (hcmp : ∀ a b, cmp a b ≠ .gt ↔ key a ≤ key b)
    (hcore : ∀ a, key (core a) = key a) {found found' : List α}
    (hperm : (found.map core).Perm (found'.map core))
    (hinj : ∀ a ∈ found, ∀ b ∈ found, key a = key b → a = b) :
    (RustStd.sortBy cmp found).map core = (RustStd.sortBy cmp found').map core := by
  have hsort (l : List α) :
      (RustStd.sortBy cmp l).map core = (l.map core).insertionSort fun a b => cmp a b ≠ .gt :=
    List.map_insertionSort _ _ core l fun a _ b _ => by rw [hcmp, hcmp, hcore, hcore]
  rw [hsort, hsort]
  refine insertionSort_eq_of_perm hcmp hperm fun a ha b hb heq => ?_
  obtain ⟨a', hamem, rfl⟩ := List.mem_map.mp ha
  obtain ⟨b', hbmem, rfl⟩ := List.mem_map.mp hb
  rw [hcore, hcore] at heq
  rw [hinj a' hamem b' hbmem heq]

/-- Rows that are read alike, but for what `core` forgets and their order, are sorted alike if the
keys of the records tell them apart. -/
theorem readSorted_congr (hcmp : ∀ a b, cmp a b ≠ .gt ↔ key a ≤ key b)
    (hcore : ∀ a, key (core a) = key a)
    (h : (rows.map fun row => (read row).map (Option.map core)).Perm
      (rows'.map fun row => (read row).map (Option.map core))) :
    (readSorted cmp read rows = none ∧ readSorted cmp read rows' = none) ∨
      ∃ found found', readSorted cmp read rows = some found ∧
        readSorted cmp read rows' = some found' ∧ (found.map core).Perm (found'.map core) ∧
          ((∀ a ∈ found, ∀ b ∈ found, key a = key b → a = b) →
            found.map core = found'.map core) := by
  have hnone {rows rows' : List Json}
      (h : (rows.map fun row => (read row).map (Option.map core)).Perm
        (rows'.map fun row => (read row).map (Option.map core)))
      (hsome : (rows.mapM read).isSome = true) : (rows'.mapM read).isSome = true := by
    refine isSome_mapM_iff.mpr fun row' hrow' => ?_
    obtain ⟨row, hrow, heq⟩ := List.mem_map.mp (h.mem_iff.mpr (List.mem_map.mpr ⟨row', hrow', rfl⟩))
    have hread := isSome_mapM_iff.mp hsome row hrow
    rw [← Option.isSome_map (f := Option.map core), heq, Option.isSome_map] at hread
    exact hread
  rw [readSorted, readSorted]
  cases hfound : rows.mapM read with
  | none =>
    cases hfound' : rows'.mapM read with
    | none => exact .inl ⟨rfl, rfl⟩
    | some found' =>
      have hsome := hnone h.symm (Option.isSome_of_eq_some hfound')
      rw [hfound] at hsome
      cases hsome
  | some found =>
    obtain ⟨found', hfound'⟩ := Option.isSome_iff_exists.mp
      (hnone h (Option.isSome_of_eq_some hfound))
    have hread {rows : List Json} {found : List (Option α)} (hfound : rows.mapM read = some found) :
        (rows.map fun row => (read row).map (Option.map core)) =
          (found.map (Option.map core)).map some := by
      have hmap := congrArg (List.map (Option.map (Option.map core))) (mapM_eq_some_iff.mp hfound)
      rw [List.map_map, List.map_map] at hmap
      rw [List.map_map]
      exact hmap
    rw [hread hfound, hread hfound', List.map_perm_map_iff (Option.some_injective _)] at h
    have hperm : (found.reduceOption.map core).Perm (found'.reduceOption.map core) := by
      rw [← List.reduceOption_map, ← List.reduceOption_map]
      exact h.filterMap id
    have hsorted (l : List α) : (RustStd.sortBy cmp l).Perm l := List.perm_insertionSort _ l
    refine .inr ⟨_, _, rfl, by rw [hfound']; rfl, ?_, fun hinj => ?_⟩
    · exact ((hsorted _).map core).trans (hperm.trans ((hsorted _).map core).symm)
    · exact map_sortBy_eq hcmp hcore hperm fun a ha b hb =>
        hinj a ((hsorted _).mem_iff.mpr ha) b ((hsorted _).mem_iff.mpr hb)

end ReadSorted

theorem SameList.symm {value value' : Option Json} (h : SameList value value') :
    SameList value' value := List.Perm.symm h

/-- A list is read to the same tokens, in whatever order. -/
theorem asStringArrayLower_congr {value value' : Option Json} (h : SameList value value') :
    (asStringArrayLower printFloat value).map (List.insertionSort (· ≤ ·)) =
      (asStringArrayLower printFloat value').map (List.insertionSort (· ≤ ·)) := by
  have hsome {value value' : Option Json} (h : SameList value value') {tokens : List String}
      (htokens : asStringArrayLower printFloat value = some tokens) :
      ∃ tokens', asStringArrayLower printFloat value' = some tokens' ∧ tokens.Perm tokens' := by
    obtain ⟨found, hfound, rfl⟩ := Option.map_eq_some_iff.mp htokens
    obtain ⟨found', hfound', hperm⟩ := mapM_perm h hfound
    exact ⟨_, Option.map_eq_some_iff.mpr ⟨found', hfound', rfl⟩, distinctTokens_perm hperm⟩
  cases hread : asStringArrayLower printFloat value with
  | some tokens =>
    obtain ⟨tokens', htokens', hperm⟩ := hsome h hread
    rw [htokens', Option.map_some, Option.map_some, @insertionSort_eq_of_perm
      _ _ _ (fun token : String => token) _ _ (fun _ _ => Iff.rfl) _ _ hperm fun _ _ _ _ heq => heq]
  | none =>
    cases hread' : asStringArrayLower printFloat value' with
    | none => rfl
    | some tokens' =>
      obtain ⟨tokens, htokens, -⟩ := hsome h.symm hread'
      rw [hread] at htokens
      cases htokens

section Rearranged

variable {fields fields' : List (String × Json)}

theorem readFilters_congr
    (h : ∀ key ∈ filterKeys, SameList (fields.lookup key) (fields'.lookup key)) :
    (readFilters printFloat fields).map Filters.core =
      (readFilters printFloat fields').map Filters.core := by
  have hcore (obj : List (String × Json)) : (readFilters printFloat obj).map Filters.core = (do
      let proposalTypes ← (asStringArrayLower printFloat (obj.lookup "proposal_types")).map
        (List.insertionSort (· ≤ ·))
      let sourceEyes ← (asStringArrayLower printFloat (obj.lookup "source_eyes")).map
        (List.insertionSort (· ≤ ·))
      let tags ← (asStringArrayLower printFloat (obj.lookup "tags")).map
        (List.insertionSort (· ≤ ·))
      some { proposalTypes, sourceEyes, tags }) := by
    rw [readFilters]
    cases asStringArrayLower printFloat (obj.lookup "proposal_types") with
    | none => rfl
    | some types =>
      cases asStringArrayLower printFloat (obj.lookup "source_eyes") with
      | none => rfl
      | some eyes => cases asStringArrayLower printFloat (obj.lookup "tags") <;> rfl
  rw [hcore, hcore, asStringArrayLower_congr (h "proposal_types" (by decide)),
    asStringArrayLower_congr (h "source_eyes" (by decide)),
    asStringArrayLower_congr (h "tags" (by decide))]

theorem readNames_congr (h : ∀ key ∉ "phases" :: filterKeys, fields'.lookup key = fields.lookup key) :
    readNames printFloat fields' = readNames printFloat fields := by
  rw [readNames, readNames, h "id" (by decide), h "name" (by decide), h "objective_id" (by decide)]

theorem readActive_congr {α : Type} {read : List (String × Json) → Option (Option α)}
    (h : fields'.lookup "status" = fields.lookup "status") {f : α → α}
    (hread : readActive printFloat (.obj fields) read = read fields →
      (read fields).map (Option.map f) = (read fields').map (Option.map f)) :
    (readActive printFloat (.obj fields) read).map (Option.map f) =
      (readActive printFloat (.obj fields') read).map (Option.map f) := by
  revert hread
  rw [readActive, readActive, Json.asObject, Json.asObject]
  dsimp only
  rw [h]
  cases asLower printFloat (fields.lookup "status") 40 with
  | none => exact fun _ => rfl
  | some status =>
    simp only [Option.bind_eq_bind, Option.bind_some]
    split
    · exact fun hread => hread rfl
    · exact fun _ => rfl

/-- A record built of names, which stay, and filters, of which only the order changes. -/
theorem build_congr {α : Type} {f : α → α} {build build' : Filters → Option α}
    (hlists : ∀ key ∈ filterKeys, SameList (fields.lookup key) (fields'.lookup key))
    (hbuild : ∀ filters filters', readFilters printFloat fields = some filters →
      filters.core = filters'.core → (build filters).map f = (build' filters').map f) :
    ((readFilters printFloat fields).bind fun filters => some (build filters)).map (Option.map f) =
      ((readFilters printFloat fields').bind fun filters => some (build' filters)).map
        (Option.map f) := by
  have hfilters := @readFilters_congr printFloat _ _ hlists
  cases hread : readFilters printFloat fields with
  | none =>
    rw [hread, Option.map_none, eq_comm, Option.map_eq_none_iff] at hfilters
    rw [hfilters]
    rfl
  | some filters =>
    rw [hread, Option.map_some, eq_comm, Option.map_eq_some_iff] at hfilters
    obtain ⟨filters', hread', hcore⟩ := hfilters
    rw [hread']
    exact congrArg some (hbuild filters filters' hread hcore.symm)

theorem readPhase_congr {row row' : Json} (h : PhaseRearranged row row') :
    (readPhase printFloat row).map (Option.map Phase.core) =
      (readPhase printFloat row').map (Option.map Phase.core) := by
  cases h with
  | same => rfl
  | @lists fields fields' hkept hlists =>
    refine readActive_congr (hkept "status" (by decide)) fun _ => ?_
    rw [readNames_congr fun key hkey => hkept key fun hmem => hkey (List.mem_cons_of_mem _ hmem)]
    cases readNames printFloat fields with
    | none => rfl
    | some names =>
      refine build_congr hlists fun filters filters' _ hcore => ?_
      obtain ⟨id, name, objectiveId⟩ := names
      rw [buildPhase, buildPhase, hkept "order" (by decide), hkept "priority" (by decide)]
      split
      · rfl
      · rw [Option.map_some, Option.map_some, Phase.core, Phase.core, hcore]

theorem readCampaign_congr {row row' : Json} (h : CampaignRearranged row row')
    (hdistinct : ∀ campaign, readCampaign printFloat row = some (some campaign) →
      (campaign.phases.map Phase.id).Nodup) :
    (readCampaign printFloat row).map (Option.map Campaign.core) =
      (readCampaign printFloat row').map (Option.map Campaign.core) := by
  cases h with
  | same => rfl
  | @lists fields fields' phases hkept hlists hperm hphases =>
    have hrows : ((asArray (fields.lookup "phases")).map fun row =>
        (readPhase printFloat row).map (Option.map Phase.core)).Perm
          ((asArray (fields'.lookup "phases")).map fun row =>
            (readPhase printFloat row).map (Option.map Phase.core)) := by
      rw [← map_congr_of_forall₂ hphases fun _ _ _ => readPhase_congr]
      exact hperm.map _
    have hkey (phase : Phase) : phaseKey phase.core = phaseKey phase := rfl
    have hsorted := readSorted_congr phaseCmp_ne_gt_iff hkey hrows
    refine readActive_congr (hkept "status" (by decide)) fun hactive => ?_
    rw [readNames_congr fun key hkey => hkept key hkey]
    obtain ⟨hnone, hnone'⟩ | ⟨found, found', hfound, hfound', hperm, heq⟩ := hsorted
    · rw [hnone, hnone']
      rfl
    · rw [hfound, hfound']
      cases hnames : readNames printFloat fields with
      | none => rfl
      | some names =>
        refine build_congr hlists fun filters filters' hread hcore => ?_
        obtain ⟨id, name, objectiveId⟩ := names
        have hempty : found = [] ↔ found' = [] := by
          rw [← @List.map_eq_nil_iff _ _ Phase.core found, ← List.length_eq_zero_iff,
            hperm.length_eq, List.length_eq_zero_iff, List.map_eq_nil_iff]
        rw [buildCampaign, buildCampaign, hkept "priority" (by decide)]
        simp only [← hempty]
        split
        · rfl
        · rename_i hkept'
          have hnodup : (found.map Phase.id).Nodup := by
            refine hdistinct { filters with
              id, name, objectiveId, phases := found
              priority := (asI64 (fields.lookup "priority")).getD 50 } ?_
            rw [readCampaign, hactive, hfound, hnames]
            simp only [Option.bind_eq_bind, Option.bind_some, hread, buildCampaign]
            rw [if_neg hkept']
          have hphases := heq fun a ha b hb hkeys =>
            List.inj_on_of_nodup_map hnodup ha hb (congrArg (fun key => (ofLex (ofLex key).2).2) hkeys)
          rw [Option.map_some, Option.map_some, Campaign.core, Campaign.core, hcore, hphases]

theorem mem_readSorted {α : Type} {cmp : α → α → Ordering} {read : Json → Option (Option α)}
    {rows : List Json} {found : List α} (h : readSorted cmp read rows = some found) {a : α} :
    a ∈ found ↔ ∃ row ∈ rows, read row = some (some a) := by
  obtain ⟨all, hall, rfl⟩ := Option.map_eq_some_iff.mp h
  rw [RustStd.sortBy, List.mem_insertionSort, List.reduceOption_mem_iff, mem_of_mapM hall]

/-- **Rearranged strategies have the same campaigns**, but for the order of what they filter by. -/
theorem normalizeCampaigns_congr {strategy strategy' : Json} {campaigns : List Campaign}
    (h : StrategyRearranged strategy strategy')
    (hfound : normalizeCampaigns printFloat strategy = some campaigns)
    (hdistinct : DistinctIds campaigns) :
    ∃ campaigns', normalizeCampaigns printFloat strategy' = some campaigns' ∧
      campaigns.map Campaign.core = campaigns'.map Campaign.core := by
  obtain ⟨rows, hperm, hrows⟩ := h
  have hread : ((asArray (strategy.get? "campaigns")).map fun row =>
      (readCampaign printFloat row).map (Option.map Campaign.core)).Perm
        ((asArray (strategy'.get? "campaigns")).map fun row =>
          (readCampaign printFloat row).map (Option.map Campaign.core)) := by
    rw [← map_congr_of_forall₂ hrows fun row hrow row' hrearranged => ?_]
    · exact hperm.map _
    · refine readCampaign_congr hrearranged fun campaign hcampaign => hdistinct.2 campaign ?_
      exact (mem_readSorted hfound).mpr ⟨row, hperm.mem_iff.mpr hrow, hcampaign⟩
  have hkey (campaign : Campaign) : campaignKey campaign.core = campaignKey campaign := rfl
  obtain ⟨hnone, -⟩ | ⟨found, campaigns', hsome, hfound', -, heq⟩ :=
    readSorted_congr campaignCmp_ne_gt_iff hkey hread
  · rw [normalizeCampaigns, hnone] at hfound
    cases hfound
  · rw [normalizeCampaigns, hsome] at hfound
    obtain rfl := Option.some.inj hfound
    refine ⟨campaigns', hfound', heq fun a ha b hb hkeys => ?_⟩
    exact List.inj_on_of_nodup_map hdistinct.1 ha hb (congrArg (fun key => (ofLex key).2) hkeys)

end Rearranged

end Protheus.Campaigns
