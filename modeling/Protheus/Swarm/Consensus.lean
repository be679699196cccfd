import Mathlib.Data.List.Dedup
import Protheus.Lib.Groups
import Protheus.Swarm.State

/-!
The consensus over agent reports.

`parse_reports` keeps every row that names an agent, and `evaluate_consensus` groups the reports by
the fingerprint of their selected values and takes the last of the largest groups for the agreed
value.  What it counts are the reports: an agent that reports twice counts twice.  Shares are
quotients of two lengths, rounded to an `f64` by `round`.
-/

namespace Protheus.Swarm

/-- `AgentReport`. -/
structure AgentReport where
  agentId : String
  values : List (String × Json)
  deriving DecidableEq

/-- One row of `parse_reports`. -/
def parseReport (row : Json) : Option AgentReport := do
  let agent ← (row.get? "agent_id").or (row.get? "agent")
  let agentId := RustStd.trim (← agent.asStr)
  guard (agentId ≠ "")
  some { agentId, values := Json.insertFields (((row.get? "values").bind Json.asObject).getD []) [] }

/-- `parse_reports`. -/
def parseReports (raw : Json) : List AgentReport := (raw.asArray.getD []).filterMap parseReport

def AgentReport.selected (fields : List String) (report : AgentReport) : Json :=
  Json.ofFields (fields.map fun field => (field, (report.values.lookup field).getD .null))

/-- A row of another group than the agreed one; its `deviation` is `outlier_group`. -/
structure Outlier where
  agent : String
  values : Json

/-- What `evaluate_consensus` answers when it found a leading group. -/
structure Decision where
  consensusReached : Bool
  confidence : ℚ
  threshold : ℚ
  sampleSize : ℕ
  agreementCount : ℕ
  agreedValue : Json
  outliers : List Outlier
  fields : List String

/-- What `evaluate_consensus` answers; the first two with their `reason_code`, no consensus, the
confidence zero and no outliers. -/
inductive Consensus where
  | noReports
  | groupingFailed
  | decided (decision : Decision)

/-- The agent and the selected values of each report. -/
def consensusRows (fields : List String) (reports : List AgentReport) : List (String × Json) :=
  reports.map fun report => (report.agentId, report.selected fields)

/-- The fingerprint a row is grouped under. -/
def Host.fingerprint (host : Host) (row : String × Json) : String := host.digest row.2

/-- `evaluate_consensus`. -/
def evaluateConsensus (host : Host) (round : ℚ → ℚ) (reports : List AgentReport)
    (fields : List String) (threshold : ℚ) : Consensus :=
  if reports.isEmpty then .noReports
  else
    let groups := (Groups.groupBy host.fingerprint (consensusRows fields reports)).toList
    match Groups.largest groups with
    | none => .groupingFailed
    | some (leaderFp, leaderGroup) =>
      let confidence := round (leaderGroup.length / reports.length)
      .decided
        { consensusReached := decide (threshold ≤ confidence)
          confidence
          threshold
          sampleSize := reports.length
          agreementCount := leaderGroup.length
          agreedValue := (leaderGroup.head?.map Prod.snd).getD (.obj [])
          outliers := (groups.filter (·.1 ≠ leaderFp)).flatMap fun group =>
            group.2.map fun row => { agent := row.1, values := row.2 }
          fields }

/-! ## Reports and agents of a value -/

/-- The reports with a selected value. -/
def reportsWith (fields : List String) (reports : List AgentReport) (value : Json) :
    List AgentReport :=
  reports.filter (·.selected fields = value)

/-- The distinct agents of reports. -/
def agentsOf (reports : List AgentReport) : List String := (reports.map AgentReport.agentId).dedup

/-- Two reports whose fingerprints agree select the same values. -/
def Host.Fingerprints (host : Host) (fields : List String) (reports : List AgentReport) : Prop :=
  ∀ report ∈ reports, ∀ other ∈ reports,
    host.digest (report.selected fields) = host.digest (other.selected fields) →
      report.selected fields = other.selected fields

instance (host : Host) (fields : List String) (reports : List AgentReport) :
    Decidable (host.Fingerprints fields reports) :=
  inferInstanceAs (Decidable (∀ report ∈ reports, _))

variable {host : Host} {round : ℚ → ℚ} {reports reports' : List AgentReport} {fields : List String}
  {threshold : ℚ} {value : Json}

/-- Reports of two values are different reports. -/
theorem length_reportsWith_add_le {other : Json} (hne : value ≠ other) :
    (reportsWith fields reports value).length + (reportsWith fields reports other).length ≤
      reports.length := by
  induction reports with
  | nil => exact Nat.le_refl _
  | cons report reports ih =>
    rw [reportsWith, reportsWith, List.filter_cons, List.filter_cons, List.length_cons]
    rw [reportsWith, reportsWith] at ih
    by_cases hvalue : report.selected fields = value
    · have hother : report.selected fields ≠ other := fun h => hne (hvalue.symm.trans h)
      rw [if_pos (decide_eq_true hvalue), if_neg (by simpa using hother), List.length_cons]
      omega
    · rw [if_neg (by simpa using hvalue)]
      split
      · rw [List.length_cons]
        omega
      · omega

/-- Where no agent reports twice, the agents of a value are as many as its reports. -/
theorem length_agentsOf (hnodup : (reports.map AgentReport.agentId).Nodup) :
    (agentsOf (reportsWith fields reports value)).length =
      (reportsWith fields reports value).length := by
  have hsub : ((reportsWith fields reports value).map AgentReport.agentId).Nodup :=
    hnodup.sublist (List.filter_sublist.map _)
  rw [agentsOf, hsub.dedup, List.length_map]

/-- The rows of a report's fingerprint are the rows of its selected values. -/
theorem filter_consensusRows (hdigest : host.Fingerprints fields reports) {report : AgentReport}
    (hreport : report ∈ reports) :
    (consensusRows fields reports).filter (host.fingerprint · = host.digest (report.selected fields)) =
      consensusRows fields (reportsWith fields reports (report.selected fields)) := by
  rw [consensusRows, List.filter_map, consensusRows, reportsWith]
  congr 1
  refine List.filter_congr fun other hother => ?_
  refine decide_eq_decide.mpr ⟨fun h => hdigest other hother report hreport h, fun h => ?_⟩
  exact congrArg host.digest h

/-! ## The leading group -/

/-- The leading group is that of a value that no value has more reports than. -/
theorem leader_spec (hdigest : host.Fingerprints fields reports) (hne : reports ≠ []) :
    ∃ report ∈ reports,
      Groups.largest (Groups.groupBy host.fingerprint (consensusRows fields reports)).toList =
        some (host.digest (report.selected fields),
          consensusRows fields (reportsWith fields reports (report.selected fields))) ∧
      ∀ value, (reportsWith fields reports value).length ≤
        (reportsWith fields reports (report.selected fields)).length := by
  have hgroup {report : AgentReport} (hreport : report ∈ reports) :
      (host.digest (report.selected fields),
          consensusRows fields (reportsWith fields reports (report.selected fields))) ∈
        (Groups.groupBy host.fingerprint (consensusRows fields reports)).toList := by
    refine Groups.mem_toList_groupBy.mpr ⟨(filter_consensusRows hdigest hreport).symm, ?_⟩
    have hmem : report ∈ reportsWith fields reports (report.selected fields) :=
      List.mem_filter.mpr ⟨hreport, decide_eq_true rfl⟩
    exact List.ne_nil_of_mem (List.mem_map_of_mem hmem)
  cases hlargest :
      Groups.largest (Groups.groupBy host.fingerprint (consensusRows fields reports)).toList with
  | none =>
    obtain ⟨report, hreport⟩ := List.exists_mem_of_ne_nil reports hne
    have hempty := Groups.largest_eq_none.mp hlargest
    exact absurd (hgroup hreport) (hempty ▸ List.not_mem_nil)
  | some leader =>
    obtain ⟨leaderFp, leaderGroup⟩ := leader
    obtain ⟨hmem, hmax⟩ := Groups.largest_spec hlargest
    obtain ⟨hrows, hrowsne⟩ := Groups.mem_toList_groupBy.mp hmem
    obtain ⟨row, hrow⟩ := List.exists_mem_of_ne_nil leaderGroup hrowsne
    rw [hrows] at hrow
    obtain ⟨hrow, hkey⟩ := List.mem_filter.mp hrow
    obtain ⟨report, hreport, rfl⟩ := List.mem_map.mp hrow
    have hkey : host.digest (report.selected fields) = leaderFp := of_decide_eq_true hkey
    subst hkey
    rw [filter_consensusRows hdigest hreport] at hrows
    refine ⟨report, hreport, by rw [hrows], fun value => ?_⟩
    by_cases hvalue : reportsWith fields reports value = []
    · rw [hvalue]
      exact Nat.zero_le _
    · obtain ⟨other, hother⟩ := List.exists_mem_of_ne_nil _ hvalue
      obtain ⟨hreported, hselected⟩ := List.mem_filter.mp hother
      obtain rfl : other.selected fields = value := of_decide_eq_true hselected
      have hle := hmax _ (hgroup hreported)
      rw [hrows] at hle
      simpa [consensusRows] using hle

/-- The rows outside a group are the rows less the group. -/
theorem length_outliers {groups : List (String × List (String × Json))}
    (hnodup : (groups.map Prod.fst).Nodup) {leader : String × List (String × Json)}
    (hleader : leader ∈ groups) :
    leader.2.length + ((groups.filter (·.1 ≠ leader.1)).flatMap fun group =>
      group.2.map fun row => Outlier.mk row.1 row.2).length =
        (groups.map fun group => group.2.length).sum := by
  induction groups with
  | nil => cases hleader
  | cons first groups ih =>
    rw [List.map_cons] at hnodup
    obtain ⟨hfirst, hrest⟩ := List.nodup_cons.mp hnodup
    rw [List.map_cons, List.sum_cons]
    obtain rfl | hleader := List.mem_cons.mp hleader
    · have hall : groups.filter (·.1 ≠ leader.1) = groups := by
        refine List.filter_eq_self.mpr fun group hgroup => decide_eq_true fun hkey => hfirst ?_
        exact List.mem_map.mpr ⟨group, hgroup, hkey⟩
      rw [List.filter_cons_of_neg (by simp), hall, List.length_flatMap]
      simp
    · have hne : first.1 ≠ leader.1 := fun hkey => hfirst (List.mem_map.mpr ⟨leader, hleader, hkey.symm⟩)
      rw [List.filter_cons_of_pos (by simpa using hne), List.flatMap_cons, List.length_append,
        List.length_map, ← ih hrest hleader]
      omega

/-- What a decision over reports says: the agreed value is one with the most reports. -/
theorem evaluateConsensus_spec (hdigest : host.Fingerprints fields reports) (hne : reports ≠ []) :
    ∃ decision, evaluateConsensus host round reports fields threshold = .decided decision ∧
      (∃ report ∈ reports, decision.agreedValue = report.selected fields) ∧
      decision.agreementCount = (reportsWith fields reports decision.agreedValue).length ∧
      (∀ value, (reportsWith fields reports value).length ≤ decision.agreementCount) ∧
      decision.agreementCount + decision.outliers.length = decision.sampleSize ∧
      decision.sampleSize = reports.length ∧
      decision.consensusReached =
        decide (threshold ≤ round (decision.agreementCount / reports.length)) ∧
      (Groups.largest (Groups.groupBy host.fingerprint (consensusRows fields reports)).toList).map
          (fun group => (group.1, group.2.length)) =
        some (host.digest decision.agreedValue, decision.agreementCount) := by
  obtain ⟨report, hreport, hlargest, hmax⟩ := leader_spec hdigest hne
  have hempty : reports.isEmpty = false := by
    rw [List.isEmpty_eq_false_iff]
    exact hne
  have hmem : report ∈ reportsWith fields reports (report.selected fields) :=
    List.mem_filter.mpr ⟨hreport, decide_eq_true rfl⟩
  have hagreed : ((consensusRows fields (reportsWith fields reports
      (report.selected fields))).head?.map Prod.snd).getD (.obj []) = report.selected fields := by
    cases hwith : reportsWith fields reports (report.selected fields) with
    | nil => exact absurd hmem (hwith ▸ List.not_mem_nil)
    | cons first rest =>
      have hfirst : first ∈ reportsWith fields reports (report.selected fields) := by
        rw [hwith]
        exact List.mem_cons_self
      exact of_decide_eq_true (List.mem_filter.mp hfirst).2
  have hlength : (consensusRows fields (reportsWith fields reports
      (report.selected fields))).length = (reportsWith fields reports (report.selected fields)).length :=
    List.length_map _
  have hsum := length_outliers Groups.nodup_keys_groupBy (Groups.largest_spec hlargest).1
  rw [Groups.sum_length] at hsum
  rw [evaluateConsensus, hempty, if_neg Bool.false_ne_true]
  dsimp only
  rw [hlargest]
  refine ⟨_, rfl, ?_⟩
  refine ⟨⟨report, hreport, hagreed⟩, ?_, ?_, ?_, rfl, ?_, ?_⟩
  · rw [hagreed, hlength]
  · rw [hlength]
    exact hmax
  · exact hsum.trans (List.length_map _)
  · rw [hlength]
  · rw [hagreed]
    rfl

/-- A share above one half is the share of more than half the reports. -/
theorem lt_of_share (hround : Monotone round) (hhalf : round (1 / 2) = 1 / 2)
    (hthreshold : 1 / 2 < threshold) {count total : ℕ} (htotal : 0 < total)
    (h : threshold ≤ round (count / total)) : total < 2 * count := by
  by_contra hle
  have hle : 2 * count ≤ total := Nat.le_of_not_lt hle
  have hshare : (count / total : ℚ) ≤ 1 / 2 := by
    rw [div_le_div_iff₀ (by exact_mod_cast htotal) (by norm_num)]
    have hcast : ((2 * count : ℕ) : ℚ) ≤ (total : ℕ) := by exact_mod_cast hle
    push_cast at hcast
    linarith
  have hrounded := hround hshare
  rw [hhalf] at hrounded
  linarith

/-! ## Reports are what is counted -/

/-- The consensus of reports is the value that more than half of them select, in whatever order they
come. -/
theorem consensus_spec (hne : reports ≠ []) (hthreshold : 1 / 2 < threshold)
    (hround : Monotone round) (hhalf : round (1 / 2) = 1 / 2)
    (hdigest : host.Fingerprints fields reports) :
    ∃ decision, evaluateConsensus host round reports fields threshold = .decided decision ∧
      (decision.consensusReached = true ↔ ∃ value,
        threshold ≤ round ((reportsWith fields reports value).length / reports.length)) ∧
      (∀ value, threshold ≤ round ((reportsWith fields reports value).length / reports.length) →
        decision.agreedValue = value) ∧
      decision.agreementCount = (reportsWith fields reports decision.agreedValue).length ∧
      decision.agreementCount + decision.outliers.length = decision.sampleSize ∧
      decision.sampleSize = reports.length ∧
      ∀ reports', reports.Perm reports' → ∃ decision',
        evaluateConsensus host round reports' fields threshold = .decided decision' ∧
        decision'.consensusReached = decision.consensusReached ∧
        decision'.agreedValue = decision.agreedValue ∧
        decision'.agreementCount = decision.agreementCount := by
  obtain ⟨decision, hdecided, ⟨report, hreport, hagreed⟩, hcount, hmax, houtliers, hsample, hreached,
    hlargest⟩ := @evaluateConsensus_spec host round reports fields threshold hdigest hne
  have htotal : 0 < reports.length := List.length_pos_of_ne_nil hne
  refine ⟨decision, hdecided, ?_, ?_, hcount, houtliers, hsample, ?_⟩
  · rw [hreached, decide_eq_true_iff]
    constructor
    · intro h
      exact ⟨decision.agreedValue, by rwa [← hcount]⟩
    · rintro ⟨value, h⟩
      refine h.trans (hround (div_le_div_of_nonneg_right ?_ (Nat.cast_nonneg _)))
      exact_mod_cast hmax value
  · -- two values cannot both have more than half of the reports
    intro value h
    by_contra hother
    have hmost := lt_of_share hround hhalf hthreshold htotal h
    have hle := hmax value
    have hsum := @length_reportsWith_add_le reports fields decision.agreedValue value hother
    omega
  · intro reports' hperm
    have hdigest' : host.Fingerprints fields reports' := fun r hr r' hr' =>
      hdigest r (hperm.mem_iff.mpr hr) r' (hperm.mem_iff.mpr hr')
    have hne' : reports' ≠ [] := fun h => hne (List.perm_nil.mp (h ▸ hperm))
    obtain ⟨decision', hdecided', ⟨report', hreport', hagreed'⟩, -, -, -, -, hreached', hlargest'⟩ :=
      @evaluateConsensus_spec host round reports' fields threshold hdigest' hne'
    have hrows : (consensusRows fields reports).Perm (consensusRows fields reports') := hperm.map _
    rw [Groups.largest_perm hrows, hlargest', Option.some.injEq, Prod.mk.injEq] at hlargest
    obtain ⟨hfingerprint, hcounts⟩ := hlargest
    refine ⟨decision', hdecided', ?_, ?_, hcounts⟩
    · rw [hreached', hreached, hcounts, hperm.length_eq]
    · rw [hagreed, hagreed'] at hfingerprint
      rw [hagreed, hagreed']
      exact hdigest report' (hperm.mem_iff.mpr hreport') report hreport hfingerprint

/-- **The agreed value is the one whose reports are the threshold's share of all reports.** The
order of the reports makes no difference, and where no agent reports twice the reports of a value are
its distinct agents. -/
theorem consensus_counts_reports {raw : Json} (hne : parseReports raw ≠ [])
    (hthreshold : 1 / 2 < threshold) (hround : Monotone round) (hhalf : round (1 / 2) = 1 / 2)
    (hdigest : host.Fingerprints fields (parseReports raw)) :
    ∃ decision, evaluateConsensus host round (parseReports raw) fields threshold = .decided decision ∧
      (decision.consensusReached = true ↔ ∃ value, threshold ≤
        round ((reportsWith fields (parseReports raw) value).length / (parseReports raw).length)) ∧
      (∀ value, threshold ≤
          round ((reportsWith fields (parseReports raw) value).length / (parseReports raw).length) →
        decision.agreedValue = value) ∧
      decision.agreementCount =
        (reportsWith fields (parseReports raw) decision.agreedValue).length ∧
      decision.agreementCount + decision.outliers.length = decision.sampleSize ∧
      decision.sampleSize = (parseReports raw).length ∧
      (∀ reports', (parseReports raw).Perm reports' → ∃ decision',
        evaluateConsensus host round reports' fields threshold = .decided decision' ∧
        decision'.consensusReached = decision.consensusReached ∧
        decision'.agreedValue = decision.agreedValue ∧
        decision'.agreementCount = decision.agreementCount) ∧
      (((parseReports raw).map AgentReport.agentId).Nodup →
        (agentsOf (parseReports raw)).length = (parseReports raw).length ∧
        ∀ value, (agentsOf (reportsWith fields (parseReports raw) value)).length =
          (reportsWith fields (parseReports raw) value).length) := by
  obtain ⟨decision, hdecided, hreached, hagreed, hcount, houtliers, hsample, hperm⟩ :=
    consensus_spec hne hthreshold hround hhalf hdigest
  refine ⟨decision, hdecided, hreached, hagreed, hcount, houtliers, hsample, hperm, ?_⟩
  intro hnodup
  refine ⟨?_, fun value => length_agentsOf hnodup⟩
  rw [agentsOf, hnodup.dedup, List.length_map]

def reportRow (agent : String) (size : ℕ) : Json :=
  Json.ofFields [("agent_id", .str agent), ("values", Json.ofFields [("size", Json.ofNat size)])]

/-- Two reports of one agent, the second under a padded name, and one of another. -/
def repeatedReports : Json := .arr [reportRow "a" 1, reportRow " a " 1, reportRow "b" 2]

/-- A process whose receipt hash tells the sizes one and two apart. -/
def sizesHost : Host where
  digest seed := if seed = Json.ofFields [("size", Json.ofNat 1)] then "1" else "2"
  printFloat _ := "0.5"
  displayFloat _ := "0.5"

theorem consensus_counts_reports_of_two :
    ∃ decision, evaluateConsensus sizesHost id (parseReports repeatedReports) ["size"] (3 / 5) =
        .decided decision ∧
      decision.agreementCount + decision.outliers.length = decision.sampleSize := by
  have hne : parseReports repeatedReports ≠ [] := by decide
  have hdigest : sizesHost.Fingerprints ["size"] (parseReports repeatedReports) := by decide
  have hthreshold : (1 / 2 : ℚ) < 3 / 5 := by norm_num
  obtain ⟨decision, hdecided, -, -, -, hsum, -⟩ :=
    consensus_counts_reports hne hthreshold monotone_id rfl hdigest
  exact ⟨decision, hdecided, hsum⟩

/-- One of two agents reports twice and is taken for a consensus, though one agent is less than three
fifths of two. -/
theorem repeated_agent_reached :
    sizesHost.Fingerprints ["size"] (parseReports repeatedReports) ∧
      (∃ decision, evaluateConsensus sizesHost id (parseReports repeatedReports) ["size"] (3 / 5) =
        .decided decision ∧ decision.consensusReached = true) ∧
      ∀ value, ((agentsOf (reportsWith ["size"] (parseReports repeatedReports) value)).length : ℚ) <
        3 / 5 * (agentsOf (parseReports repeatedReports)).length := by
  have hdigest : sizesHost.Fingerprints ["size"] (parseReports repeatedReports) := by decide
  refine ⟨hdigest, ?_, ?_⟩
  · have hne : parseReports repeatedReports ≠ [] := by decide
    have hthreshold : (1 / 2 : ℚ) < 3 / 5 := by norm_num
    obtain ⟨decision, hdecided, hreached, -⟩ :=
      consensus_spec hne hthreshold monotone_id rfl hdigest
    have htwo : (reportsWith ["size"] (parseReports repeatedReports)
        (Json.ofFields [("size", Json.ofNat 1)])).length = 2 := by decide
    have hthree : (parseReports repeatedReports).length = 3 := by decide
    refine ⟨decision, hdecided, hreached.mpr ⟨Json.ofFields [("size", Json.ofNat 1)], ?_⟩⟩
    rw [htwo, hthree]
    norm_num
  · intro value
    have hagents : (agentsOf (parseReports repeatedReports)).length = 2 := by decide
    have hone : (agentsOf (reportsWith ["size"] (parseReports repeatedReports) value)).length ≤ 1 := by
      by_cases h₁ : Json.ofFields [("size", Json.ofNat 1)] = value
      · subst h₁
        decide
      · by_cases h₂ : Json.ofFields [("size", Json.ofNat 2)] = value
        · subst h₂
          decide
        · have hselected : (parseReports repeatedReports).map (AgentReport.selected ["size"]) =
              [Json.ofFields [("size", Json.ofNat 1)], Json.ofFields [("size", Json.ofNat 1)],
                Json.ofFields [("size", Json.ofNat 2)]] := by decide
          have hnone : reportsWith ["size"] (parseReports repeatedReports) value = [] := by
            refine List.filter_eq_nil_iff.mpr fun report hreport => ?_
            have hmem : report.selected ["size"] ∈ _ := List.mem_map.mpr ⟨report, hreport, rfl⟩
            rw [hselected] at hmem
            intro hvalue
            obtain rfl : report.selected ["size"] = value := of_decide_eq_true hvalue
            simp only [List.mem_cons, List.not_mem_nil, or_false] at hmem
            obtain h | h | h := hmem
            · exact h₁ h.symm
            · exact h₁ h.symm
            · exact h₂ h.symm
          rw [hnone]
          exact Nat.zero_le _
    have hcast : ((agentsOf (reportsWith ["size"] (parseReports repeatedReports) value)).length : ℚ) ≤
        1 := by exact_mod_cast hone
    rw [hagents]
    norm_num
    linarith

end Protheus.Swarm
