import Protheus.F64
import Protheus.Lib.Quotas
import Protheus.Lib.Runs

/-!
The tier reservations of `core/layer2/execution/src/autoscale.rs`: which directive tier
the next attempt has to go to, so that the first two tiers get their shares of the day.

Finite floats are the exact rationals they stand for, and none is rounded.  In a run that
follows the reservations, whatever the attempts do that none is made for, tier 1 has its
share rounded up after every attempt and tier 2 its share rounded down (`shares_kept`).
-/

namespace Protheus.Autoscale

open Protheus.Quotas
open Protheus.Runs

/-- A float, or `fallback` where it is not finite. -/
def finiteOr (fallback : ℚ) : F64 → ℚ
  | .finite q => q
  | _ => fallback

/-- `clamp_ratio`. -/
def clampRatio : F64 → ℚ
  | .finite q => RustStd.clamp q 0 1
  | _ => 0

/-! ## The share of a tier -/

/-- `DirectiveTierMinShareInput`. -/
structure DirectiveTierMinShareInput where
  tier : Option F64
  fallback : Option F64
  t1MinShare : F64
  t2MinShare : F64

/-- `compute_directive_tier_min_share`. -/
def computeDirectiveTierMinShare (input : DirectiveTierMinShareInput) : ℚ :=
  let fallback := finiteOr 3 (input.fallback.getD .nan)
  let raw := finiteOr fallback (input.tier.getD .nan)
  let normalizedTier := max (RustStd.round raw : ℚ) 1
  if normalizedTier ≤ 1 then clampRatio input.t1MinShare
  else if normalizedTier ≤ 2 then clampRatio input.t2MinShare
  else 0

/-! ## The reservation -/

/-- `DirectiveTierReservationNeedInput`. -/
structure DirectiveTierReservationNeedInput where
  enabled : Bool
  available : Bool
  attemptsToday : F64
  tier1Attempts : F64
  tier2Attempts : F64
  tier1MinShare : F64
  tier2MinShare : F64
  candidateTiers : List F64

/-- `DirectiveTierReservationNeedOutput`. -/
structure DirectiveTierReservationNeedOutput where
  reserve : Bool
  tier : Option ℕ
  minShare : Option ℚ
  attemptsToday : ℚ
  currentTierAttempts : Option ℚ
  requiredAfterNext : Option ℚ
  candidateCount : Option ℕ
  deriving DecidableEq

/-- A count of the input: what is not finite or negative counts as zero. -/
def normalizeCount (count : F64) : ℚ := max (finiteOr 0 count) 0

/-- `normalize_tier`. -/
def normalizeTier (fallback : ℚ) (raw : F64) : ℚ := max (RustStd.round (finiteOr fallback raw) : ℚ) 1

/-- The answer where no tier is reserved. -/
def noReservation (attemptsToday : ℚ) : DirectiveTierReservationNeedOutput where
  reserve := false
  tier := none
  minShare := none
  attemptsToday
  currentTierAttempts := none
  requiredAfterNext := none
  candidateCount := none

/-- The loop over the two tiers that have a share. -/
def reserveTier (input : DirectiveTierReservationNeedInput) :
    List ℕ → DirectiveTierReservationNeedOutput
  | [] => noReservation (normalizeCount input.attemptsToday)
  | tier :: rest =>
    let attemptsToday := normalizeCount input.attemptsToday
    let minShare := clampRatio (if tier ≤ 1 then input.tier1MinShare else input.tier2MinShare)
    let current := normalizeCount (if tier ≤ 1 then input.tier1Attempts else input.tier2Attempts)
    let requiredAfterNext : ℚ := ⌈(attemptsToday + 1) * minShare⌉
    if minShare ≤ 0 then reserveTier input rest
    else if requiredAfterNext ≤ current then reserveTier input rest
    else
      { reserve := true
        tier := some tier
        minShare := some minShare
        attemptsToday
        currentTierAttempts := some current
        requiredAfterNext := some requiredAfterNext
        candidateCount := some <| (input.candidateTiers.map (normalizeTier 99)).countP
          fun value : ℚ => |value - tier| < 1 / 1000000 }

/-- `compute_directive_tier_reservation_need`. -/
def computeDirectiveTierReservationNeed (input : DirectiveTierReservationNeedInput) :
    DirectiveTierReservationNeedOutput :=
  if !input.enabled || !input.available then noReservation (normalizeCount input.attemptsToday)
  else reserveTier input [1, 2]

/-! ## Runs of attempts -/

/-- An attempt: the tier it goes to, and the tiers there were candidates for. -/
structure Attempt where
  tier : ℕ
  candidateTiers : List F64

/-- The question put before an attempt, with the counts of the attempts so far. -/
def reservationInput (share₁ share₂ : ℚ) (history : List ℕ) (candidateTiers : List F64) :
    DirectiveTierReservationNeedInput where
  enabled := true
  available := true
  attemptsToday := .finite history.length
  tier1Attempts := .finite (history.count 1)
  tier2Attempts := .finite (history.count 2)
  tier1MinShare := .finite share₁
  tier2MinShare := .finite share₂
  candidateTiers

def attempted (history : List ℕ) (attempt : Attempt) : List ℕ := history ++ [attempt.tier]

/-- The attempt goes to the tier that is reserved, if one is. -/
def Heeds (share₁ share₂ : ℚ) (history : List ℕ) (attempt : Attempt) : Prop :=
  let need := computeDirectiveTierReservationNeed
    (reservationInput share₁ share₂ history attempt.candidateTiers)
  need.reserve = true → need.tier = some attempt.tier

instance (share₁ share₂ : ℚ) (history : List ℕ) (attempt : Attempt) :
    Decidable (Heeds share₁ share₂ history attempt) :=
  inferInstanceAs (Decidable (_ → _))

section Shares

variable {share₁ share₂ : ℚ}

/-- The share the reservation reads for a tier is the share of that tier. -/
theorem clampRatio_eq_minShare (input : DirectiveTierReservationNeedInput) :
    clampRatio input.tier1MinShare = computeDirectiveTierMinShare
        ⟨some (.finite 1), some (.finite 3), input.tier1MinShare, input.tier2MinShare⟩ ∧
      clampRatio input.tier2MinShare = computeDirectiveTierMinShare
        ⟨some (.finite 2), some (.finite 3), input.tier1MinShare, input.tier2MinShare⟩ := by
  have hround₁ : RustStd.round 1 = 1 := by decide +kernel
  have hround₂ : RustStd.round 2 = 2 := by decide +kernel
  constructor <;> simp [computeDirectiveTierMinShare, finiteOr, hround₁, hround₂]

theorem clampRatio_of_unit {q : ℚ} (h0 : 0 ≤ q) (h1 : q ≤ 1) : clampRatio (.finite q) = q := by
  rw [clampRatio, RustStd.clamp, if_neg (not_lt.mpr h0), if_neg (not_lt.mpr h1)]

theorem normalizeCount_natCast (n : ℕ) : normalizeCount (.finite n) = n := by
  rw [normalizeCount, finiteOr, max_eq_left (Nat.cast_nonneg n)]

/-- A tier falls short when the next attempt would leave it with less than it is owed. -/
def Short (share : ℚ) (history : List ℕ) (tier : ℕ) : Prop :=
  (history.count tier : ℤ) < owed (history.length + 1) share

theorem not_short_of_nonpos {share : ℚ} (h : share ≤ 0) (history : List ℕ) (tier : ℕ) :
    ¬ Short share history tier := by
  have hmul : ((history.length + 1 : ℕ) : ℚ) * share ≤ 0 :=
    mul_nonpos_of_nonneg_of_nonpos (Nat.cast_nonneg _) h
  have howed : owed (history.length + 1) share ≤ 0 := Int.ceil_le.mpr (by simpa using hmul)
  rw [Short]
  omega

def tierShare (share₁ share₂ : ℚ) (tier : ℕ) : ℚ := if tier ≤ 1 then share₁ else share₂

section Loop

variable (h₁ : 0 ≤ share₁) (h₁' : share₁ ≤ 1) (h₂ : 0 ≤ share₂) (h₂' : share₂ ≤ 1)
  (history : List ℕ) (candidateTiers : List F64) (rest : List ℕ)
include h₁ h₁' h₂ h₂'

/-- What the loop makes of a tier: it reserves one that falls short and passes over the others. -/
theorem reserveTier_cons {tier : ℕ} (htier : tier = 1 ∨ tier = 2) :
    let input := reservationInput share₁ share₂ history candidateTiers
    (Short (tierShare share₁ share₂ tier) history tier →
      (reserveTier input (tier :: rest)).reserve = true ∧
        (reserveTier input (tier :: rest)).tier = some tier) ∧
    (¬ Short (tierShare share₁ share₂ tier) history tier →
      reserveTier input (tier :: rest) = reserveTier input rest) := by
  have hshare : clampRatio (if tier ≤ 1 then (F64.finite share₁) else .finite share₂) =
      tierShare share₁ share₂ tier := by
    rcases htier with rfl | rfl
    · exact clampRatio_of_unit h₁ h₁'
    · exact clampRatio_of_unit h₂ h₂'
  have hcount : (if tier ≤ 1 then (F64.finite (history.count 1)) else .finite (history.count 2)) =
      .finite (history.count tier) := by
    rcases htier with rfl | rfl <;> rfl
  have hrequired : ((⌈((history.length : ℚ) + 1) * tierShare share₁ share₂ tier⌉ : ℤ) : ℚ) ≤
      (history.count tier : ℕ) ↔ ¬ Short (tierShare share₁ share₂ tier) history tier := by
    rw [Short, owed, not_lt, ← Int.cast_natCast (history.count tier), Int.cast_le]
    push_cast
    exact Iff.rfl
  simp only [reserveTier, reservationInput, hshare, hcount, normalizeCount_natCast]
  constructor
  · intro hshort
    have hpos : ¬ tierShare share₁ share₂ tier ≤ 0 := fun hle =>
      not_short_of_nonpos hle history tier hshort
    rw [if_neg hpos, if_neg (mt hrequired.mp (not_not.mpr hshort))]
    exact ⟨rfl, rfl⟩
  · intro hnot
    rw [if_pos (hrequired.mpr hnot), ite_self]

/-- **The reservation** is for tier 1 where it falls short, else for tier 2 where that does. -/
theorem reservation_spec :
    let need := computeDirectiveTierReservationNeed
      (reservationInput share₁ share₂ history candidateTiers)
    (Short share₁ history 1 → need.reserve = true ∧ need.tier = some 1) ∧
    (¬ Short share₁ history 1 → Short share₂ history 2 →
      need.reserve = true ∧ need.tier = some 2) := by
  have hfirst := reserveTier_cons h₁ h₁' h₂ h₂' history candidateTiers [2] (.inl rfl)
  have hsecond := reserveTier_cons h₁ h₁' h₂ h₂' history candidateTiers [] (.inr rfl)
  refine ⟨hfirst.1, fun hnot hshort => ?_⟩
  have hskip : computeDirectiveTierReservationNeed
      (reservationInput share₁ share₂ history candidateTiers) =
        reserveTier (reservationInput share₁ share₂ history candidateTiers) [2] := hfirst.2 hnot
  rw [hskip]
  exact hsecond.1 hshort

end Loop

/-- The counts of a history keep both shares. -/
def Kept (share₁ share₂ : ℚ) (history : List ℕ) : Prop :=
  Served share₁ share₂ history.length (history.count 1) (history.count 2)

/-- **The step.**  An attempt that heeds the reservation keeps the shares. -/
theorem kept_attempted (h₁ : 0 ≤ share₁) (h₂ : 0 ≤ share₂) (hsum : share₁ + share₂ ≤ 1)
    {history : List ℕ} {attempt : Attempt} (h : Kept share₁ share₂ history)
    (hheeds : Heeds share₁ share₂ history attempt) :
    Kept share₁ share₂ (attempted history attempt) := by
  have h₁' : share₁ ≤ 1 := by linarith
  have h₂' : share₂ ≤ 1 := by linarith
  obtain ⟨hfirst, hsecond⟩ :=
    reservation_spec h₁ h₁' h₂ h₂' history attempt.candidateTiers
  have hcount : ∀ tier, (attempted history attempt).count tier =
      history.count tier + if attempt.tier = tier then 1 else 0 := by
    intro tier
    rw [attempted, List.count_append, List.count_singleton]
    simp
  rw [Kept, hcount, hcount, attempted, List.length_append, List.length_singleton]
  by_cases hshort₁ : Short share₁ history 1
  · obtain ⟨hreserve, htier⟩ := hfirst hshort₁
    have heq : attempt.tier = 1 := Option.some.inj ((hheeds hreserve).symm.trans htier)
    rw [heq]
    exact h.serve_first h₁' hsum hshort₁
  · by_cases hshort₂ : Short share₂ history 2
    · obtain ⟨hreserve, htier⟩ := hsecond hshort₁ hshort₂
      have heq : attempt.tier = 2 := Option.some.inj ((hheeds hreserve).symm.trans htier)
      rw [heq]
      exact h.serve_second h₁ h₂' hsum (not_lt.mp hshort₁)
    · exact Served.serve_any (not_lt.mp hshort₁) (not_lt.mp hshort₂) (Nat.le_add_right _ _)
        (Nat.le_add_right _ _)

theorem length_before (attempts : List Attempt) {n : ℕ} (hn : n ≤ attempts.length) :
    (before attempted [] attempts n).length = n := by
  induction n with
  | zero => rfl
  | succ n ih =>
    have hsome : attempts[n]? = some attempts[n] := List.getElem?_eq_getElem hn
    rw [before_succ_of_some attempted hsome, attempted, List.length_append, ih (by omega),
      List.length_singleton]

/-- **Tier reservations guarantee the shares.**  In a run of attempts each of which goes to
the tier that is reserved, if one is, tier 1 has had its share of every `n` attempts rounded
up, and tier 2 its share rounded down. -/
theorem shares_kept (h₁ : 0 ≤ share₁) (h₂ : 0 ≤ share₂) (hsum : share₁ + share₂ ≤ 1)
    {attempts : List Attempt} (hmeets : Meets attempted (Heeds share₁ share₂) [] attempts) {n : ℕ}
    (hn : n ≤ attempts.length) :
    ⌈(n : ℚ) * share₁⌉ ≤ (before attempted [] attempts n).count 1 ∧
      ⌊(n : ℚ) * share₂⌋ ≤ (before attempted [] attempts n).count 2 := by
  have hkept := hmeets.before (fun _ _ h hheeds => kept_attempted h₁ h₂ hsum h hheeds)
    (show Kept share₁ share₂ [] from Served.zero) n
  rw [Kept, length_before attempts hn] at hkept
  exact ⟨hkept.first_le, hkept.floor_le⟩

end Shares

/-- Five attempts under shares of one half and two fifths. -/
def fiveAttempts : List Attempt :=
  [1, 2, 1, 2, 1].map fun tier => ⟨tier, [.finite 1, .finite 2, .finite 3]⟩

theorem fiveAttempts_shares :
    ⌈((5 : ℕ) : ℚ) * (1 / 2)⌉ ≤ (before attempted [] fiveAttempts 5).count 1 ∧
      ⌊((5 : ℕ) : ℚ) * (2 / 5)⌋ ≤ (before attempted [] fiveAttempts 5).count 2 :=
  shares_kept (by norm_num) (by norm_num) (by norm_num) (by decide +kernel) (by decide)

end Protheus.Autoscale
