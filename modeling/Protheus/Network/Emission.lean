import Mathlib.Tactic.Linarith
import Protheus.Network.TokenLedger

/-!
The emission curve of `network_protocol_run.rs`, with issuance taken as an exact rational.

The epoch of a height is cast to 32 bits before it is an exponent, and the height of the next
halving is a product of 64 bit numbers.  The curve halves as it should (`Halves`) while the
epoch is an exponent and the product fits (`halves_iff`).
-/

namespace Protheus.Network.TokenLedger

/-- What `emission` works out. -/
structure Curve where
  epoch : UInt64
  issuance : ℚ
  nextHalvingHeight : UInt64

def curve (height interval : UInt64) (initial : ℚ) : Curve where
  epoch := height / interval
  issuance := initial / 2 ^ asI32 (height / interval)
  nextHalvingHeight := (height / interval + 1) * interval

/-- `emission` under a gate that lets it through, for an interval that is not zero and an
amount that is not negative. -/
theorem emission_eq_curve {host : Host} {env : Surroundings} {files : Files} {height interval : UInt64}
    {initial : ℚ} (hround : host.round = .finite)
    (hgate : env.actionAllowed "tokenomics:emission" = true) (hinterval : 1 ≤ interval)
    (hinitial : 0 ≤ initial) :
    let c := curve height interval initial
    emission host env files (some height) (some interval) (some (.finite initial)) =
      some {
        ledger := Json.insertField "emission"
          (Json.ofFields
            [("halving_interval", .num (.posInt interval)), ("initial_issuance", Json.ofRat initial),
              ("epoch", .num (.posInt c.epoch)), ("issuance_per_epoch", Json.ofRat c.issuance),
              ("next_halving_height", .num (.posInt c.nextHalvingHeight))])
          (loadLedger host files)
        kind := "emission_update"
        payload := Json.ofFields
          [("height", .num (.posInt height)), ("epoch", .num (.posInt c.epoch)),
            ("issuance", Json.ofRat c.issuance)] } := by
  have hmax : max interval 1 = interval := by
    change (if interval ≤ 1 then 1 else interval) = interval
    split
    · exact UInt64.le_antisymm hinterval ‹_›
    · rfl
  have hamount : (F64.finite initial).max (.finite 0) = .finite initial := by
    change (if decide (initial < 0) then F64.finite 0 else .finite initial) = .finite initial
    rw [decide_eq_false hinitial.not_gt]
    rfl
  have hpow : (2 : ℚ) ^ asI32 (height / interval) ≠ 0 := zpow_ne_zero _ (by norm_num)
  simp only [emission, hgate, Option.getD_some, hmax, hamount, hround, F64.div, hpow, curve,
    F64.toJson, Bool.not_true, if_false]
  rfl

/-- A curve as it should be at a height: the amount lies between nothing and the initial one,
has not grown since any earlier height and is half of what it was where the epoch is one
further; the next halving is at the first multiple of the interval above, and nothing wraps. -/
structure Halves (height interval : UInt64) (initial : ℚ) : Prop where
  nonneg : 0 ≤ (curve height interval initial).issuance
  le_initial : (curve height interval initial).issuance ≤ initial
  antitone : ∀ earlier ≤ height,
    (curve height interval initial).issuance ≤ (curve earlier interval initial).issuance
  half_iff : 0 < initial → ∀ earlier ≤ height,
    ((curve height interval initial).issuance = (curve earlier interval initial).issuance / 2 ↔
      height.toNat / interval.toNat = earlier.toNat / interval.toNat + 1)
  next_isLeast : IsLeast {n : ℕ | interval.toNat ∣ n ∧ height.toNat < n}
    (curve height interval initial).nextHalvingHeight.toNat
  epoch_fits : height.toNat / interval.toNat + 1 < 2 ^ 64
  next_fits : (height.toNat / interval.toNat + 1) * interval.toNat < 2 ^ 64

section Curve

variable {height interval : UInt64} {initial : ℚ}

theorem asI32_of_lt {n : UInt64} (h : n.toNat < 2 ^ 31) : asI32 n = n.toNat := by
  have hmod : n.toNat % 2 ^ 32 = n.toNat := Nat.mod_eq_of_lt (by omega)
  rw [asI32, hmod, if_pos h]
  omega

/-- The amount in an epoch that is an exponent. -/
theorem issuance_of_lt (h : height.toNat / interval.toNat < 2 ^ 31) :
    (curve height interval initial).issuance =
      initial / 2 ^ (height.toNat / interval.toNat) := by
  rw [curve, asI32_of_lt (by rwa [UInt64.toNat_div]), UInt64.toNat_div, zpow_natCast]

theorem issuance_zero : (curve height interval 0).issuance = 0 := zero_div _

/-- Every epoch up to that of a height is the epoch of an earlier height. -/
theorem exists_height (hinterval : 1 ≤ interval) {epoch : ℕ}
    (h : epoch ≤ height.toNat / interval.toNat) :
    ∃ earlier ≤ height, earlier.toNat / interval.toNat = epoch := by
  have hpos : 0 < interval.toNat := by
    have hle := UInt64.le_iff_toNat_le.mp hinterval
    exact hle
  have hle : epoch * interval.toNat ≤ height.toNat :=
    (Nat.le_div_iff_mul_le hpos).mp h
  have hnat : (UInt64.ofNat (epoch * interval.toNat)).toNat = epoch * interval.toNat := by
    rw [UInt64.toNat_ofNat']
    exact Nat.mod_eq_of_lt (lt_of_le_of_lt hle height.toNat_lt)
  refine ⟨UInt64.ofNat (epoch * interval.toNat), ?_, ?_⟩
  · rw [UInt64.le_iff_toNat_le, hnat]
    exact hle
  · rw [hnat, Nat.mul_div_cancel _ hpos]

theorem nextHalvingHeight_eq
    (h : (height.toNat / interval.toNat + 1) * interval.toNat < 2 ^ 64) :
    (curve height interval initial).nextHalvingHeight.toNat =
      (height.toNat / interval.toNat + 1) * interval.toNat := by
  have hone : (1 : UInt64).toNat = 1 := rfl
  rw [curve, UInt64.toNat_mul, UInt64.toNat_add, UInt64.toNat_div, hone, Nat.mod_mul_mod,
    Nat.mod_eq_of_lt h]

theorem next_isLeast (hpos : 0 < interval.toNat) :
    IsLeast {n : ℕ | interval.toNat ∣ n ∧ height.toNat < n}
      ((height.toNat / interval.toNat + 1) * interval.toNat) := by
  constructor
  · refine ⟨Nat.dvd_mul_left _ _, ?_⟩
    rw [mul_comm]
    exact Nat.lt_mul_div_succ _ hpos
  · rintro n ⟨⟨k, rfl⟩, hlt⟩
    have hk : height.toNat / interval.toNat < k := by
      rwa [Nat.div_lt_iff_lt_mul hpos, mul_comm]
    rw [mul_comm interval.toNat]
    exact Nat.mul_le_mul_right _ hk

/-- Whether the product fits, as a bound on the height. -/
theorem next_fits_iff (hpos : 0 < interval.toNat) :
    (height.toNat / interval.toNat + 1) * interval.toNat < 2 ^ 64 ↔
      height.toNat / interval.toNat < (2 ^ 64 - 1) / interval.toNat := by
  rw [Nat.lt_iff_add_one_le (n := (2 ^ 64 - 1) / interval.toNat), Nat.le_div_iff_mul_le hpos]
  omega

/-- While the epoch is an exponent and the product fits, the curve is as it should be. -/
theorem halves_of_lt (hinterval : 1 ≤ interval) (hinitial : 0 ≤ initial)
    (hepoch : initial = 0 ∨ height.toNat / interval.toNat < 2 ^ 31)
    (hfits : (height.toNat / interval.toNat + 1) * interval.toNat < 2 ^ 64) :
    Halves height interval initial := by
  have hpos : 0 < interval.toNat := UInt64.le_iff_toNat_le.mp hinterval
  have hmono {earlier : UInt64} (hle : earlier ≤ height) :
      earlier.toNat / interval.toNat ≤ height.toNat / interval.toNat :=
    Nat.div_le_div_right (UInt64.le_iff_toNat_le.mp hle)
  have hnext : IsLeast {n : ℕ | interval.toNat ∣ n ∧ height.toNat < n}
      (curve height interval initial).nextHalvingHeight.toNat := by
    rw [nextHalvingHeight_eq hfits]
    exact next_isLeast hpos
  have hsucc : height.toNat / interval.toNat + 1 < 2 ^ 64 :=
    lt_of_le_of_lt (Nat.le_mul_of_pos_right _ hpos) hfits
  obtain rfl | hepoch := hepoch
  · constructor
    · rw [issuance_zero]
    · rw [issuance_zero]
    · intro earlier _
      rw [issuance_zero, issuance_zero]
    · intro hlt
      exact absurd hlt (lt_irrefl 0)
    · exact hnext
    · exact hsucc
    · exact hfits
  · have hissuance {earlier : UInt64} (hle : earlier ≤ height) :
        (curve earlier interval initial).issuance =
          initial / 2 ^ (earlier.toNat / interval.toNat) :=
      issuance_of_lt (lt_of_le_of_lt (hmono hle) hepoch)
    have hself := hissuance (UInt64.le_refl height)
    constructor
    · rw [hself]
      positivity
    · rw [hself]
      exact div_le_self hinitial (one_le_pow₀ (by norm_num))
    · intro earlier hle
      rw [hself, hissuance hle]
      exact div_le_div_of_nonneg_left hinitial (by positivity)
        (pow_le_pow_right₀ (by norm_num) (hmono hle))
    · intro hlt earlier hle
      rw [hself, hissuance hle, div_div, ← pow_succ, div_eq_div_iff (by positivity) (by positivity),
        mul_right_inj' hlt.ne', pow_right_inj₀ (by norm_num) (by norm_num)]
      exact eq_comm
    · exact hnext
    · exact hsucc
    · exact hfits

/-- An epoch that is cast to a negative exponent gives more than the initial amount. -/
theorem initial_lt_issuance (hinitial : 0 < initial) (h : asI32 (height / interval) < 0) :
    initial < (curve height interval initial).issuance := by
  have hpow : (2 : ℚ) ^ asI32 (height / interval) < 1 := zpow_lt_one_of_neg₀ (by norm_num) h
  rw [curve, lt_div_iff₀ (by positivity)]
  exact mul_lt_of_lt_one_right hinitial hpow

/-- A curve that is as it should be has an epoch that is an exponent. -/
theorem Halves.epoch_lt (h : Halves height interval initial) (hinterval : 1 ≤ interval)
    (hinitial : 0 < initial) : height.toNat / interval.toNat < 2 ^ 31 := by
  by_contra hge
  have hcast : asI32 (height / interval) = (height.toNat / interval.toNat % 2 ^ 32 : ℕ) := by
    by_contra hne
    have hneg : asI32 (height / interval) < 0 := by
      rw [asI32, UInt64.toNat_div] at hne ⊢
      split at hne
      · exact absurd rfl hne
      · rw [if_neg ‹_›]
        omega
    exact absurd h.le_initial (initial_lt_issuance hinitial hneg).not_ge
  have hsmall : height.toNat / interval.toNat % 2 ^ 32 < 2 ^ 31 := by
    rw [asI32, UInt64.toNat_div] at hcast
    split at hcast <;> omega
  have hissuance : (curve height interval initial).issuance =
      initial / 2 ^ (height.toNat / interval.toNat % 2 ^ 32) := by
    rw [curve, hcast, zpow_natCast]
  -- the exponent has come round to one an earlier epoch had
  cases hround : height.toNat / interval.toNat % 2 ^ 32 with
  | zero =>
    obtain ⟨earlier, hle, hepoch⟩ := @exists_height height interval hinterval 1 (by omega)
    have hgrown := h.antitone earlier hle
    rw [hissuance, issuance_of_lt (by omega), hepoch, hround] at hgrown
    linarith
  | succ exponent =>
    obtain ⟨earlier, hle, hepoch⟩ := @exists_height height interval hinterval exponent (by omega)
    have hhalf := (h.half_iff hinitial earlier hle).mp (by
      rw [hissuance, issuance_of_lt (by omega), hepoch, hround, div_div, ← pow_succ])
    omega

/-- **When the curve halves.** -/
theorem halves_iff (hinterval : 1 ≤ interval) (hinitial : 0 ≤ initial) :
    Halves height interval initial ↔
      (initial = 0 ∨ height.toNat / interval.toNat < 2 ^ 31) ∧
        height.toNat / interval.toNat < (2 ^ 64 - 1) / interval.toNat := by
  have hpos : 0 < interval.toNat := UInt64.le_iff_toNat_le.mp hinterval
  rw [← next_fits_iff hpos]
  constructor
  · intro h
    refine ⟨?_, h.next_fits⟩
    obtain hzero | hne := eq_or_ne initial 0
    · exact .inl hzero
    · exact .inr (h.epoch_lt hinterval (lt_of_le_of_ne hinitial hne.symm))
  · rintro ⟨hepoch, hfits⟩
    exact halves_of_lt hinterval hinitial hepoch hfits

/-- The second epoch of the default schedule. -/
theorem halves_second : Halves 210000 210000 50 :=
  (@halves_iff 210000 210000 50 (by decide) (by norm_num)).mpr
    ⟨.inr (by decide), by decide⟩

/-- At a height of two to the thirty-one with halvings at every height, the amount has grown. -/
theorem grown_at_wrapped_epoch : ¬∀ (height interval : UInt64) (initial : ℚ), 1 ≤ interval →
    0 ≤ initial → Halves height interval initial := by
  intro h
  have hwrapped := (h 2147483648 1 50 (by decide) (by norm_num)).le_initial
  exact absurd hwrapped (initial_lt_issuance (by norm_num) (by decide)).not_ge

end Curve

end Protheus.Network.TokenLedger
