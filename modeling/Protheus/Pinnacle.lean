import Protheus.Json
import Protheus.Lib.Join
import Protheus.RustStd

/-!
The merge of `pinnacle/src/lib.rs`: values under vector clocks, a dominating
clock wins, and concurrent values are settled by the greater hash.

The clocks are not joined: the winner keeps its own.  Two things can then go
wrong, and `mergeDelta_join_iff` says that nothing else can.  The bytes hashed
are a plain concatenation, so two different values can feed the hasher the same
bytes, and the left one wins whichever side it is on.  And dominance and hash
order can disagree: a value can lose to a concurrent one that loses to another
concurrent one that the first dominates, and then the grouping decides.
-/

namespace Protheus.Pinnacle

open Std (ExtTreeMap ExtTreeSet)
open Protheus.Join

abbrev VectorClock := ExtTreeMap String UInt64

/-- `CrdtValue`. -/
structure CrdtValue where
  payload : Json := .null
  vectorClock : VectorClock := ∅
  signed : Bool := false

/-- The changes of a delta, by key. -/
abbrev Changes := ExtTreeMap String CrdtValue

/-- `CrdtDelta`. -/
structure CrdtDelta where
  nodeId : String := ""
  changes : Changes := ∅

/-- `MergeConflict`. -/
structure MergeConflict where
  key : String
  leftClock : VectorClock
  rightClock : VectorClock
  /-- Which side the tie-break kept. -/
  resolver : String

/-- The fields of `PinnacleMergeProfile` that the merge reads. -/
structure PinnacleMergeProfile where
  profileId : String
  /-- The sovereignty points a conflict costs. -/
  conflictPenaltyPct : ℚ
  /-- The sovereignty points an unsigned value costs, before the factor ten. -/
  unsignedPenaltyPct : ℚ

/-- `MergeResult`, with digests in `H`. -/
structure MergeResult (H : Type*) where
  merged : Changes
  /-- The keys where neither clock dominated. -/
  conflicts : List MergeConflict
  /-- The share of keys without a conflict. -/
  convergenceScorePct : ℚ
  /-- The convergence score less the penalties. -/
  sovereigntyIndexPct : ℚ
  digest : H
  profileId : String

/-! ## Vector clocks -/

/-- What a clock has counted for a node; a missing node counts zero. -/
def count (clock : VectorClock) (key : String) : UInt64 := clock[key]?.getD 0

/-- The nodes either clock names, in order. -/
def clockKeys (left right : VectorClock) : List String :=
  (ExtTreeSet.ofList (left.keys ++ right.keys)).toList

/-- `vector_clock_cmp`: equal clocks and concurrent clocks both compare equal. -/
def vectorClockCmp (left right : VectorClock) : Ordering :=
  let (leftGt, rightGt) := (clockKeys left right).foldl (fun (leftGt, rightGt) key =>
    let l := count left key
    let r := count right key
    (if l > r then true else leftGt, if r > l then true else rightGt)) (false, false)
  match leftGt, rightGt with
  | true, false => .gt
  | false, true => .lt
  | _, _ => .eq

/-- The left clock is nowhere behind the right one. -/
def Covers (left right : VectorClock) : Prop := ∀ key, count right key ≤ count left key

theorem Covers.trans {a b c : VectorClock} (hab : Covers a b) (hbc : Covers b c) : Covers a c :=
  fun key => UInt64.le_trans (hbc key) (hab key)

/-- A node no clock names counts zero on both sides. -/
theorem count_eq_of_notMem_clockKeys {left right : VectorClock} {key : String}
    (h : key ∉ clockKeys left right) : count left key = 0 ∧ count right key = 0 := by
  have hmem : key ∉ left ∧ key ∉ right := by
    simpa [clockKeys, ExtTreeSet.mem_toList, ExtTreeSet.mem_ofList] using h
  simp [count, ExtTreeMap.getElem?_eq_none hmem.1, ExtTreeMap.getElem?_eq_none hmem.2]

theorem vectorClockCmp_foldl (left right : VectorClock) (keys : List String) (a b : Bool) :
    keys.foldl (fun (leftGt, rightGt) key =>
        (if count left key > count right key then true else leftGt,
          if count right key > count left key then true else rightGt)) (a, b) =
      (a || keys.any fun key => count right key < count left key,
        b || keys.any fun key => count left key < count right key) := by
  induction keys generalizing a b with
  | nil => simp
  | cons key keys ih =>
    rw [List.foldl_cons, ih]
    by_cases h1 : count right key < count left key <;>
      by_cases h2 : count left key < count right key <;>
        simp [h1, h2]

/-- Some named node is ahead on the right exactly when the left clock does not cover it. -/
theorem any_clockKeys_lt_iff (left right : VectorClock) :
    ((clockKeys left right).any fun key => count left key < count right key) = true ↔
      ¬ Covers left right := by
  simp only [List.any_eq_true, decide_eq_true_eq, Covers, not_forall, UInt64.not_le]
  constructor
  · rintro ⟨key, -, h⟩
    exact ⟨key, h⟩
  · rintro ⟨key, h⟩
    refine ⟨key, ?_, h⟩
    by_contra hmem
    obtain ⟨hl, hr⟩ := count_eq_of_notMem_clockKeys hmem
    simp [hl, hr] at h

theorem clockKeys_comm (left right : VectorClock) :
    clockKeys left right = clockKeys right left := by
  refine congrArg ExtTreeSet.toList (ExtTreeSet.ext_mem fun key => ?_)
  simp [ExtTreeSet.mem_ofList, or_comm]

open Classical in
/-- The comparison is decided by which clock covers which. -/
theorem vectorClockCmp_eq (left right : VectorClock) :
    vectorClockCmp left right =
      if Covers left right ∧ ¬ Covers right left then .gt
      else if Covers right left ∧ ¬ Covers left right then .lt else .eq := by
  have hr := any_clockKeys_lt_iff left right
  have hl := any_clockKeys_lt_iff right left
  rw [clockKeys_comm right left] at hl
  have hfold := vectorClockCmp_foldl left right (clockKeys left right) false false
  simp only [Bool.false_or] at hfold
  simp only [vectorClockCmp, hfold]
  by_cases h1 : Covers left right <;> by_cases h2 : Covers right left <;>
    simp only [h1, h2, not_true_eq_false, not_false_eq_true, iff_true, iff_false,
      Bool.not_eq_true] at hl hr <;>
    simp [h1, h2, hl, hr]

theorem vectorClockCmp_gt_iff {left right : VectorClock} :
    vectorClockCmp left right = .gt ↔ Covers left right ∧ ¬ Covers right left := by
  rw [vectorClockCmp_eq]
  by_cases h1 : Covers left right <;> by_cases h2 : Covers right left <;> simp [h1, h2]

theorem vectorClockCmp_lt_iff {left right : VectorClock} :
    vectorClockCmp left right = .lt ↔ vectorClockCmp right left = .gt := by
  rw [vectorClockCmp_eq, vectorClockCmp_gt_iff]
  by_cases h1 : Covers left right <;> by_cases h2 : Covers right left <;> simp [h1, h2]

theorem vectorClockCmp_eq_comm {left right : VectorClock} :
    vectorClockCmp left right = .eq ↔ vectorClockCmp right left = .eq := by
  rw [vectorClockCmp_eq, vectorClockCmp_eq]
  by_cases h1 : Covers left right <;> by_cases h2 : Covers right left <;> simp [h1, h2]

theorem vectorClockCmp_gt_trans {a b c : VectorClock} (hab : vectorClockCmp a b = .gt)
    (hbc : vectorClockCmp b c = .gt) : vectorClockCmp a c = .gt := by
  rw [vectorClockCmp_gt_iff] at *
  exact ⟨hab.1.trans hbc.1, fun hca => hab.2 (hbc.1.trans hca)⟩

/-! ## The merge -/

section Merge

/-- The text of a clock as `format!` writes its entries, one after the other. -/
def clockFeed (clock : VectorClock) : String :=
  String.join (clock.toList.map fun entry => entry.1 ++ ":" ++ toString entry.2.toNat)

/-- The bytes `deterministic_hash_key` feeds to the hasher. -/
def hashFeed (printFloat : ℚ → String) (key : String) (value : CrdtValue) : String :=
  key ++ value.payload.render printFloat ++ clockFeed value.vectorClock ++ toString value.signed

variable {H : Type*} [LinearOrder H] (sha256 : String → H) (printFloat : ℚ → String)

/-- `deterministic_hash_key`. -/
def deterministicHashKey (key : String) (value : CrdtValue) : H :=
  sha256 (hashFeed printFloat key value)

/-- `merge_value`, returning the value kept and the conflicts seen so far. -/
def mergeValue (key : String) (left right : CrdtValue) (conflicts : List MergeConflict) :
    CrdtValue × List MergeConflict :=
  match vectorClockCmp left.vectorClock right.vectorClock with
  | .gt => (left, conflicts)
  | .lt => (right, conflicts)
  | .eq =>
    let leftH := deterministicHashKey sha256 printFloat key left
    let rightH := deterministicHashKey sha256 printFloat key right
    if leftH ≥ rightH then
      (left, conflicts ++ [{ key, leftClock := left.vectorClock, rightClock := right.vectorClock,
                             resolver := "deterministic_hash_tie_break_left" }])
    else
      (right, conflicts ++ [{ key, leftClock := left.vectorClock, rightClock := right.vectorClock,
                              resolver := "deterministic_hash_tie_break_right" }])

/-- Rounding to three decimals. -/
def round3 (q : ℚ) : ℚ := RustStd.round (q * 1000) / 1000

/-- `compute_scores`. -/
def computeScores (merged : Changes) (conflicts : List MergeConflict)
    (profile : PinnacleMergeProfile) : ℚ × ℚ :=
  let total : ℚ := (max merged.size 1 : ℕ)
  let conflictRate := conflicts.length / total
  let unsignedRate := (merged.values.filter fun v => !v.signed).length / total
  let convergence := RustStd.clamp (100 - conflictRate * 100) 0 100
  let sovereignty := RustStd.clamp (convergence - conflictRate * profile.conflictPenaltyPct
    - unsignedRate * profile.unsignedPenaltyPct * 10) 0 100
  (round3 convergence, round3 sovereignty)

def clockJson (clock : VectorClock) : Json :=
  .obj (clock.toList.map fun entry => (entry.1, .num (.posInt entry.2)))

/-- `digest_merge`. -/
def digestMerge (merged : Changes) (conflicts : List MergeConflict) : H :=
  let lines :=
    (merged.toList.map fun (k, v) =>
      k ++ ":" ++ v.payload.render printFloat ++ ":" ++ (clockJson v.vectorClock).render printFloat) ++
    (conflicts.map fun c => "conflict:" ++ c.key ++ ":" ++ c.resolver)
  sha256 (String.join (lines.mapIdx fun idx line => toString idx ++ ":" ++ line ++ "|"))

/-- The keys either delta changes, in order. -/
def changedKeys (left right : Changes) : List String :=
  (ExtTreeSet.ofList (left.keys ++ right.keys)).toList

/-- One round of the loop of `merge_delta`. -/
def mergeKey (left right : Changes) (state : Changes × List MergeConflict) (key : String) :
    Changes × List MergeConflict :=
  match left[key]?, right[key]? with
  | some l, some r =>
    let (value, conflicts) := mergeValue sha256 printFloat key l r state.2
    (state.1.insert key value, conflicts)
  | some l, none => (state.1.insert key l, state.2)
  | none, some r => (state.1.insert key r, state.2)
  | none, none => state

/-- `merge_delta`, from the parsed deltas and the embedded profile on. -/
def mergeDelta (profile : PinnacleMergeProfile) (left right : CrdtDelta) : MergeResult H :=
  let (merged, conflicts) := (changedKeys left.changes right.changes).foldl
    (mergeKey sha256 printFloat left.changes right.changes) (∅, [])
  let (convergenceScorePct, sovereigntyIndexPct) := computeScores merged conflicts profile
  { merged, conflicts, convergenceScorePct, sovereigntyIndexPct,
    digest := digestMerge sha256 printFloat merged conflicts, profileId := profile.profileId }

/-- The merged map of two deltas, as the changes of a next delta. -/
def mergedChanges (profile : PinnacleMergeProfile) (left right : Changes) : Changes :=
  (mergeDelta sha256 printFloat profile { changes := left } { changes := right }).merged

/-! ### The choice between two values -/

/-- The value kept, whatever conflicts were seen before. -/
def keep (key : String) (left right : CrdtValue) : CrdtValue :=
  (mergeValue sha256 printFloat key left right []).1

variable {sha256 printFloat} {key : String} {left right : CrdtValue}

theorem mergeValue_fst (conflicts : List MergeConflict) :
    (mergeValue sha256 printFloat key left right conflicts).1 =
      keep sha256 printFloat key left right := by
  unfold keep mergeValue
  cases vectorClockCmp left.vectorClock right.vectorClock with
  | gt => rfl
  | lt => rfl
  | eq => simp only; split <;> rfl

theorem keep_of_gt (h : vectorClockCmp left.vectorClock right.vectorClock = .gt) :
    keep sha256 printFloat key left right = left := by
  simp [keep, mergeValue, h]

theorem keep_of_lt (h : vectorClockCmp left.vectorClock right.vectorClock = .lt) :
    keep sha256 printFloat key left right = right := by
  simp [keep, mergeValue, h]

/-- Concurrent values are settled by the later hash, the left one on a tie. -/
theorem keep_of_eq (h : vectorClockCmp left.vectorClock right.vectorClock = .eq) :
    keep sha256 printFloat key left right =
      newer (deterministicHashKey sha256 printFloat key) left right := by
  simp only [keep, mergeValue, h, newer, ge_iff_le]
  split
  · rw [if_neg (not_lt.mpr ‹_›)]
  · rw [if_pos (not_le.mp ‹_›)]

theorem keep_selective : Selective (keep sha256 printFloat key) := by
  intro left right
  cases h : vectorClockCmp left.vectorClock right.vectorClock with
  | gt => exact .inl (keep_of_gt h)
  | lt => exact .inr (keep_of_lt h)
  | eq => rw [keep_of_eq h]; exact newer_selective left right

/-- The loop of `merge_delta` combines the two values of each key with `keep`. -/
theorem mergedChanges_pointwise (profile : PinnacleMergeProfile) :
    Pointwise (mergedChanges sha256 printFloat profile) (keep sha256 printFloat) := by
  intro left right k
  have hother : ∀ (state : Changes × List MergeConflict) (key k' : String), key ≠ k' →
      (mergeKey sha256 printFloat left right state key).1[k']? = state.1[k']? := by
    intro state key k' hne
    have hcmp : compare key k' ≠ .eq := fun h => hne (Std.LawfulEqOrd.eq_of_compare h)
    unfold mergeKey
    cases left[key]? <;> cases right[key]? <;> simp [ExtTreeMap.getElem?_insert, hcmp]
  have hsame : ∀ (state : Changes × List MergeConflict) (key : String),
      (mergeKey sha256 printFloat left right state key).1[key]? =
        (Option.merge (keep sha256 printFloat key) left[key]? right[key]?).or state.1[key]? := by
    intro state key
    unfold mergeKey
    cases left[key]? <;> cases right[key]? <;> simp [mergeValue_fst]
  change ((changedKeys left right).foldl (mergeKey sha256 printFloat left right) (∅, [])).1[k]? = _
  by_cases hk : k ∈ changedKeys left right
  · have hdistinct : (changedKeys left right).Pairwise (· ≠ ·) :=
      (ExtTreeSet.distinct_toList (t := ExtTreeSet.ofList (left.keys ++ right.keys))).imp
        fun {a b} h (e : a = b) => h (Std.LawfulEqOrd.compare_eq_iff_eq.mpr e)
    have := look_foldl_of_mem (fun (s : Changes × List MergeConflict) k => s.1[k]?) id
      (g := fun old key =>
        (Option.merge (keep sha256 printFloat key) left[key]? right[key]?).or old)
      hsame hother (changedKeys left right) (∅, []) hdistinct k hk
    simpa using this
  · have hleft : left[k]? = none ∧ right[k]? = none := by
      simpa [changedKeys, ExtTreeSet.mem_toList, ExtTreeSet.mem_ofList] using hk
    have := look_foldl_of_not_mem (fun (s : Changes × List MergeConflict) k => s.1[k]?) id
      hother (changedKeys left right) (∅, []) (fun e he (h : e = k) => hk (h ▸ he))
    simpa [hleft.1, hleft.2] using this

/-! ### When the merge is a join -/

variable (printFloat)

/-- Two different values whose clocks compare equal and that feed the hasher the
same bytes: the left one is kept on either side. -/
structure Tied (key : String) (a b : CrdtValue) : Prop where
  /-- Neither clock dominates. -/
  clocks : vectorClockCmp a.vectorClock b.vectorClock = .eq
  /-- The hashed bytes coincide. -/
  feeds : hashFeed printFloat key a = hashFeed printFloat key b
  /-- The values do not. -/
  ne : a ≠ b

variable (sha256)

/-- A value that dominates another, and a third one concurrent with both that
beats the first by hash and is beaten by the second. -/
structure Contested (key : String) (dominant contender dominated : CrdtValue) : Prop where
  /-- The first clock dominates the third. -/
  dominates : vectorClockCmp dominant.vectorClock dominated.vectorClock = .gt
  /-- The contender is not ordered with the first. -/
  concurrent : vectorClockCmp contender.vectorClock dominant.vectorClock = .eq
  /-- Nor with the third. -/
  concurrent' : vectorClockCmp contender.vectorClock dominated.vectorClock = .eq
  /-- The contender beats the dominant value. -/
  beats : deterministicHashKey sha256 printFloat key dominant <
    deterministicHashKey sha256 printFloat key contender
  /-- The dominated value beats the contender. -/
  beaten : deterministicHashKey sha256 printFloat key contender <
    deterministicHashKey sha256 printFloat key dominated

variable {sha256 printFloat}

/-- With an injective hash, two values disagree about the order of arguments
exactly when they are tied. -/
theorem keep_comm_iff (hsha : Function.Injective sha256) (a b : CrdtValue) :
    keep sha256 printFloat key a b = keep sha256 printFloat key b a ↔
      ¬ Tied printFloat key a b := by
  cases h : vectorClockCmp a.vectorClock b.vectorClock with
  | gt =>
    have h' : vectorClockCmp b.vectorClock a.vectorClock = .lt := vectorClockCmp_lt_iff.mpr h
    rw [keep_of_gt h, keep_of_lt h']
    simp only [true_iff]
    intro ht
    rw [ht.clocks] at h
    cases h
  | lt =>
    rw [keep_of_lt h, keep_of_gt (vectorClockCmp_lt_iff.mp h)]
    simp only [true_iff]
    intro ht
    rw [ht.clocks] at h
    cases h
  | eq =>
    rw [keep_of_eq h, keep_of_eq (vectorClockCmp_eq_comm.mp h)]
    rcases lt_trichotomy (deterministicHashKey sha256 printFloat key a)
      (deterministicHashKey sha256 printFloat key b) with hlt | heq | hgt
    · simp only [newer, hlt, hlt.not_gt, if_true, if_false, true_iff]
      intro ht
      exact hlt.ne (congrArg sha256 ht.feeds)
    · simp only [newer, heq, lt_irrefl, if_false]
      exact ⟨fun e ht => ht.ne e, fun ht => by_contra fun ne => ht ⟨h, hsha heq, ne⟩⟩
    · simp only [newer, hgt, hgt.not_gt, if_true, if_false, true_iff]
      intro ht
      exact hgt.ne' (congrArg sha256 ht.feeds)

/-- A value kept over another dominates it or is concurrent with at least its hash. -/
theorem keep_eq_left {a b : CrdtValue} (h : keep sha256 printFloat key a b = a) :
    a = b ∨ vectorClockCmp a.vectorClock b.vectorClock = .gt ∨
      vectorClockCmp a.vectorClock b.vectorClock = .eq ∧
        deterministicHashKey sha256 printFloat key b ≤ deterministicHashKey sha256 printFloat key a := by
  cases hc : vectorClockCmp a.vectorClock b.vectorClock with
  | gt => exact .inr (.inl rfl)
  | lt => rw [keep_of_lt hc] at h; exact .inl h.symm
  | eq => rw [keep_of_eq hc] at h; exact .inr (.inr ⟨rfl, le_of_newer_eq_left h⟩)

theorem Contested.cycle {a b c : CrdtValue} (h : Contested sha256 printFloat key a b c) :
    Cycle (keep sha256 printFloat key) c b a where
  fst := by
    rw [keep_of_eq (vectorClockCmp_eq_comm.mp h.concurrent')]
    exact if_neg h.beaten.not_gt
  snd := by
    rw [keep_of_eq h.concurrent]
    exact if_neg h.beats.not_gt
  thd := keep_of_gt h.dominates
  ne := fun e => (h.beats.trans h.beaten).ne (by rw [e])

/-- How one of two different untied values is kept over the other. -/
def Over (sha256 : String → H) (printFloat : ℚ → String) (key : String) (a b : CrdtValue) : Prop :=
  vectorClockCmp a.vectorClock b.vectorClock = .gt ∨
    vectorClockCmp a.vectorClock b.vectorClock = .eq ∧
      deterministicHashKey sha256 printFloat key b < deterministicHashKey sha256 printFloat key a

theorem over_of_keep (hsha : Function.Injective sha256) {a b : CrdtValue} (hne : a ≠ b)
    (ht : ¬ Tied printFloat key a b) (h : keep sha256 printFloat key a b = a) :
    Over sha256 printFloat key a b := by
  rcases keep_eq_left h with rfl | hgt | ⟨heq, hle⟩
  · exact absurd rfl hne
  · exact .inl hgt
  · refine .inr ⟨heq, lt_of_le_of_ne hle fun he => ht ⟨heq, (hsha he).symm, hne⟩⟩

/-- Dominance is transitive and so is the hash order, so a cycle needs one edge
of dominance and two of hashes. -/
theorem contested_of_over {a b c : CrdtValue} (hab : Over sha256 printFloat key a b)
    (hbc : Over sha256 printFloat key b c) (hca : Over sha256 printFloat key c a) :
    Contested sha256 printFloat key a c b ∨ Contested sha256 printFloat key b a c ∨
      Contested sha256 printFloat key c b a := by
  -- Two edges of dominance would order the third pair against its edge.
  have hno : ∀ {x y z : CrdtValue}, vectorClockCmp x.vectorClock y.vectorClock = .gt →
      vectorClockCmp y.vectorClock z.vectorClock = .gt → ¬ Over sha256 printFloat key z x := by
    intro x y z hxy hyz hzx
    have hxz := vectorClockCmp_lt_iff.mpr (vectorClockCmp_gt_trans hxy hyz)
    rcases hzx with h | ⟨h, -⟩ <;> rw [hxz] at h <;> cases h
  rcases hab with hab | ⟨hab, hhab⟩ <;> rcases hbc with hbc | ⟨hbc, hhbc⟩
  · exact absurd hca (hno hab hbc)
  · rcases hca with hca | ⟨hca, hhca⟩
    · exact absurd (.inr ⟨hbc, hhbc⟩) (hno hca hab)
    · exact .inl ⟨hab, hca, vectorClockCmp_eq_comm.mp hbc, hhca, hhbc⟩
  · rcases hca with hca | ⟨hca, hhca⟩
    · exact absurd (.inr ⟨hab, hhab⟩) (hno hbc hca)
    · exact .inr (.inl ⟨hbc, hab, vectorClockCmp_eq_comm.mp hca, hhab, hhca⟩)
  · rcases hca with hca | ⟨hca, hhca⟩
    · exact .inr (.inr ⟨hca, hbc, vectorClockCmp_eq_comm.mp hab, hhbc, hhab⟩)
    · exact absurd (hhab.trans (hhca.trans hhbc)) (lt_irrefl _)

/-- The choice at a key is a join exactly when no two of its values are tied and
no three contested. -/
theorem joinOn_keep_iff (hsha : Function.Injective sha256) {V : Set CrdtValue} :
    JoinOn (keep sha256 printFloat key) V ↔
      (∀ a ∈ V, ∀ b ∈ V, ¬ Tied printFloat key a b) ∧
        ∀ a ∈ V, ∀ b ∈ V, ∀ c ∈ V, ¬ Contested sha256 printFloat key a b c := by
  rw [joinOn_iff_of_selective keep_selective]
  simp only [keep_comm_iff hsha]
  refine and_congr_right fun untied => ?_
  constructor
  · intro acyclic a ha b hb c hc h
    exact acyclic c hc b hb a ha h.cycle
  · intro uncontested a ha b hb c hc h
    have comm : ∀ x ∈ V, ∀ y ∈ V,
        keep sha256 printFloat key x y = keep sha256 printFloat key y x :=
      fun x hx y hy => (keep_comm_iff hsha x y).mpr (untied x hx y hy)
    have hab : a ≠ b := by
      rintro rfl
      exact h.ne (by rw [← h.snd, comm a hb c hc, h.thd])
    have hbc : b ≠ c := by
      rintro rfl
      exact h.ne (by rw [← h.fst, comm a ha b hb, h.thd])
    rcases contested_of_over (over_of_keep hsha hab (untied a ha b hb) h.fst)
      (over_of_keep hsha hbc (untied b hb c hc) h.snd)
      (over_of_keep hsha h.ne.symm (untied c hc a ha) h.thd) with hcon | hcon | hcon
    · exact uncontested a ha c hc b hb hcon
    · exact uncontested b hb a ha c hc hcon
    · exact uncontested c hc b hb a ha hcon

/-- **When the merge of deltas is a join.**  For every set of changes, the
merged map is independent of order, grouping and repetition on it if and only
if no key carries two tied values or three contested ones. -/
theorem mergeDelta_join_iff (hsha : Function.Injective sha256) (profile : PinnacleMergeProfile)
    (S : Set Changes) :
    JoinOn (mergedChanges sha256 printFloat profile) S ↔
      ∀ key, (∀ a ∈ valuesAt S key, ∀ b ∈ valuesAt S key, ¬ Tied printFloat key a b) ∧
        ∀ a ∈ valuesAt S key, ∀ b ∈ valuesAt S key, ∀ c ∈ valuesAt S key,
          ¬ Contested sha256 printFloat key a b c := by
  rw [joinOn_iff_values (mergedChanges_pointwise profile)]
  exact forall_congr' fun key => joinOn_keep_iff hsha

end Merge

/-! ### The two ways the merge falls short -/

/-- A profile with the shipped penalties. -/
def sampleProfile : PinnacleMergeProfile :=
  { profileId := "sample", conflictPenaltyPct := 12, unsignedPenaltyPct := 4 }

/-- Changes of one key. -/
def single (value : CrdtValue) : Changes := (∅ : Changes).insert "k" value

/-- Clocks `a:1` and `b:2`. -/
def twoNodes : CrdtValue := { vectorClock := ((∅ : VectorClock).insert "a" 1).insert "b" 2 }

/-- One node, named `a:1b`, at `2`: the same text as `twoNodes`. -/
def oneNode : CrdtValue := { vectorClock := (∅ : VectorClock).insert "a:1b" 2 }

/-- Dominates `third`, and has the least payload text. -/
def first : CrdtValue := { payload := Json.ofNat 1, vectorClock := (∅ : VectorClock).insert "n" 2 }

/-- Concurrent with `first` and `third`. -/
def second : CrdtValue := { payload := Json.ofNat 2, vectorClock := (∅ : VectorClock).insert "m" 1 }

/-- Dominated by `first`, and has the greatest payload text. -/
def third : CrdtValue := { payload := Json.ofNat 3, vectorClock := (∅ : VectorClock).insert "n" 1 }

/-- The identity for the hash: order and grouping both show in the merged map. -/
theorem mergedChanges_not_join :
    mergedChanges id (fun _ => "") sampleProfile (single twoNodes) (single oneNode) ≠
        mergedChanges id (fun _ => "") sampleProfile (single oneNode) (single twoNodes) ∧
      mergedChanges id (fun _ => "") sampleProfile
          (mergedChanges id (fun _ => "") sampleProfile (single first) (single second))
          (single third) ≠
        mergedChanges id (fun _ => "") sampleProfile (single first)
          (mergedChanges id (fun _ => "") sampleProfile (single second) (single third)) := by
  refine ⟨fun h => ?_, fun h => ?_⟩
  · have := congrArg (fun m : Changes => m["k"]?.map fun v => v.vectorClock["a"]?) h
    revert this
    decide
  · have := congrArg (fun m : Changes => m["k"]?.map (·.payload)) h
    revert this
    decide

/-- Two concurrent writes are neither tied nor contested. -/
theorem mergeDelta_join_iff_pair :
    JoinOn (mergedChanges id (fun _ => "") sampleProfile) {single first, single second} := by
  refine (mergeDelta_join_iff Function.injective_id sampleProfile {single first, single second}).mpr ?_
  intro key
  have hvalue (a : CrdtValue) (ha : a ∈ valuesAt {single first, single second} key) :
      key = "k" ∧ (a = first ∨ a = second) := by
    obtain ⟨m, hm | hm, ha⟩ := ha
    all_goals
      rw [hm, single, ExtTreeMap.getElem?_insert] at ha
      split at ha
      · rename_i hkey
        simp_all
      · simp at ha
  constructor
  · intro a ha b hb htied
    obtain ⟨rfl, hleft⟩ := hvalue a ha
    obtain ⟨-, hright⟩ := hvalue b hb
    have hfeeds := htied.feeds
    have hne := htied.ne
    rcases hleft with rfl | rfl
    · rcases hright with rfl | rfl
      · exact hne rfl
      · exact absurd hfeeds (by decide)
    · rcases hright with rfl | rfl
      · exact absurd hfeeds (by decide)
      · exact hne rfl
  · intro a ha b _ c hc hcontested
    have hdominates := hcontested.dominates
    rcases (hvalue a ha).2 with rfl | rfl
    · rcases (hvalue c hc).2 with rfl | rfl
      · exact absurd hdominates (by decide)
      · exact absurd hdominates (by decide)
    · rcases (hvalue c hc).2 with rfl | rfl
      · exact absurd hdominates (by decide)
      · exact absurd hdominates (by decide)

end Protheus.Pinnacle
