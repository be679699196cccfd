import Mathlib.Algebra.BigOperators.Group.Finset.Piecewise
import Mathlib.Algebra.Ring.Nat
import Mathlib.Data.List.Induction
import Mathlib.Data.List.Perm.Basic
import Std.Data.ExtTreeMap

/-!
Rows grouped by a key.

The groups are kept in the order of their keys, and the rows of a group in the order they came in.
A test on the keys that takes one of them takes its rows as they came (`flatMap_groupBy`).  The
groups together are as long as the rows (`sum_length`), and in whatever order the rows come the last
of the largest groups is the one of the same key, and as long (`largest_perm`).
-/

namespace Protheus.Groups

open Std (ExtTreeMap)

variable {κ ρ : Type} [Ord κ]

/-- The last of the largest groups. -/
def largest (groups : List (κ × List ρ)) : Option (κ × List ρ) :=
  groups.foldl (fun best group =>
    match best with
    | none => some group
    | some top => if top.2.length ≤ group.2.length then some group else some top) none

variable [Std.TransOrd κ] (key : ρ → κ)

/-- The groups with one more row. -/
def add (groups : ExtTreeMap κ (List ρ)) (row : ρ) : ExtTreeMap κ (List ρ) :=
  groups.alter (key row) fun rows => some (rows.getD [] ++ [row])

/-- Rows grouped by a key. -/
def groupBy (rows : List ρ) : ExtTreeMap κ (List ρ) := rows.foldl (add key) ∅

/-! ## The groups -/

variable [Std.LawfulEqOrd κ] [DecidableEq κ] {key} {rows rows' : List ρ} {k : κ}

/-- A group is the rows of its key. -/
theorem getElem?_groupBy : (groupBy key rows)[k]? =
    if rows.filter (key · = k) = [] then none else some (rows.filter (key · = k)) := by
  induction rows using List.reverseRecOn with
  | nil => rfl
  | append_singleton rows row ih =>
    have hadd : groupBy key (rows ++ [row]) = add key (groupBy key rows) row := by
      rw [groupBy, List.foldl_concat, groupBy]
    rw [hadd, add, ExtTreeMap.getElem?_alter, List.filter_append]
    by_cases hkey : key row = k
    · rw [if_pos (by rw [hkey]; exact Std.ReflOrd.compare_self), hkey, ih]
      have hrow : [row].filter (key · = k) = [row] := by simp [hkey]
      have hne : rows.filter (key · = k) ++ [row] ≠ [] := by simp
      rw [hrow, if_neg hne]
      by_cases hnone : rows.filter (key · = k) = []
      · rw [if_pos hnone, hnone]
        rfl
      · rw [if_neg hnone]
        rfl
    · have hne : compare (key row) k ≠ .eq := fun heq => hkey (Std.LawfulEqOrd.eq_of_compare heq)
      have hrow : [row].filter (key · = k) = [] := by simp [hkey]
      rw [if_neg hne, ih, hrow, List.append_nil]

theorem mem_toList_groupBy {group : List ρ} : (k, group) ∈ (groupBy key rows).toList ↔
    group = rows.filter (key · = k) ∧ group ≠ [] := by
  rw [ExtTreeMap.mem_toList_iff_getElem?_eq_some, getElem?_groupBy]
  split
  · rename_i hnone
    exact ⟨fun h => (by cases h), fun ⟨h, hne⟩ => absurd (h.trans hnone) hne⟩
  · rename_i hsome
    constructor
    · rintro h
      obtain rfl := Option.some.inj h
      exact ⟨rfl, hsome⟩
    · rintro ⟨rfl, -⟩
      rfl

omit [DecidableEq κ] in
theorem nodup_keys_groupBy : ((groupBy key rows).toList.map Prod.fst).Nodup := by
  have hdistinct := @ExtTreeMap.distinct_keys_toList κ (List ρ) _ (groupBy key rows) _
  rw [List.Nodup, List.pairwise_map]
  exact hdistinct.imp fun h heq => h (by rw [heq]; exact Std.ReflOrd.compare_self)

/-- The rows of the groups that a test on the keys takes. -/
theorem mem_flatMap_groupBy {taken : κ → Bool} {row : ρ} :
    row ∈ ((groupBy key rows).toList.flatMap fun group => if taken group.1 then group.2 else []) ↔
      row ∈ rows ∧ taken (key row) = true := by
  rw [List.mem_flatMap]
  constructor
  · rintro ⟨⟨k, group⟩, hgroup, hrow⟩
    dsimp only at hrow
    obtain ⟨rfl, -⟩ := mem_toList_groupBy.mp hgroup
    split at hrow
    · rename_i htaken
      obtain ⟨hmem, hkey⟩ := List.mem_filter.mp hrow
      obtain rfl : key row = k := of_decide_eq_true hkey
      exact ⟨hmem, htaken⟩
    · cases hrow
  · rintro ⟨hmem, htaken⟩
    have hrow : row ∈ rows.filter (key · = key row) := List.mem_filter.mpr ⟨hmem, decide_eq_true rfl⟩
    refine ⟨(key row, rows.filter (key · = key row)),
      mem_toList_groupBy.mpr ⟨rfl, List.ne_nil_of_mem hrow⟩, ?_⟩
    rwa [if_pos htaken]

omit [Ord κ] [Std.TransOrd κ] [Std.LawfulEqOrd κ] [DecidableEq κ] in
/-- A test that takes one key of a list without repetition takes its group. -/
theorem flatMap_of_unique {groups : List (κ × List ρ)} (hnodup : (groups.map Prod.fst).Nodup)
    {taken : κ → Bool} {group : κ × List ρ} (hgroup : group ∈ groups) (htaken : taken group.1 = true)
    (h : ∀ other ∈ groups, taken other.1 = true → other.1 = group.1) :
    (groups.flatMap fun group => if taken group.1 then group.2 else []) = group.2 := by
  obtain ⟨early, late, rfl⟩ := List.append_of_mem hgroup
  rw [List.map_append, List.map_cons] at hnodup
  have hnotMem := List.perm_middle.nodup_iff.mp hnodup
  rw [List.nodup_cons, List.mem_append, not_or] at hnotMem
  have hnone {part : List (κ × List ρ)} (hsub : ∀ other ∈ part, other ∈ early ++ group :: late)
      (hpart : group.1 ∉ part.map Prod.fst) :
      (part.flatMap fun group => if taken group.1 then group.2 else []) = [] := by
    refine List.flatMap_eq_nil_iff.mpr fun other hother => if_neg fun hother' => hpart ?_
    rw [← h other (hsub other hother) hother']
    exact List.mem_map_of_mem hother
  rw [List.flatMap_append, List.flatMap_cons, if_pos htaken,
    hnone (fun other hother => List.mem_append_left _ hother) hnotMem.1.1,
    hnone (fun other hother => List.mem_append_right _ (List.mem_cons_of_mem _ hother)) hnotMem.1.2,
    List.nil_append, List.append_nil]

/-- A test that takes the rows of one key takes them as they came. -/
theorem flatMap_groupBy {taken : κ → Bool} (htaken : taken k = true)
    (h : ∀ row ∈ rows, taken (key row) = true → key row = k) :
    ((groupBy key rows).toList.flatMap fun group => if taken group.1 then group.2 else []) =
      rows.filter (key · = k) := by
  have hunique : ∀ other ∈ (groupBy key rows).toList, taken other.1 = true → other.1 = k := by
    rintro ⟨k', group⟩ hgroup htaken'
    obtain ⟨rfl, hne⟩ := mem_toList_groupBy.mp hgroup
    obtain ⟨row, hrow⟩ := List.exists_mem_of_ne_nil _ hne
    obtain ⟨hmem, hkey⟩ := List.mem_filter.mp hrow
    obtain rfl : key row = k' := of_decide_eq_true hkey
    exact h row hmem htaken'
  by_cases hrows : rows.filter (key · = k) = []
  · rw [hrows]
    refine List.flatMap_eq_nil_iff.mpr fun other hother => if_neg fun htaken' => ?_
    obtain ⟨k', group⟩ := other
    obtain rfl : k' = k := hunique _ hother htaken'
    obtain ⟨rfl, hne⟩ := mem_toList_groupBy.mp hother
    exact hne hrows
  · exact @flatMap_of_unique κ ρ _ nodup_keys_groupBy taken (k, rows.filter (key · = k))
      (mem_toList_groupBy.mpr ⟨rfl, hrows⟩) htaken hunique

omit [Ord κ] [Std.TransOrd κ] [Std.LawfulEqOrd κ] in
theorem sum_indicator {keys : List κ} (hnodup : keys.Nodup) (h : k ∈ keys) :
    (keys.map fun k' => if k = k' then 1 else 0).sum = 1 := by
  rw [← List.sum_toFinset _ hnodup, Finset.sum_ite_eq, if_pos (List.mem_toFinset.mpr h)]

omit [Ord κ] [Std.TransOrd κ] [Std.LawfulEqOrd κ] in
/-- Each row has its key among those of a list without repetition once. -/
theorem sum_filter_length {keys : List κ} (hnodup : keys.Nodup) :
    (∀ row ∈ rows, key row ∈ keys) → (keys.map fun k => (rows.filter (key · = k)).length).sum =
      rows.length := by
  induction rows with
  | nil => simp
  | cons row rows ih =>
    intro hkeys
    obtain ⟨hrow, hrest⟩ := List.forall_mem_cons.mp hkeys
    have hone (k : κ) : ((row :: rows).filter (key · = k)).length =
        (if key row = k then 1 else 0) + (rows.filter (key · = k)).length := by
      by_cases hk : key row = k
      · simp [hk, Nat.add_comm]
      · simp [hk]
    rw [List.map_congr_left fun k _ => hone k, List.sum_map_add, sum_indicator hnodup hrow, ih hrest,
      List.length_cons, Nat.add_comm]

/-- **The groups together are as long as the rows.** -/
theorem sum_length : ((groupBy key rows).toList.map fun group => group.2.length).sum = rows.length := by
  rw [← @sum_filter_length κ ρ _ _ rows _ (@nodup_keys_groupBy κ ρ _ _ key _ rows), List.map_map]
  · refine congrArg List.sum (List.map_congr_left fun group hgroup => ?_)
    obtain ⟨k, group⟩ := group
    rw [(mem_toList_groupBy.mp hgroup).1]
    rfl
  · intro row hrow
    have hmem : row ∈ rows.filter (key · = key row) := List.mem_filter.mpr ⟨hrow, decide_eq_true rfl⟩
    exact List.mem_map.mpr ⟨(key row, rows.filter (key · = key row)),
      mem_toList_groupBy.mpr ⟨rfl, List.ne_nil_of_mem hmem⟩, rfl⟩

/-! ## The largest group -/

section Largest

variable {groups : List (κ × List ρ)} {group top : κ × List ρ}

omit [Ord κ] [Std.TransOrd κ] [Std.LawfulEqOrd κ] [DecidableEq κ]

theorem largest_concat : largest (groups ++ [group]) =
    match largest groups with
    | none => some group
    | some top => if top.2.length ≤ group.2.length then some group else some top := by
  rw [largest, List.foldl_concat]
  rfl

theorem largest_eq_none : largest groups = none ↔ groups = [] := by
  induction groups using List.reverseRecOn with
  | nil => exact ⟨fun _ => rfl, fun _ => rfl⟩
  | append_singleton groups group ih =>
    rw [largest_concat]
    cases largest groups with
    | none => simp
    | some top =>
      dsimp only
      split <;> simp

/-- The largest group is one of the groups, and none is larger. -/
theorem largest_spec (h : largest groups = some top) :
    top ∈ groups ∧ ∀ group ∈ groups, group.2.length ≤ top.2.length := by
  induction groups using List.reverseRecOn generalizing top with
  | nil => cases h
  | append_singleton groups last ih =>
    rw [largest_concat] at h
    cases hbest : largest groups with
    | none =>
      rw [hbest] at h
      obtain rfl := Option.some.inj h
      obtain rfl := largest_eq_none.mp hbest
      simp
    | some best =>
      rw [hbest] at h
      dsimp only at h
      obtain ⟨hmem, hmax⟩ := ih hbest
      split at h
      · rename_i hle
        obtain rfl := Option.some.inj h
        refine ⟨by simp, fun group hgroup => ?_⟩
        obtain hgroup | hlast := List.mem_append.mp hgroup
        · exact Nat.le_trans (hmax group hgroup) hle
        · exact Nat.le_of_eq (congrArg (fun g => g.2.length) (List.mem_singleton.mp hlast))
      · rename_i hlt
        obtain rfl := Option.some.inj h
        refine ⟨List.mem_append_left _ hmem, fun group hgroup => ?_⟩
        obtain hgroup | hlast := List.mem_append.mp hgroup
        · exact hmax group hgroup
        · rw [List.mem_singleton.mp hlast]
          omega

/-- Which group is the largest is a matter of the lengths. -/
theorem largest_congr {groups' : List (κ × List ρ)}
    (h : groups.map (fun group => (group.1, group.2.length)) =
      groups'.map fun group => (group.1, group.2.length)) :
    (largest groups).map (fun group => (group.1, group.2.length)) =
      (largest groups').map fun group => (group.1, group.2.length) := by
  induction groups using List.reverseRecOn generalizing groups' with
  | nil =>
    obtain rfl := List.map_eq_nil_iff.mp h.symm
    rfl
  | append_singleton groups last ih =>
    cases groups' using List.reverseRecOn with
    | nil => simp at h
    | append_singleton groups' last' =>
      rw [List.map_append, List.map_append] at h
      obtain ⟨hgroups, hlast⟩ := List.append_inj' h rfl
      have hlast : (last.1, last.2.length) = (last'.1, last'.2.length) := by simpa using hlast
      have hbest := ih hgroups
      rw [largest_concat, largest_concat]
      cases hl : largest groups with
      | none =>
        rw [hl] at hbest
        rw [Option.map_eq_none_iff.mp hbest.symm]
        exact congrArg some hlast
      | some best =>
        rw [hl, Option.map_some] at hbest
        obtain ⟨best', hl', hbest'⟩ := Option.map_eq_some_iff.mp hbest.symm
        rw [hl']
        dsimp only
        rw [← (Prod.mk.inj hbest').2, ← (Prod.mk.inj hlast).2]
        split
        · exact congrArg some hlast
        · exact congrArg some hbest'.symm

end Largest

/-- **The order of the rows makes no difference to the key and the length of the largest group.** -/
theorem largest_perm (h : rows.Perm rows') :
    (largest (groupBy key rows).toList).map (fun group => (group.1, group.2.length)) =
      (largest (groupBy key rows').toList).map fun group => (group.1, group.2.length) := by
  apply largest_congr
  have hmap : (groupBy key rows).map (fun _ group => group.length) =
      (groupBy key rows').map fun _ group => group.length := by
    refine ExtTreeMap.ext_getElem? fun k => ?_
    have hfilter := h.filter fun row => decide (key row = k)
    have hnil : rows.filter (key · = k) = [] ↔ rows'.filter (key · = k) = [] := by
      rw [← List.length_eq_zero_iff, hfilter.length_eq, List.length_eq_zero_iff]
    rw [ExtTreeMap.getElem?_map, ExtTreeMap.getElem?_map, getElem?_groupBy, getElem?_groupBy]
    by_cases hnone : rows.filter (key · = k) = []
    · rw [if_pos hnone, if_pos (hnil.mp hnone)]
    · rw [if_neg hnone, if_neg fun h => hnone (hnil.mpr h)]
      exact congrArg some hfilter.length_eq
  have hlists := congrArg ExtTreeMap.toList hmap
  rwa [ExtTreeMap.toList_map, ExtTreeMap.toList_map] at hlists

end Protheus.Groups
