import Mathlib

/-!
Tables that sum weights under keys.

`tally` enters one weighted key after another, as a loop over
`*table.entry(key).or_insert(0) += weight` does.  A table is determined by the keys
that were entered and the totals under them (`tally_eq_iff`), so the order of the
entries does not matter (`tally_perm`).
-/

namespace Protheus.Tally

open Std (ExtTreeMap TransOrd LawfulEqOrd)

variable {κ M : Type} [DecidableEq κ] [AddCommMonoid M]

/-- The weights entered under a key. -/
def total (entries : List (κ × M)) (key : κ) : M :=
  ((entries.filter fun entry => entry.1 = key).map Prod.snd).sum

@[simp] theorem total_nil (key : κ) : total ([] : List (κ × M)) key = 0 := rfl

theorem total_cons (entry : κ × M) (entries : List (κ × M)) (key : κ) :
    total (entry :: entries) key = (if entry.1 = key then entry.2 else 0) + total entries key := by
  unfold total
  by_cases h : entry.1 = key
  · rw [List.filter_cons_of_pos (by simpa using h), List.map_cons, List.sum_cons, if_pos h]
  · rw [List.filter_cons_of_neg (by simpa using h), if_neg h, zero_add]

theorem total_append (entries entries' : List (κ × M)) (key : κ) :
    total (entries ++ entries') key = total entries key + total entries' key := by
  rw [total, List.filter_append, List.map_append, List.sum_append]
  rfl

theorem total_eq_zero {entries : List (κ × M)} {key : κ} (h : key ∉ entries.map Prod.fst) :
    total entries key = 0 := by
  have hnone : entries.filter (fun entry => decide (entry.1 = key)) = [] := by
    rw [List.filter_eq_nil_iff]
    intro entry hentry heq
    exact h (List.mem_map.mpr ⟨entry, hentry, by simpa using heq⟩)
  rw [total, hnone, List.map_nil, List.sum_nil]

theorem total_perm {entries entries' : List (κ × M)} (h : entries.Perm entries') (key : κ) :
    total entries key = total entries' key :=
  ((h.filter _).map _).sum_eq

variable [Ord κ] [TransOrd κ]

/-- `*table.entry(key).or_insert(0) += weight`. -/
def enter (table : ExtTreeMap κ M) (entry : κ × M) : ExtTreeMap κ M :=
  table.insert entry.1 (table[entry.1]?.getD 0 + entry.2)

/-- The table after all entries. -/
def tally (entries : List (κ × M)) : ExtTreeMap κ M := entries.foldl enter ∅

variable [LawfulEqOrd κ]

theorem getElem?_enter (table : ExtTreeMap κ M) (entry : κ × M) (key : κ) :
    (enter table entry)[key]? =
      if entry.1 = key then some (table[key]?.getD 0 + entry.2) else table[key]? := by
  rw [enter, ExtTreeMap.getElem?_insert]
  by_cases h : entry.1 = key
  · rw [if_pos (by simp [h]), if_pos h, h]
  · rw [if_neg (by simpa using h), if_neg h]

theorem getElem?_foldl_enter (entries : List (κ × M)) (key : κ) : ∀ table : ExtTreeMap κ M,
    (entries.foldl enter table)[key]? =
      if key ∈ entries.map Prod.fst then some (table[key]?.getD 0 + total entries key)
      else table[key]? := by
  induction entries with
  | nil => simp
  | cons entry entries ih =>
    intro table
    rw [List.foldl_cons, ih, getElem?_enter, total_cons, List.map_cons]
    by_cases hkey : entry.1 = key
    · have hhead : key ∈ entry.1 :: entries.map Prod.fst := hkey ▸ List.mem_cons_self
      rw [if_pos hkey, if_pos hkey, if_pos hhead, Option.getD_some, ← add_assoc]
      by_cases hrest : key ∈ entries.map Prod.fst
      · rw [if_pos hrest]
      · rw [if_neg hrest, total_eq_zero hrest, add_zero]
    · have hcons : key ∈ entry.1 :: entries.map Prod.fst ↔ key ∈ entries.map Prod.fst :=
        List.mem_cons.trans (or_iff_right (Ne.symm hkey))
      rw [if_neg hkey, if_neg hkey, zero_add]
      exact if_congr hcons.symm rfl rfl

/-- What stands under a key. -/
theorem getElem?_tally (entries : List (κ × M)) (key : κ) :
    (tally entries)[key]? =
      if key ∈ entries.map Prod.fst then some (total entries key) else none := by
  rw [tally, getElem?_foldl_enter]
  simp

theorem mem_tally {entries : List (κ × M)} {key : κ} :
    key ∈ tally entries ↔ key ∈ entries.map Prod.fst := by
  rw [ExtTreeMap.mem_iff_isSome_getElem?, getElem?_tally]
  split <;> simp [*]

/-- **A table is its keys and their totals.** -/
theorem tally_eq_iff {entries entries' : List (κ × M)} :
    tally entries = tally entries' ↔
      ∀ key, (key ∈ entries.map Prod.fst ↔ key ∈ entries'.map Prod.fst) ∧
        total entries key = total entries' key := by
  constructor
  · intro h key
    have hkeys : key ∈ entries.map Prod.fst ↔ key ∈ entries'.map Prod.fst := by
      rw [← mem_tally, ← mem_tally, h]
    refine ⟨hkeys, ?_⟩
    have hget : (tally entries)[key]? = (tally entries')[key]? := by rw [h]
    rw [getElem?_tally, getElem?_tally] at hget
    by_cases hmem : key ∈ entries.map Prod.fst
    · rw [if_pos hmem, if_pos (hkeys.mp hmem)] at hget
      exact Option.some.inj hget
    · rw [total_eq_zero hmem, total_eq_zero (mt hkeys.mpr hmem)]
  · intro h
    refine ExtTreeMap.ext_getElem? fun key => ?_
    rw [getElem?_tally, getElem?_tally, (h key).2]
    exact if_congr (h key).1 rfl rfl

/-- The order of the entries does not matter. -/
theorem tally_perm {entries entries' : List (κ × M)} (h : entries.Perm entries') :
    tally entries = tally entries' :=
  tally_eq_iff.mpr fun key => ⟨(h.map Prod.fst).mem_iff, total_perm h key⟩

end Protheus.Tally
