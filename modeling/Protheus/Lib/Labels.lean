import Mathlib.Data.List.Nodup
import Mathlib.Data.List.ReduceOption
import Protheus.RustStd

/-!
Labels for the entries of a list, and when they are all different.

An entry has a label of its own or the spare one of its place (`labels`).  Where entries come
in blocks, a block is a run of numbered labels or one label (`Block`), and the labels of all
blocks differ when no two blocks meet (`nodup_blocks_iff`).
-/

namespace Protheus.Labels

/-! ## Own and spare labels -/

section Spare

variable {β : Type*}

/-- The label of each entry: its own, or the spare one of its place. -/
def labels (spare : ℕ → β) (own : List (Option β)) : List β :=
  own.mapIdx fun i label => label.getD (spare i)

/-- Own labels differ, and none is the spare label of an entry without one. -/
structure Apart (spare : ℕ → β) (own : List (Option β)) : Prop where
  nodup : own.reduceOption.Nodup
  notMem : ∀ i, own[i]? = some none → some (spare i) ∉ own

variable {spare : ℕ → β} {own : List (Option β)}

theorem labels_cons (label : Option β) :
    labels spare (label :: own) = label.getD (spare 0) :: labels (fun i => spare (i + 1)) own := by
  rw [labels, List.mapIdx_cons]
  rfl

theorem mem_labels {x : β} :
    x ∈ labels spare own ↔ some x ∈ own ∨ ∃ i, own[i]? = some none ∧ x = spare i := by
  rw [labels, List.mem_mapIdx]
  constructor
  · rintro ⟨i, hi, rfl⟩
    cases hlabel : own[i] with
    | none => exact .inr ⟨i, by rw [List.getElem?_eq_getElem hi, hlabel], rfl⟩
    | some x => exact .inl (hlabel ▸ List.getElem_mem hi)
  · rintro (hmem | ⟨i, hi, rfl⟩)
    · obtain ⟨i, hi, hlabel⟩ := List.getElem_of_mem hmem
      exact ⟨i, hi, by rw [hlabel, Option.getD_some]⟩
    · obtain ⟨hlt, hlabel⟩ := List.getElem?_eq_some_iff.mp hi
      exact ⟨i, hlt, by rw [hlabel, Option.getD_none]⟩

/-- An entry is apart from those after it when its label is no own label of theirs and none of
their spare ones. -/
theorem apart_cons_iff (hspare : spare.Injective) (label : Option β) :
    Apart spare (label :: own) ↔ label.getD (spare 0) ∉ labels (fun i => spare (i + 1)) own ∧
      Apart (fun i => spare (i + 1)) own := by
  cases label with
  | none =>
    rw [Option.getD_none, mem_labels]
    constructor
    · intro h
      have hown : own.reduceOption.Nodup := by simpa only [List.reduceOption_cons_of_none] using h.nodup
      refine ⟨?_, hown, fun i hi hmem => h.notMem (i + 1) (by simpa using hi) (.tail _ hmem)⟩
      rintro (hmem | ⟨i, -, heq⟩)
      · exact h.notMem 0 rfl (.tail _ hmem)
      · exact absurd (hspare heq) (by omega)
    · rintro ⟨hnot, h⟩
      refine ⟨by simpa only [List.reduceOption_cons_of_none] using h.nodup, fun i hi hmem => ?_⟩
      have hmem : some (spare i) ∈ own := by simpa using hmem
      cases i with
      | zero => exact hnot (.inl hmem)
      | succ i => exact h.notMem i (by simpa using hi) hmem
  | some x =>
    rw [Option.getD_some, mem_labels]
    constructor
    · intro h
      have hown := h.nodup
      rw [List.reduceOption_cons_of_some, List.nodup_cons, List.reduceOption_mem_iff] at hown
      refine ⟨?_, hown.2, fun i hi hmem => h.notMem (i + 1) (by simpa using hi) (.tail _ hmem)⟩
      rintro (hmem | ⟨i, hi, rfl⟩)
      · exact hown.1 hmem
      · exact h.notMem (i + 1) (by simpa using hi) (.head _)
    · rintro ⟨hnot, h⟩
      refine ⟨?_, fun i hi hmem => ?_⟩
      · rw [List.reduceOption_cons_of_some, List.nodup_cons, List.reduceOption_mem_iff]
        exact ⟨fun hmem => hnot (.inl hmem), h.nodup⟩
      · cases i with
        | zero => simp at hi
        | succ i =>
          have hi : own[i]? = some none := by simpa using hi
          rcases List.mem_cons.mp hmem with heq | hmem
          · exact hnot (.inr ⟨i, hi, (Option.some.inj heq).symm⟩)
          · exact h.notMem i hi hmem

/-- **The labels differ if and only if the entries are apart.** -/
theorem nodup_labels_iff (hspare : spare.Injective) : (labels spare own).Nodup ↔ Apart spare own := by
  induction own generalizing spare with
  | nil => exact ⟨fun _ => ⟨List.nodup_nil, fun i hi => by simp at hi⟩, fun _ => List.nodup_nil⟩
  | cons label own ih =>
    have hnext : (fun i => spare (i + 1)).Injective := fun i j h => Nat.succ_injective (hspare h)
    rw [labels_cons, List.nodup_cons, apart_cons_iff hspare, ih hnext]

end Spare

/-! ## Blocks -/

/-- What one item gives labels to: so many numbered ones under a word, or one. -/
inductive Block (ω β : Type*) where
  | run (word : ω) (count : ℕ)
  | one (label : β)

namespace Block

variable {ω β : Type*} (number : ω → ℕ → β)

def labels : Block ω β → List β
  | run word count => (List.range count).map (number word)
  | one label => [label]

/-- Two blocks have a label in common. -/
def Meets : Block ω β → Block ω β → Prop
  | run v m, run w n => v = w ∧ 0 < m ∧ 0 < n
  | run w n, one label => ∃ k < n, number w k = label
  | one label, run w n => ∃ k < n, number w k = label
  | one a, one b => a = b

variable {number} (hnumber : ∀ {v w : ω} {i j : ℕ}, number v i = number w j → v = w ∧ i = j)
include hnumber

theorem disjoint_labels_iff (a b : Block ω β) :
    List.Disjoint (a.labels number) (b.labels number) ↔ ¬ a.Meets number b := by
  cases a with
  | run v m =>
    cases b with
    | run w n =>
      constructor
      · rintro h ⟨rfl, hm, hn⟩
        exact h (List.mem_map.mpr ⟨0, List.mem_range.mpr hm, rfl⟩)
          (List.mem_map.mpr ⟨0, List.mem_range.mpr hn, rfl⟩)
      · intro hnot x hx hy
        obtain ⟨i, hi, rfl⟩ := List.mem_map.mp hx
        obtain ⟨j, hj, heq⟩ := List.mem_map.mp hy
        obtain ⟨rfl, rfl⟩ := hnumber heq
        have hm : j < m := List.mem_range.mp hi
        have hn : j < n := List.mem_range.mp hj
        exact hnot ⟨rfl, by omega, by omega⟩
    | one label =>
      rw [labels, labels, List.disjoint_singleton, List.mem_map]
      simp [Meets]
  | one label =>
    cases b with
    | run w n =>
      rw [labels, labels, List.singleton_disjoint, List.mem_map]
      simp [Meets]
    | one other =>
      rw [labels, labels, List.singleton_disjoint, List.mem_singleton]
      rfl

theorem nodup_labels (a : Block ω β) : (a.labels number).Nodup := by
  cases a with
  | run word count => exact List.nodup_range.map fun i j h => (hnumber h).2
  | one label => exact List.nodup_singleton label

/-- **The labels of all blocks differ if and only if no two blocks meet.** -/
theorem nodup_blocks_iff (blocks : List (Block ω β)) :
    (blocks.flatMap (labels number)).Nodup ↔ blocks.Pairwise fun a b => ¬ a.Meets number b := by
  rw [List.nodup_flatMap, and_iff_right fun a _ => nodup_labels hnumber a]
  exact List.Pairwise.iff fun a b => disjoint_labels_iff hnumber a b

end Block

/-! ## Numbered words -/

/-- A word with a number, counted from one. -/
def numbered (word : String) (k : ℕ) : String := s!"{word}_{k + 1}"

theorem toList_numbered (word : String) (k : ℕ) :
    (numbered word k).toList = word.toList ++ '_' :: (toString (k + 1)).toList := by
  simp [numbered, toString]

theorem numbered_inj {v w : String} {i j : ℕ} (h : numbered v i = numbered w j) : v = w ∧ i = j := by
  have hdigits (n : ℕ) : '_' ∉ (toString n).toList := RustStd.notMem_toString rfl n
  have hlist := congrArg String.toList h
  rw [toList_numbered, toList_numbered] at hlist
  obtain ⟨hword, hnumber⟩ := RustStd.append_cons_inj_last (hdigits _) (hdigits _) hlist
  have hnat : i + 1 = j + 1 := RustStd.toString_injective (String.toList_injective hnumber)
  exact ⟨String.toList_injective hword, by omega⟩

theorem numbered_injective (word : String) : (numbered word).Injective := fun _ _ h => (numbered_inj h).2

end Protheus.Labels
