import Mathlib.Algebra.Order.BigOperators.Group.List
import Mathlib.Data.List.Sort

/-!
Ranking a list by a key, highest first, with rows of one key left in the order
they stood in.

`rank` is the meaning of a stable descending sort.  A sort that breaks ties by
the position a row came from computes it (`map_insertionSort_of_pairwise` takes
such a sort to `rank`), ranked rows never change places under it
(`sublist_rank`), and a row added at the end passes no row whose key is at least
its own (`take_rank_append`).
-/

namespace Protheus.Rank

variable {α β κ : Type*} [LinearOrder κ] {key : α → κ} {l c : List α}

/-- No row stands in front of one with a higher key. -/
def Ranked (key : α → κ) (l : List α) : Prop := l.Pairwise fun a b => key b ≤ key a

/-- The rows by descending key, ties in the order they stood in. -/
def rank (key : α → κ) (l : List α) : List α := l.insertionSort fun a b => key b ≤ key a

theorem rank_perm : (rank key l).Perm l := List.perm_insertionSort _ l

@[simp] theorem mem_rank {a : α} : a ∈ rank key l ↔ a ∈ l := rank_perm.mem_iff

instance total_key : Std.Total fun a b : α => key b ≤ key a := ⟨fun a b => le_total (key b) (key a)⟩

instance trans_key : IsTrans α fun a b => key b ≤ key a := ⟨fun _ _ _ hab hbc => hbc.trans hab⟩

theorem ranked_rank : Ranked key (rank key l) := List.pairwise_insertionSort (fun a b => key b ≤ key a) l

theorem Ranked.rank_eq (h : Ranked key l) : rank key l = l := h.insertionSort_eq

theorem Ranked.sublist (h : Ranked key l) (hc : c.Sublist l) : Ranked key c := List.Pairwise.sublist hc h

/-- Ranked rows keep their places among each other. -/
theorem sublist_rank (hc : Ranked key c) (h : c.Sublist l) : c.Sublist (rank key l) :=
  List.sublist_insertionSort hc h

theorem rank_map {f : β → α} {l : List β} :
    rank key (l.map f) = (rank (key ∘ f) l).map f :=
  (List.map_insertionSort _ _ f l fun _ _ _ _ => Iff.rfl).symm

/-- A row that ranks no higher than the first `n` leaves them where they stand. -/
theorem take_rank_append (x : α) : ∀ (n : ℕ) {l : List α}, Ranked key l →
    (∀ a ∈ l.take n, key x ≤ key a) → (rank key (l ++ [x])).take (min n l.length) = l.take n
  | 0, _, _, _ => by simp
  | n + 1, [], _, _ => by simp
  | n + 1, a :: l, hl, hx => by
    obtain ⟨ha, hl⟩ := List.pairwise_cons.mp hl
    have hxa : key x ≤ key a := hx a (by simp)
    have hall : ∀ b ∈ l ++ [x], key b ≤ key a := by
      intro b hb
      rcases List.mem_append.mp hb with hb | hb
      · exact ha b hb
      · rwa [List.mem_singleton.mp hb]
    have ih := take_rank_append x n hl fun b hb => hx b (by simp [hb])
    rw [rank] at ih ⊢
    rw [List.cons_append, List.insertionSort_cons_of_forall_rel _ hall, List.length_cons,
      Nat.add_min_add_right, List.take_succ_cons, List.take_succ_cons, ih]

/-- A sort that decides each pair as `s` decides it after `f`, whenever the first
stood before the second, is the sort by `s` after `f`. -/
theorem map_insertionSort_of_pairwise {r : β → β → Prop} [DecidableRel r] {s : α → α → Prop}
    [DecidableRel s] (f : β → α) : ∀ {l : List β}, l.Pairwise (fun a b => r a b ↔ s (f a) (f b)) →
    (l.insertionSort r).map f = (l.map f).insertionSort s
  | [], _ => rfl
  | a :: l, h => by
    obtain ⟨ha, hl⟩ := List.pairwise_cons.mp h
    have hins : ∀ {m : List β}, (∀ b ∈ m, r a b ↔ s (f a) (f b)) →
        (m.orderedInsert r a).map f = (m.map f).orderedInsert s (f a) := by
      intro m hm
      induction m with
      | nil => rfl
      | cons b m ih =>
        by_cases hab : r a b
        · simp [hab, (hm b (by simp)).mp hab]
        · simp [hab, mt (hm b (by simp)).mpr hab, ih fun c hc => hm c (by simp [hc])]
    rw [List.insertionSort_cons, List.map_cons, List.insertionSort_cons,
      hins fun b hb => ha b ((List.mem_insertionSort r).mp hb), map_insertionSort_of_pairwise f hl]

/-- Lists whose items a map tells apart are told by their images. -/
theorem eq_of_map_eq {f : α → β} : ∀ {c c' : List α}, (∀ a ∈ c, ∀ b ∈ c', f a = f b → a = b) →
    c.map f = c'.map f → c = c'
  | [], [], _, _ => rfl
  | a :: c, b :: c', hinj, h => by
    obtain ⟨hhead, htail⟩ := List.cons.inj h
    rw [hinj a List.mem_cons_self b List.mem_cons_self hhead,
      eq_of_map_eq (fun a ha b hb => hinj a (List.mem_cons_of_mem _ ha) b (List.mem_cons_of_mem _ hb)) htail]

/-- Among rows that occur once, a part of the list that lies in another part stands
in it in the same order. -/
theorem sublist_of_forall_mem [DecidableEq α] {p : List α} (hl : l.Nodup) (hc : c.Sublist l)
    (hp : p.Sublist l) (hmem : ∀ a ∈ p, a ∈ c) : p.Sublist c := by
  have hfilter : l.filter (· ∈ c) = c := by
    have hle := hc.filter (· ∈ c)
    rw [List.filter_eq_self.mpr fun a ha => decide_eq_true ha] at hle
    refine (hle.eq_of_length_le ?_).symm
    exact (List.subperm_of_subset (hl.filter _)
      fun a ha => of_decide_eq_true (List.mem_filter.mp ha).2).length_le
  rw [← hfilter, ← List.filter_eq_self.mpr (fun a ha => decide_eq_true (hmem a ha))]
  exact hp.filter _

/-- Rows that a map only shuffles keep every potential the map never raises. -/
theorem potential_eq_of_perm_map {M : Type*} [AddCommMonoid M] [PartialOrder M]
    [IsOrderedCancelAddMonoid M] {φ : α → M} {g : α → α} (hperm : (l.map g).Perm l)
    (hφ : ∀ a ∈ l, φ (g a) ≤ φ a) : ∀ a ∈ l, φ (g a) = φ a := by
  have hsum : (l.map fun a => φ (g a)).sum = (l.map φ).sum := by
    have h := (hperm.map φ).sum_eq
    rwa [List.map_map] at h
  clear hperm
  induction l with
  | nil => exact fun a ha => absurd ha List.not_mem_nil
  | cons a l ih =>
    have hhead := hφ a (by simp)
    have htail : (l.map fun b => φ (g b)).sum ≤ (l.map φ).sum :=
      List.sum_le_sum fun b hb => hφ b (by simp [hb])
    rw [List.map_cons, List.sum_cons, List.map_cons, List.sum_cons,
      add_eq_add_iff_eq_and_eq hhead htail] at hsum
    intro b hb
    cases hb with
    | head => exact hsum.1
    | tail _ hb => exact ih (fun c hc => hφ c (by simp [hc])) hsum.2 b hb

/-! ## Other orders -/

/-- A sort by a key that tells the rows apart does not see the order they stand in. -/
theorem insertionSort_eq_of_perm {r : α → α → Prop} [DecidableRel r]
    (hr : ∀ a b, r a b ↔ key a ≤ key b) {l l' : List α} (h : l.Perm l')
    (hinj : ∀ a ∈ l, ∀ b ∈ l, key a = key b → a = b) : l.insertionSort r = l'.insertionSort r := by
  have htotal : Std.Total r := ⟨fun a b => by rw [hr, hr]; exact le_total _ _⟩
  have htrans : IsTrans α r := ⟨fun a b c => by rw [hr, hr, hr]; exact le_trans⟩
  refine List.Perm.eq_of_pairwise (fun a b ha hb hab hba => ?_) (List.pairwise_insertionSort r l)
    (List.pairwise_insertionSort r l') ?_
  · rw [List.mem_insertionSort] at ha hb
    exact hinj a ha b (h.mem_iff.mpr hb) (le_antisymm ((hr a b).mp hab) ((hr b a).mp hba))
  · exact (List.perm_insertionSort r l).trans (h.trans (List.perm_insertionSort r l').symm)

end Protheus.Rank
