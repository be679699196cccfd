import Mathlib

/-!
Shortest walks of a finite graph, and how many of them pass a vertex.

`count` is how many shortest walks there are between two vertices, and `through` how many
of these pass a third.  Both are numbers of walks of a length (`through_eq`), which powers
of the adjacency matrix count, and from these come the two recursions over the distance
from a vertex: for the counts (`count_eq`) and for the dependencies, the sums of the
fractions that pass a vertex (`dependency_eq`).  `sum_dependency` adds them up to the
betweenness.
-/

namespace Protheus.Geodesics

open Finset SimpleGraph

variable {V : Type*} (G : SimpleGraph V) {s t u v w : V}

/-! ## On the way -/

/-- A vertex comes right before another on the way from a start. -/
def Before (s v w : V) : Prop := G.Adj v w ∧ G.dist s v + 1 = G.dist s w

noncomputable instance (s w : V) : DecidablePred (Before G s · w) := Classical.decPred _

variable {G}

theorem Before.reachable (h : Before G s v w) (hv : G.Reachable s v) : G.Reachable s w :=
  hv.trans h.1.reachable

/-- Over an edge the distance grows by one at most. -/
theorem dist_le_succ (hv : G.Reachable s v) (hadj : G.Adj v w) : G.dist s w ≤ G.dist s v + 1 := by
  obtain ⟨p, hp⟩ := hv.exists_walk_length_eq_dist
  have hle := dist_le (p.concat hadj)
  rwa [Walk.length_concat, hp] at hle

theorem append_inj {p p' : G.Walk s v} {q q' : G.Walk v t} (hlength : p.length = p'.length)
    (h : p.append q = p'.append q') : p = p' ∧ q = q' := by
  have hsupport := congrArg Walk.support h
  rw [Walk.support_append, Walk.support_append] at hsupport
  have hlengths : p.support.length = p'.support.length := by
    rw [Walk.length_support, Walk.length_support, hlength]
  obtain ⟨hp, hq⟩ := List.append_inj hsupport hlengths
  refine ⟨Walk.ext_support hp, Walk.ext_support ?_⟩
  rw [← Walk.cons_tail_support q, ← Walk.cons_tail_support q', hq]

variable [Fintype V] [DecidableEq V] [DecidableRel G.Adj] {n : ℕ}

/-! ## Walks of a length -/

variable (G) in
/-- How many walks of a length there are from one vertex to another. -/
def walks (n : ℕ) (u v : V) : ℕ := #(G.finsetWalkLength n u v)

variable (G) in
theorem walks_eq (n : ℕ) (u v : V) : walks G n u v = (G.adjMatrix ℕ ^ n) u v := by
  rw [G.adjMatrix_pow_apply_eq_card_walk, card_set_walk_length_eq]
  rfl

theorem walks_zero : walks G 0 u v = if u = v then 1 else 0 := by
  rw [walks_eq, pow_zero, Matrix.one_apply]

/-- A walk that is not empty goes on from a neighbour. -/
theorem walks_succ : walks G (n + 1) u v = ∑ w with G.Adj u w, walks G n w v := by
  rw [walks_eq, pow_succ', adjMatrix_mul_apply, neighborFinset_eq_filter]
  exact sum_congr rfl fun w _ => (walks_eq G n w v).symm

/-- A walk that is not empty comes over a neighbour. -/
theorem walks_succ' : walks G (n + 1) u v = ∑ w with G.Adj w v, walks G n u w := by
  rw [walks_eq, pow_succ, mul_adjMatrix_apply, neighborFinset_eq_filter]
  refine sum_congr (filter_congr fun w _ => G.adj_comm v w) fun w _ => (walks_eq G n u w).symm

theorem walks_pos : 0 < walks G n u v ↔ ∃ p : G.Walk u v, p.length = n := by
  rw [walks, card_pos]
  exact exists_congr fun p => mem_finsetWalkLength_iff

theorem dist_le_of_walks_pos (h : 0 < walks G n u v) : G.dist u v ≤ n := by
  obtain ⟨p, rfl⟩ := walks_pos.mp h
  exact dist_le p

theorem walks_comm : walks G n u v = walks G n v u := by
  refine card_nbij' Walk.reverse Walk.reverse ?_ ?_ ?_ ?_
  · intro p hp
    have hlength := mem_finsetWalkLength_iff.mp hp
    exact mem_finsetWalkLength_iff.mpr ((Walk.length_reverse p).trans hlength)
  · intro p hp
    have hlength := mem_finsetWalkLength_iff.mp hp
    exact mem_finsetWalkLength_iff.mpr ((Walk.length_reverse p).trans hlength)
  · exact fun p _ => Walk.reverse_reverse p
  · exact fun p _ => Walk.reverse_reverse p

/-! ## Shortest walks -/

variable (G) in
/-- The shortest walks from one vertex to another. -/
noncomputable def geodesics (s t : V) : Finset (G.Walk s t) := G.finsetWalkLength (G.dist s t) s t

variable (G) in
/-- How many shortest walks there are. -/
noncomputable def count (s t : V) : ℕ := #(geodesics G s t)

variable (G) in
/-- How many of the shortest walks pass a vertex. -/
noncomputable def through (s t v : V) : ℕ := #{p ∈ geodesics G s t | v ∈ p.support}

theorem mem_geodesics {p : G.Walk s t} : p ∈ geodesics G s t ↔ p.length = G.dist s t :=
  mem_finsetWalkLength_iff

theorem count_self : count G s s = 1 := by
  have hwalks : count G s s = walks G 0 s s := by rw [count, geodesics, dist_self, walks]
  rw [hwalks, walks_zero, if_pos rfl]

theorem count_pos (h : G.Reachable s t) : 0 < count G s t := by
  obtain ⟨p, hp⟩ := h.exists_walk_length_eq_dist
  exact card_pos.mpr ⟨p, mem_geodesics.mpr hp⟩

/-- **The shortest walks to a vertex come over the vertices right before it.** -/
theorem count_eq (hw : G.Reachable s w) (hne : s ≠ w) :
    count G s w = ∑ v with Before G s v w, count G s v := by
  obtain ⟨n, hn⟩ := Nat.exists_eq_succ_of_ne_zero (hw.pos_dist_of_ne hne).ne'
  have hwalks : count G s w = walks G (n + 1) s w := by rw [count, geodesics, hn, walks]
  rw [hwalks, walks_succ']
  refine (sum_subset_zero_on_sdiff ?_ ?_ ?_).symm
  · intro v hv
    rw [mem_filter] at hv ⊢
    exact ⟨hv.1, hv.2.1⟩
  · intro v hv
    obtain ⟨hadj, hnot⟩ := mem_sdiff.mp hv
    have hadj : G.Adj v w := (mem_filter.mp hadj).2
    -- a walk to a neighbour that is not right before would be too short
    refine Nat.eq_zero_of_not_pos fun hpos => hnot (mem_filter.mpr ⟨mem_univ v, hadj, ?_⟩)
    have hle := dist_le_of_walks_pos hpos
    have hv : G.Reachable s v := hw.trans hadj.symm.reachable
    have hnext := dist_le_succ hv hadj
    omega
  · intro v hv
    have hdist := (mem_filter.mp hv).2.2
    have : G.dist s v = n := by omega
    rw [count, geodesics, this, walks]

/-! ## Shortest walks through a vertex -/

variable (G) in
/-- How many walks go on from a vertex to the end of a shortest walk. -/
noncomputable def onward (s v t : V) : ℕ := walks G (G.dist s t - G.dist s v) v t

theorem onward_self : onward G s v v = 1 := by
  rw [onward, Nat.sub_self, walks_zero, if_pos rfl]

/-- **A shortest walk through a vertex is a shortest walk to it and a walk on.** -/
theorem through_eq (hv : G.Reachable s v) (hne : v ≠ t) :
    through G s t v = count G s v * onward G s v t := by
  by_cases hle : G.dist s v ≤ G.dist s t
  · have hmap : through G s t v = #((geodesics G s v ×ˢ
        G.finsetWalkLength (G.dist s t - G.dist s v) v t).image fun pq => pq.1.append pq.2) := by
      rw [through]
      congr 1
      ext p
      rw [mem_filter, mem_geodesics, mem_image]
      constructor
      · rintro ⟨hlength, hmem⟩
        refine ⟨(p.takeUntil v hmem, p.dropUntil v hmem), ?_, p.take_spec hmem⟩
        have hsplit := congrArg Walk.length (p.take_spec hmem)
        rw [Walk.length_append] at hsplit
        have hfirst := dist_le (p.takeUntil v hmem)
        -- the walk on cannot be shorter than what is missing to the end
        have hlast : G.dist s t ≤ G.dist s v + (p.dropUntil v hmem).length := by
          obtain ⟨q, hq⟩ := hv.exists_walk_length_eq_dist
          have := dist_le (q.append (p.dropUntil v hmem))
          rwa [Walk.length_append, hq] at this
        rw [mem_product, mem_geodesics, mem_finsetWalkLength_iff]
        constructor
        · dsimp only
          omega
        · dsimp only
          omega
      · rintro ⟨⟨p, q⟩, hpq, rfl⟩
        rw [mem_product, mem_geodesics, mem_finsetWalkLength_iff] at hpq
        dsimp only at hpq ⊢
        refine ⟨?_, ?_⟩
        · rw [Walk.length_append]
          omega
        · rw [Walk.mem_support_append_iff]
          exact .inl p.end_mem_support
    rw [hmap, card_image_of_injOn, card_product]
    · rfl
    · rintro ⟨p, q⟩ hpq ⟨p', q'⟩ hpq' heq
      have hp := mem_geodesics.mp (mem_product.mp hpq).1
      have hp' := mem_geodesics.mp (mem_product.mp hpq').1
      obtain ⟨rfl, rfl⟩ := append_inj (hp.trans hp'.symm) heq
      rfl
  · have honward : onward G s v t = 0 := by
      rw [onward, Nat.sub_eq_zero_of_le (Nat.le_of_not_le hle), walks_zero, if_neg hne]
    rw [honward, mul_zero, through, card_eq_zero, filter_eq_empty_iff]
    intro p hp hmem
    have hfirst := dist_le (p.takeUntil v hmem)
    have hlength := p.length_takeUntil_le_length hmem
    rw [mem_geodesics.mp hp] at hlength
    omega

theorem onward_eq_zero (h : Before G s v w) : onward G s w v = 0 := by
  have hdist := h.2
  have hzero : G.dist s v - G.dist s w = 0 := by omega
  rw [onward, hzero, walks_zero, if_neg h.1.ne']

/-- **A walk on goes over the vertices right behind.** -/
theorem onward_eq (hv : G.Reachable s v) (ht : G.Reachable s t) (hne : v ≠ t) :
    onward G s v t = ∑ w with Before G s v w, onward G s w t := by
  by_cases hlt : G.dist s v < G.dist s t
  · obtain ⟨n, hn⟩ := Nat.exists_eq_add_of_lt hlt
    have hsub : G.dist s t - G.dist s v = n + 1 := by omega
    rw [onward, hsub, walks_succ]
    refine (sum_subset_zero_on_sdiff ?_ ?_ ?_).symm
    · intro w hw
      rw [mem_filter] at hw ⊢
      exact ⟨hw.1, hw.2.1⟩
    · intro w hw
      obtain ⟨hadj, hnot⟩ := mem_sdiff.mp hw
      have hadj : G.Adj v w := (mem_filter.mp hadj).2
      refine Nat.eq_zero_of_not_pos fun hpos => hnot (mem_filter.mpr ⟨mem_univ w, hadj, ?_⟩)
      obtain ⟨q, hq⟩ := walks_pos.mp hpos
      obtain ⟨p, hp⟩ := (hv.trans hadj.reachable).exists_walk_length_eq_dist
      have hle := dist_le (p.append q)
      rw [Walk.length_append, hp, hq] at hle
      have hnext := dist_le_succ hv hadj
      omega
    · intro w hw
      have hdist := (mem_filter.mp hw).2.2
      have hsub' : G.dist s t - G.dist s w = n := by omega
      rw [onward, hsub']
  · have hnone (u : V) (hu : G.dist s t ≤ G.dist s u) (hne : u ≠ t) : onward G s u t = 0 := by
      rw [onward, Nat.sub_eq_zero_of_le hu, walks_zero, if_neg hne]
    rw [hnone v (Nat.le_of_not_lt hlt) hne]
    refine (sum_eq_zero fun w hw => ?_).symm
    have hdist := (mem_filter.mp hw).2.2
    refine hnone w (by omega) ?_
    rintro rfl
    omega

/-! ## Dependencies -/

variable (G) in
/-- The fractions of the shortest walks from a start that pass a vertex, over all ends. -/
noncomputable def dependency (s v : V) : ℚ :=
  ∑ t with t ≠ v ∧ G.Reachable s t, (through G s t v : ℚ) / count G s t

variable (G) in
/-- The fractions of the walks on, over all ends. -/
noncomputable def reach (s v : V) : ℚ := ∑ t with G.Reachable s t, (onward G s v t : ℚ) / count G s t

theorem filter_ne (s v : V) :
    univ.filter (fun t => t ≠ v ∧ G.Reachable s t) = (univ.filter (G.Reachable s)).erase v := by
  ext t
  rw [mem_filter, mem_erase, mem_filter]
  tauto

theorem dependency_eq_reach (hv : G.Reachable s v) :
    1 + dependency G s v = count G s v * reach G s v := by
  have hpos : (count G s v : ℚ) ≠ 0 := Nat.cast_ne_zero.mpr (count_pos hv).ne'
  have hmem : v ∈ univ.filter (G.Reachable s) := mem_filter.mpr ⟨mem_univ v, hv⟩
  have hrest : dependency G s v =
      ∑ t ∈ (univ.filter (G.Reachable s)).erase v, count G s v * ((onward G s v t : ℚ) / count G s t) := by
    rw [dependency, filter_ne]
    refine sum_congr rfl fun t ht => ?_
    rw [through_eq hv (ne_of_mem_erase ht).symm]
    push_cast
    ring
  rw [reach, mul_sum, ← add_sum_erase _ _ hmem, hrest, onward_self, Nat.cast_one, mul_one_div_cancel hpos]

/-- What is behind a vertex is what is behind the vertices right behind it. -/
theorem reach_eq (hv : G.Reachable s v) :
    reach G s v = 1 / count G s v + ∑ w with Before G s v w, reach G s w := by
  have hmem : v ∈ univ.filter (G.Reachable s) := mem_filter.mpr ⟨mem_univ v, hv⟩
  have hself : ∑ w with Before G s v w, (onward G s w v : ℚ) / count G s v = 0 := by
    refine sum_eq_zero fun w hw => ?_
    rw [onward_eq_zero (mem_filter.mp hw).2, Nat.cast_zero, zero_div]
  have hrest : ∑ t ∈ (univ.filter (G.Reachable s)).erase v, (onward G s v t : ℚ) / count G s t =
      ∑ t ∈ (univ.filter (G.Reachable s)).erase v,
        ∑ w with Before G s v w, (onward G s w t : ℚ) / count G s t := by
    refine sum_congr rfl fun t ht => ?_
    have ht' : G.Reachable s t := (mem_filter.mp (mem_of_mem_erase ht)).2
    rw [onward_eq hv ht' (ne_of_mem_erase ht).symm, Nat.cast_sum, sum_div]
  unfold reach
  rw [← add_sum_erase _ _ hmem, hrest, onward_self, Nat.cast_one, sum_comm (s := univ.filter (Before G s v)),
    ← add_sum_erase _ _ hmem, hself, zero_add]

/-- **The dependency of a vertex comes from the vertices right behind it.** -/
theorem dependency_eq (hv : G.Reachable s v) : dependency G s v =
    ∑ w with Before G s v w, (count G s v : ℚ) / count G s w * (1 + dependency G s w) := by
  have hpos : (count G s v : ℚ) ≠ 0 := Nat.cast_ne_zero.mpr (count_pos hv).ne'
  have hstep : ∑ w with Before G s v w, (count G s v : ℚ) / count G s w * (1 + dependency G s w) =
      count G s v * ∑ w with Before G s v w, reach G s w := by
    rw [mul_sum]
    refine sum_congr rfl fun w hw => ?_
    have hw' := (mem_filter.mp hw).2.reachable hv
    have hpos' : (count G s w : ℚ) ≠ 0 := Nat.cast_ne_zero.mpr (count_pos hw').ne'
    rw [dependency_eq_reach hw']
    field_simp
  have hsum := dependency_eq_reach hv
  rw [reach_eq hv, mul_add, mul_one_div_cancel hpos] at hsum
  rw [hstep]
  exact add_left_cancel hsum

/-! ## Betweenness -/

/-- Over unordered pairs, once in each direction. -/
theorem sum_pairs {V : Type*} [Fintype V] [LinearOrder V] {f : V → V → ℚ} (hsymm : ∀ s t, f s t = f t s) (hself : ∀ s, f s s = 0) :
    ∑ s, ∑ t, f s t = 2 * ∑ p : V × V with p.1 < p.2, f p.1 p.2 := by
  have hsplit (s t : V) : f s t = (if s < t then f s t else 0) + if t < s then f s t else 0 := by
    rcases lt_trichotomy s t with hlt | rfl | hlt
    · rw [if_pos hlt, if_neg hlt.not_gt, add_zero]
    · rw [if_neg (lt_irrefl s), hself, add_zero]
    · rw [if_neg hlt.not_gt, if_pos hlt, zero_add]
  have hup : ∑ s, ∑ t, (if s < t then f s t else 0) = ∑ p : V × V with p.1 < p.2, f p.1 p.2 := by
    rw [sum_filter, Fintype.sum_prod_type]
  have hdown : ∑ s, ∑ t, (if t < s then f s t else 0) = ∑ s, ∑ t, if s < t then f s t else 0 := by
    rw [sum_comm]
    refine sum_congr rfl fun s _ => sum_congr rfl fun t _ => ?_
    rw [hsymm]
  calc ∑ s, ∑ t, f s t
      = ∑ s, ∑ t, ((if s < t then f s t else 0) + if t < s then f s t else 0) :=
        sum_congr rfl fun s _ => sum_congr rfl fun t _ => hsplit s t
    _ = ∑ s, ∑ t, (if s < t then f s t else 0) + ∑ s, ∑ t, if t < s then f s t else 0 := by
        simp only [sum_add_distrib]
    _ = 2 * ∑ p : V × V with p.1 < p.2, f p.1 p.2 := by
        rw [hdown, hup]
        ring

theorem through_comm : through G s t v = through G t s v := by
  have hmaps {s t : V} {p : G.Walk s t} (hp : p ∈ geodesics G s t ∧ v ∈ p.support) :
      p.reverse ∈ geodesics G t s ∧ v ∈ p.reverse.support := by
    refine ⟨mem_geodesics.mpr ?_, ?_⟩
    · rw [Walk.length_reverse, mem_geodesics.mp hp.1, dist_comm]
    · rw [Walk.support_reverse, List.mem_reverse]
      exact hp.2
  refine card_nbij' Walk.reverse Walk.reverse ?_ ?_ ?_ ?_
  · exact fun p hp => mem_filter.mpr (hmaps (mem_filter.mp hp))
  · exact fun p hp => mem_filter.mpr (hmaps (mem_filter.mp hp))
  · exact fun p _ => Walk.reverse_reverse p
  · exact fun p _ => Walk.reverse_reverse p

theorem count_comm : count G s t = count G t s := by
  have hwalks (s t : V) : count G s t = walks G (G.dist s t) s t := rfl
  rw [hwalks, hwalks, walks_comm, dist_comm]

variable (G) in
/-- The fraction of the shortest walks between two vertices that pass a third. -/
noncomputable def fraction (s t v : V) : ℚ := (through G s t v : ℚ) / count G s t

theorem fraction_comm : fraction G s t v = fraction G t s v := by
  rw [fraction, fraction, through_comm, count_comm]

/-- A walk from a vertex to itself passes no other. -/
theorem fraction_self (hne : s ≠ v) : fraction G s s v = 0 := by
  have hnone : through G s s v = 0 := by
    rw [through, card_eq_zero, filter_eq_empty_iff]
    intro p hp hmem
    rw [mem_geodesics, dist_self] at hp
    rw [Walk.eq_nil_iff_nil.mpr (Walk.length_eq_zero_iff.mp hp), Walk.support_nil, List.mem_singleton] at hmem
    exact hne hmem.symm
  rw [fraction, hnone, Nat.cast_zero, zero_div]

/-- What cannot be reached is not passed. -/
theorem fraction_eq_zero (hv : ¬G.Reachable s v) : fraction G s t v = 0 := by
  have hnone : through G s t v = 0 := by
    rw [through, card_eq_zero, filter_eq_empty_iff]
    exact fun p _ hmem => hv ⟨p.takeUntil v hmem⟩
  rw [fraction, hnone, Nat.cast_zero, zero_div]

section Ordered

variable [LinearOrder V]

variable (G) in
/-- The betweenness of a vertex: the fractions of the shortest walks that pass it, over the
unordered pairs of connected vertices other than it. -/
noncomputable def betweenness (v : V) : ℚ :=
  ∑ p : V × V with p.1 < p.2 ∧ p.1 ≠ v ∧ p.2 ≠ v ∧ G.Reachable p.1 p.2, fraction G p.1 p.2 v

/-- **The dependencies of a vertex, over all starts, are its betweenness in both directions.** -/
theorem sum_dependency (v : V) :
    ∑ s with s ≠ v ∧ G.Reachable s v, dependency G s v = 2 * betweenness G v := by
  let f (s t : V) : ℚ := if s ≠ v ∧ t ≠ v ∧ G.Reachable s t then fraction G s t v else 0
  have hsymm (s t : V) : f s t = f t s := by
    have hiff : (s ≠ v ∧ t ≠ v ∧ G.Reachable s t) ↔ t ≠ v ∧ s ≠ v ∧ G.Reachable t s := by
      rw [reachable_comm]
      tauto
    dsimp only [f]
    rw [fraction_comm]
    simp only [hiff]
  have hself (s : V) : f s s = 0 := by
    dsimp only [f]
    split
    · rename_i h
      exact fraction_self h.1
    · rfl
  have hfrom (s : V) : (if s ≠ v ∧ G.Reachable s v then dependency G s v else 0) = ∑ t, f s t := by
    by_cases hs : s ≠ v
    · by_cases hv : G.Reachable s v
      · rw [if_pos ⟨hs, hv⟩, dependency, sum_filter]
        refine sum_congr rfl fun t _ => ?_
        simp only [f, hs, not_false_eq_true, ne_eq, true_and, fraction]
      · rw [if_neg fun h => hv h.2]
        refine (sum_eq_zero fun t _ => ?_).symm
        dsimp only [f]
        rw [fraction_eq_zero hv, ite_self]
    · rw [if_neg fun h => hs h.1]
      refine (sum_eq_zero fun t _ => ?_).symm
      exact if_neg fun h => hs h.1
  rw [sum_filter, sum_congr rfl fun s _ => hfrom s, sum_pairs hsymm hself, betweenness]
  congr 1
  rw [sum_filter, sum_filter]
  refine sum_congr rfl fun p _ => ?_
  dsimp only [f]
  by_cases hlt : p.1 < p.2
  · simp only [hlt, true_and, if_true]
  · simp only [hlt, false_and, if_false]

end Ordered

end Protheus.Geodesics
