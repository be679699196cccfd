import Protheus.GraphToolkit.Adjacency

/-!
`pagerank` of `algorithms.rs`.

A turn hands the rank of every node on along its edges, and that of a node without edges
to all.  `sum_flow` says that no rank is lost on the way, so that the rescaling at the end
of a turn divides by one.  `getD_flow` says what a single node is handed, by a sum over
all nodes, and shows that the order of the nodes does not matter.
-/

namespace Protheus.GraphToolkit

open Std (ExtTreeMap)
open V8Kernel

/-! ## The algorithm -/

/-- The weight out of a node that its shares are taken of. -/
def denom (out : List (ℕ × ℚ)) : ℚ := max (out.map Prod.snd).sum (1 / 10 ^ 12)

/-- The loop over the edges of a node of a rank. -/
def spread (damping rank : ℚ) (out : List (ℕ × ℚ)) (next : List ℚ) : List ℚ :=
  out.foldl (fun next entry => next.modify entry.1 (· + damping * (rank * entry.2 / denom out))) next

structure Handed where
  next : List ℚ
  danglingMass : ℚ := 0

/-- One round of the loop over the nodes. -/
def handOn (adj : Adj) (damping : ℚ) (rank : List ℚ) (handed : Handed) (i : ℕ) : Handed :=
  let out := Adj.row adj i
  if out.isEmpty then { handed with danglingMass := handed.danglingMass + rank.getD i 0 }
  else { handed with next := spread damping (rank.getD i 0) out handed.next }

/-- The loop over the nodes. -/
def handAll (adj : Adj) (damping : ℚ) (rank : List ℚ) : Handed :=
  (List.range adj.length).foldl (handOn adj damping rank)
    { next := List.replicate adj.length ((1 - damping) / adj.length) }

/-- The next ranks before they are rescaled. -/
def flow (adj : Adj) (damping : ℚ) (rank : List ℚ) : List ℚ :=
  let handed := handAll adj damping rank
  if 0 < handed.danglingMass then
    handed.next.map (· + damping * handed.danglingMass / adj.length)
  else handed.next

/-- Each value over the sum of all. -/
def rescale (next : List ℚ) : List ℚ := next.map (· / max next.sum (1 / 10 ^ 12))

/-- The ranks after so many turns. -/
def ranksAfter (adj : Adj) (damping : ℚ) : ℕ → List ℚ
  | 0 => List.replicate adj.length (1 / adj.length)
  | turns + 1 => rescale (flow adj damping (ranksAfter adj damping turns))

/-- `pagerank`. -/
def pagerank (adj : Adj) (damping : ℚ) (iterations : ℕ) : List ℚ :=
  if adj.length = 0 then [] else ranksAfter adj (RustStd.clamp damping 0 1) (max iterations 1)

/-! ## What is handed on -/

section Spread

variable {damping rank d : ℚ} {entries : List (ℕ × ℚ)} {next : List ℚ}

theorem sum_modify (x : ℚ) : ∀ {next : List ℚ} {i : ℕ}, i < next.length →
    (next.modify i (· + x)).sum = next.sum + x
  | _ :: _, 0, _ => by
    rw [List.modify_zero_cons, List.sum_cons, List.sum_cons]
    ring
  | a :: next, i + 1, h => by
    rw [List.modify_succ_cons, List.sum_cons, List.sum_cons,
      sum_modify x (Nat.lt_of_succ_lt_succ h), add_assoc]

theorem getD_modify (x : ℚ) (next : List ℚ) (i j : ℕ) (hj : j < next.length) :
    (next.modify i (· + x)).getD j 0 = next.getD j 0 + if i = j then x else 0 := by
  rw [List.getD_eq_getElem?_getD, List.getElem?_modify, List.getD_eq_getElem?_getD,
    List.getElem?_eq_getElem hj]
  by_cases hij : i = j
  · simp [hij]
  · simp [hij]

/-- The loop over some edges of a node, whatever the shares are taken of. -/
def spreadOver (damping rank d : ℚ) (entries : List (ℕ × ℚ)) (next : List ℚ) : List ℚ :=
  entries.foldl (fun next entry => next.modify entry.1 (· + damping * (rank * entry.2 / d))) next

@[simp]
theorem length_spreadOver (entries : List (ℕ × ℚ)) :
    ∀ next : List ℚ, (spreadOver damping rank d entries next).length = next.length := by
  induction entries with
  | nil => exact fun _ => rfl
  | cons entry entries ih =>
    intro next
    exact (ih _).trans (List.length_modify ..)

/-- The shares of a node add up to its weights over what they are taken of. -/
theorem sum_spreadOver (hbound : ∀ entry ∈ entries, entry.1 < next.length) :
    (spreadOver damping rank d entries next).sum =
      next.sum + damping * (rank * (entries.map Prod.snd).sum / d) := by
  induction entries generalizing next with
  | nil => simp [spreadOver]
  | cons entry entries ih =>
    have hfirst := hbound entry List.mem_cons_self
    have hrest : ∀ other ∈ entries,
        other.1 < (next.modify entry.1 (· + damping * (rank * entry.2 / d))).length := by
      intro other hother
      rw [List.length_modify]
      exact hbound other (List.mem_cons_of_mem _ hother)
    have hih := ih hrest
    rw [sum_modify _ hfirst] at hih
    rw [List.map_cons, List.sum_cons]
    refine hih.trans ?_
    ring

theorem getD_spreadOver {j : ℕ} (hj : j < next.length) :
    (spreadOver damping rank d entries next).getD j 0 =
      next.getD j 0 + damping * (rank * weightTo entries j / d) := by
  induction entries generalizing next with
  | nil => simp [spreadOver, weightTo]
  | cons entry entries ih =>
    have hmodify : j < (next.modify entry.1 (· + damping * (rank * entry.2 / d))).length := by
      rwa [List.length_modify]
    have hih := ih hmodify
    rw [getD_modify _ _ _ _ hj] at hih
    rw [weightTo, List.map_cons, List.sum_cons]
    refine hih.trans ?_
    rw [weightTo]
    split <;> ring

end Spread

section Turns

variable {count : ℕ} {adj : Adj} {damping : ℚ} {rank : List ℚ}

/-- The floor under the weights out of a node is never reached. -/
theorem Regular.denom_eq (h : Regular count adj) {i : ℕ} (hi : Adj.row adj i ≠ []) :
    denom (Adj.row adj i) = ((Adj.row adj i).map Prod.snd).sum :=
  max_eq_left (le_trans (by norm_num) (h.le_sum hi))

theorem Regular.denom_pos (h : Regular count adj) {i : ℕ} (hi : Adj.row adj i ≠ []) :
    0 < denom (Adj.row adj i) := by
  rw [h.denom_eq hi]
  exact lt_of_lt_of_le (by norm_num) (h.le_sum hi)

/-- The rank that a node hands to another. -/
def handedTo (adj : Adj) (rank : List ℚ) (i j : ℕ) : ℚ :=
  rank.getD i 0 * weightTo (Adj.row adj i) j / denom (Adj.row adj i)

/-- The rank of a node without edges. -/
def dangling (adj : Adj) (rank : List ℚ) (i : ℕ) : ℚ :=
  if (Adj.row adj i).isEmpty then rank.getD i 0 else 0

/-- The rank of a node with edges. -/
def spent (adj : Adj) (rank : List ℚ) (i : ℕ) : ℚ :=
  if (Adj.row adj i).isEmpty then 0 else rank.getD i 0

/-- What the loop over some of the nodes hands on. -/
structure Hands (adj : Adj) (damping : ℚ) (rank : List ℚ) (nodes : List ℕ) (before after : Handed) : Prop where
  length : after.next.length = before.next.length
  sum : after.next.sum = before.next.sum + damping * (nodes.map (spent adj rank)).sum
  node : ∀ j < before.next.length, after.next.getD j 0 =
    before.next.getD j 0 + damping * (nodes.map (handedTo adj rank · j)).sum
  danglingMass : after.danglingMass = before.danglingMass + (nodes.map (dangling adj rank)).sum

theorem Regular.handOn (h : Regular count adj) (damping : ℚ) (rank : List ℚ) {handed : Handed}
    (hlength : handed.next.length = count)
    (i : ℕ) : Hands adj damping rank [i] handed (handOn adj damping rank handed i) := by
  unfold GraphToolkit.handOn
  dsimp only
  split
  · rename_i hempty
    have hnil := List.isEmpty_iff.mp hempty
    refine ⟨rfl, ?_, fun j _ => ?_, ?_⟩
    · simp [spent, hnil]
    · simp [handedTo, hnil, weightTo]
    · simp [dangling, hnil]
  · rename_i hempty
    have hne : Adj.row adj i ≠ [] := fun hnil => hempty (List.isEmpty_iff.mpr hnil)
    have hpos := h.denom_pos hne
    have hbound : ∀ entry ∈ Adj.row adj i, entry.1 < handed.next.length := by
      rw [hlength]
      exact h.bounded i
    refine ⟨length_spreadOver _ _, ?_, fun j hj => ?_, ?_⟩
    · have hall : rank.getD i 0 * ((Adj.row adj i).map Prod.snd).sum / denom (Adj.row adj i) =
          rank.getD i 0 := by
        rw [← h.denom_eq hne]
        exact mul_div_cancel_right₀ _ hpos.ne'
      refine (sum_spreadOver hbound).trans ?_
      rw [hall]
      simp [spent, hempty]
    · refine (getD_spreadOver hj).trans ?_
      simp [handedTo]
    · simp [dangling, hempty]

theorem Regular.handOns (h : Regular count adj) (nodes : List ℕ) : ∀ {handed : Handed},
    handed.next.length = count →
    Hands adj damping rank nodes handed (nodes.foldl (GraphToolkit.handOn adj damping rank) handed) := by
  induction nodes with
  | nil =>
    intro handed _
    exact ⟨rfl, by simp, fun _ _ => by simp, by simp⟩
  | cons i nodes ih =>
    intro handed hlength
    have hstep := h.handOn damping rank hlength i
    have hrest := ih (hstep.length.trans hlength)
    refine ⟨hrest.length.trans hstep.length, ?_, fun j hj => ?_, ?_⟩
    · refine hrest.sum.trans ?_
      rw [hstep.sum, List.map_cons, List.map_nil, List.map_cons, List.sum_cons, List.sum_cons]
      simp only [List.sum_nil]
      ring
    · refine (hrest.node j (hstep.length.symm ▸ hj)).trans ?_
      rw [hstep.node j hj, List.map_cons, List.map_nil, List.map_cons, List.sum_cons, List.sum_cons]
      simp only [List.sum_nil]
      ring
    · refine hrest.danglingMass.trans ?_
      rw [hstep.danglingMass, List.map_cons, List.map_nil, List.map_cons, List.sum_cons, List.sum_cons]
      simp only [List.sum_nil]
      ring

theorem Regular.handAll (h : Regular count adj) (damping : ℚ) (rank : List ℚ) : Hands adj damping rank (List.range count)
    { next := List.replicate count ((1 - damping) / count) } (handAll adj damping rank) := by
  rw [GraphToolkit.handAll, h.length]
  exact h.handOns _ (List.length_replicate)

theorem length_flow (h : Regular count adj) : (flow adj damping rank).length = count := by
  have hlength := (h.handAll damping rank).length
  rw [List.length_replicate] at hlength
  rw [flow]
  split
  · rwa [List.length_map]
  · exact hlength

/-- The entries of a vector. -/
theorem map_getD_range {rank : List ℚ} (hlength : rank.length = count) :
    (List.range count).map (rank.getD · 0) = rank := by
  subst hlength
  refine List.ext_getElem (by simp) fun i hi hi' => ?_
  rw [List.getElem_map, List.getElem_range, List.getD_eq_getElem _ _ hi']

/-- A node's rank is spent along its edges, or is dangling. -/
theorem sum_spent_add_dangling (adj : Adj) (hlength : rank.length = count) :
    ((List.range count).map (spent adj rank)).sum + ((List.range count).map (dangling adj rank)).sum =
      rank.sum := by
  rw [← List.sum_map_add]
  have heach : (fun i => spent adj rank i + dangling adj rank i) = (rank.getD · 0) := by
    funext i
    unfold spent dangling
    split
    · exact zero_add _
    · exact add_zero _
  rw [heach, map_getD_range hlength]

/-- Ranks that are a probability distribution. -/
structure Distribution (count : ℕ) (rank : List ℚ) : Prop where
  length : rank.length = count
  nonneg : ∀ j, 0 ≤ rank.getD j 0
  sum : rank.sum = 1

theorem dangling_nonneg (adj : Adj) (hrank : Distribution count rank) :
    0 ≤ ((List.range count).map (dangling adj rank)).sum := by
  refine List.sum_nonneg fun w hw => ?_
  obtain ⟨i, -, rfl⟩ := List.mem_map.mp hw
  unfold dangling
  split
  · exact hrank.nonneg i
  · exact le_rfl

theorem Regular.danglingMass_eq (h : Regular count adj) (damping : ℚ) :
    (GraphToolkit.handAll adj damping rank).danglingMass = ((List.range count).map (dangling adj rank)).sum := by
  rw [(h.handAll damping rank).danglingMass]
  exact zero_add _

/-- **A turn loses no rank.** -/
theorem Regular.sum_flow (h : Regular count adj) (hcount : count ≠ 0) (hrank : Distribution count rank) :
    (flow adj damping rank).sum = 1 := by
  have hhands := h.handAll damping rank
  have hcast : (count : ℚ) ≠ 0 := Nat.cast_ne_zero.mpr hcount
  have hlength : (GraphToolkit.handAll adj damping rank).next.length = count :=
    hhands.length.trans (List.length_replicate)
  have hbase : (List.replicate count ((1 - damping) / (count : ℚ))).sum = 1 - damping := by
    rw [List.sum_replicate, nsmul_eq_mul]
    exact mul_div_cancel₀ _ hcast
  have hsum := hhands.sum
  dsimp only at hsum
  rw [hbase] at hsum
  have hsplit := sum_spent_add_dangling adj hrank.length
  rw [hrank.sum, ← h.danglingMass_eq damping] at hsplit
  rw [flow, h.length]
  split
  · rw [List.sum_map_add, List.map_id', List.map_const', List.sum_replicate, hlength, nsmul_eq_mul,
      mul_div_cancel₀ _ hcast, hsum]
    linear_combination damping * hsplit
  · rename_i hzero
    have hnonneg := dangling_nonneg adj hrank
    rw [← h.danglingMass_eq damping] at hnonneg
    have hnone := le_antisymm (not_lt.mp hzero) hnonneg
    rw [hsum]
    linear_combination damping * hsplit - damping * hnone

/-- **What a turn hands to a node.** -/
theorem Regular.getD_flow (h : Regular count adj) (hrank : Distribution count rank) {j : ℕ}
    (hj : j < count) : (flow adj damping rank).getD j 0 = (1 - damping) / count +
      damping * ((List.range count).map (handedTo adj rank · j)).sum +
      damping * ((List.range count).map (dangling adj rank)).sum / count := by
  have hhands := h.handAll damping rank
  have hnode := hhands.node j (by rwa [List.length_replicate])
  have hbase : (List.replicate count ((1 - damping) / (count : ℚ))).getD j 0 = (1 - damping) / count := by
    rw [List.getD_eq_getElem _ _ (by rwa [List.length_replicate]), List.getElem_replicate]
  dsimp only at hnode
  rw [hbase] at hnode
  have hnext : j < (GraphToolkit.handAll adj damping rank).next.length := by
    rw [hhands.length, List.length_replicate]
    exact hj
  rw [flow, h.length, ← h.danglingMass_eq damping]
  split
  · rw [List.getD_eq_getElem _ _ (by rwa [List.length_map]), List.getElem_map,
      ← List.getD_eq_getElem _ 0 hnext, hnode]
  · rename_i hzero
    have hnonneg := dangling_nonneg adj hrank
    rw [← h.danglingMass_eq damping] at hnonneg
    rw [hnode, le_antisymm (not_lt.mp hzero) hnonneg]
    simp

theorem Regular.handedTo_nonneg (h : Regular count adj) (hrank : Distribution count rank) (i j : ℕ) :
    0 ≤ handedTo adj rank i j := by
  have hweights : ∀ entry ∈ Adj.row adj i, 0 ≤ entry.2 := fun entry hentry =>
    le_trans (by norm_num) (h.weight i entry hentry)
  have hdenom : 0 ≤ denom (Adj.row adj i) := le_max_of_le_right (by norm_num)
  exact div_nonneg (mul_nonneg (hrank.nonneg i) (weightTo_nonneg hweights j)) hdenom

/-- **A turn keeps a distribution.** -/
theorem Regular.distribution_flow (h : Regular count adj) (hcount : count ≠ 0)
    (hdamping : 0 ≤ damping ∧ damping ≤ 1) (hrank : Distribution count rank) :
    Distribution count (flow adj damping rank) where
  length := length_flow h
  nonneg j := by
    by_cases hj : j < count
    · rw [h.getD_flow hrank hj]
      have hflow : 0 ≤ ((List.range count).map (handedTo adj rank · j)).sum := by
        refine List.sum_nonneg fun w hw => ?_
        obtain ⟨i, -, rfl⟩ := List.mem_map.mp hw
        exact h.handedTo_nonneg hrank i j
      have hdangling := dangling_nonneg adj hrank
      have hrest : 0 ≤ 1 - damping := sub_nonneg.mpr hdamping.2
      have hleft := hdamping.1
      positivity
    · rw [List.getD_eq_default _ _ ((length_flow h).trans_le (Nat.le_of_not_lt hj))]
  sum := h.sum_flow hcount hrank

/-- Values that sum to one are not rescaled. -/
theorem rescale_eq_self {next : List ℚ} (h : next.sum = 1) : rescale next = next := by
  have hone : max next.sum (1 / 10 ^ 12) = 1 := by
    rw [h]
    norm_num
  rw [rescale, hone]
  simp

theorem distribution_start (hcount : count ≠ 0) :
    Distribution count (List.replicate count (1 / (count : ℚ))) where
  length := List.length_replicate
  nonneg j := by
    by_cases hj : j < count
    · rw [List.getD_eq_getElem _ _ (by rwa [List.length_replicate]), List.getElem_replicate]
      positivity
    · rw [List.getD_eq_default _ _ (by rw [List.length_replicate]; exact Nat.le_of_not_lt hj)]
  sum := by
    rw [List.sum_replicate, nsmul_eq_mul]
    exact mul_div_cancel₀ _ (Nat.cast_ne_zero.mpr hcount)

/-- **The ranks are a distribution after every turn.** -/
theorem Regular.distribution_ranksAfter (h : Regular count adj) (hcount : count ≠ 0)
    (hdamping : 0 ≤ damping ∧ damping ≤ 1) : ∀ turns, Distribution count (ranksAfter adj damping turns)
  | 0 => by
    rw [ranksAfter, h.length]
    exact distribution_start hcount
  | turns + 1 => by
    have hflow := h.distribution_flow hcount hdamping (h.distribution_ranksAfter hcount hdamping turns)
    rw [ranksAfter, rescale_eq_self hflow.sum]
    exact hflow

theorem clamp_unit (damping : ℚ) : 0 ≤ RustStd.clamp damping 0 1 ∧ RustStd.clamp damping 0 1 ≤ 1 := by
  unfold RustStd.clamp
  split
  · norm_num
  · rename_i hlow
    split
    · norm_num
    · rename_i hhigh
      exact ⟨not_lt.mp hlow, not_lt.mp hhigh⟩

end Turns

/-! ## Other names for the nodes -/

section Renumbered

variable {count : ℕ} {adj adj' : Adj} {σ : ℕ → ℕ} {damping : ℚ} {rank rank' : List ℚ}

/-- Adjacency lists that differ in the numbers of the nodes only. -/
structure Renumbered (σ : ℕ → ℕ) (count : ℕ) (adj adj' : Adj) : Prop where
  maps : ∀ i < count, σ i < count
  inj : ∀ i < count, ∀ j < count, σ i = σ j → i = j
  weight : ∀ i < count, ∀ j < count, weightTo (Adj.row adj' (σ i)) (σ j) = weightTo (Adj.row adj i) j

theorem Renumbered.perm (h : Renumbered σ count adj adj') :
    ((List.range count).map σ).Perm (List.range count) := by
  have hnodup : ((List.range count).map σ).Nodup := by
    refine List.Nodup.map_on ?_ List.nodup_range
    intro i hi j hj heq
    exact h.inj i (List.mem_range.mp hi) j (List.mem_range.mp hj) heq
  have hsubset : (List.range count).map σ ⊆ List.range count := by
    intro j hj
    obtain ⟨i, hi, rfl⟩ := List.mem_map.mp hj
    exact List.mem_range.mpr (h.maps i (List.mem_range.mp hi))
  refine (hnodup.subperm hsubset).perm_of_length_le ?_
  rw [List.length_map]

/-- A sum over the nodes may be taken over their other numbers. -/
theorem Renumbered.sum_eq (h : Renumbered σ count adj adj') {f g : ℕ → ℚ}
    (hfg : ∀ i < count, g (σ i) = f i) :
    ((List.range count).map g).sum = ((List.range count).map f).sum := by
  rw [← (h.perm.map g).sum_eq, List.map_map]
  congr 1
  refine List.map_congr_left fun i hi => ?_
  exact hfg i (List.mem_range.mp hi)

theorem Renumbered.sum_row (h : Renumbered σ count adj adj') (hadj : Regular count adj)
    (hadj' : Regular count adj') {i : ℕ} (hi : i < count) :
    ((Adj.row adj' (σ i)).map Prod.snd).sum = ((Adj.row adj i).map Prod.snd).sum := by
  rw [← sum_weightTo (hadj'.bounded (σ i)), ← sum_weightTo (hadj.bounded i)]
  exact h.sum_eq fun j hj => h.weight i hi j hj

/-- A node has edges if their weights add up to something. -/
theorem Regular.isEmpty_iff (h : Regular count adj) (i : ℕ) :
    (Adj.row adj i).isEmpty = true ↔ ((Adj.row adj i).map Prod.snd).sum = 0 := by
  constructor
  · intro hempty
    rw [List.isEmpty_iff.mp hempty]
    rfl
  · intro hzero
    by_contra hempty
    have hsum := h.le_sum fun hnil => hempty (List.isEmpty_iff.mpr hnil)
    rw [hzero] at hsum
    norm_num at hsum

theorem Renumbered.isEmpty_eq (h : Renumbered σ count adj adj') (hadj : Regular count adj)
    (hadj' : Regular count adj') {i : ℕ} (hi : i < count) :
    (Adj.row adj' (σ i)).isEmpty = (Adj.row adj i).isEmpty := by
  rw [Bool.eq_iff_iff, hadj'.isEmpty_iff, hadj.isEmpty_iff, h.sum_row hadj hadj' hi]

/-- **A turn on other numbers.** -/
theorem Renumbered.flow (h : Renumbered σ count adj adj') (hadj : Regular count adj)
    (hadj' : Regular count adj') (hrank : Distribution count rank) (hrank' : Distribution count rank')
    (hsame : ∀ i < count, rank'.getD (σ i) 0 = rank.getD i 0) {j : ℕ} (hj : j < count) :
    (flow adj' damping rank').getD (σ j) 0 = (GraphToolkit.flow adj damping rank).getD j 0 := by
  have hhanded : ((List.range count).map (handedTo adj' rank' · (σ j))).sum =
      ((List.range count).map (handedTo adj rank · j)).sum := by
    refine h.sum_eq fun i hi => ?_
    rw [handedTo, handedTo, hsame i hi, h.weight i hi j hj, denom, denom, h.sum_row hadj hadj' hi]
  have hdangling : ((List.range count).map (dangling adj' rank')).sum =
      ((List.range count).map (dangling adj rank)).sum := by
    refine h.sum_eq fun i hi => ?_
    rw [dangling, dangling, h.isEmpty_eq hadj hadj' hi, hsame i hi]
  rw [hadj'.getD_flow hrank' (h.maps j hj), hadj.getD_flow hrank hj, hhanded, hdangling]

/-- **Other numbers permute the ranks.** -/
theorem Renumbered.ranksAfter (h : Renumbered σ count adj adj') (hadj : Regular count adj)
    (hadj' : Regular count adj') (hcount : count ≠ 0) (hdamping : 0 ≤ damping ∧ damping ≤ 1) :
    ∀ (turns : ℕ) {j : ℕ}, j < count → (ranksAfter adj' damping turns).getD (σ j) 0 =
      (GraphToolkit.ranksAfter adj damping turns).getD j 0
  | 0, j, hj => by
    have hlt := h.maps j hj
    rw [GraphToolkit.ranksAfter, GraphToolkit.ranksAfter, hadj.length, hadj'.length,
      List.getD_eq_getElem _ _ (by rwa [List.length_replicate]), List.getElem_replicate,
      List.getD_eq_getElem _ _ (by rwa [List.length_replicate]), List.getElem_replicate]
  | turns + 1, j, hj => by
    have hrank := hadj.distribution_ranksAfter hcount hdamping turns
    have hrank' := hadj'.distribution_ranksAfter hcount hdamping turns
    rw [GraphToolkit.ranksAfter, GraphToolkit.ranksAfter, rescale_eq_self (hadj.sum_flow hcount hrank),
      rescale_eq_self (hadj'.sum_flow hcount hrank')]
    exact h.flow hadj hadj' hrank hrank'
      (fun i hi => h.ranksAfter hadj hadj' hcount hdamping turns hi) hj

end Renumbered

/-! ## Parsed graphs -/

section Parsed

variable {host host' : Host} {value value' : Json} {source source' : String} {graph graph' : GraphData}
  {ρ : String → String}

/-- The weight of the edge between two nodes, none if there is no edge. -/
def GraphData.weight (graph : GraphData) (a b : String) : ℚ :=
  weightTo (Adj.row graph.outAdj (graph.nodes.idxOf a)) (graph.nodes.idxOf b)

/-- The score of a node. -/
def GraphData.pagerankOf (graph : GraphData) (damping : ℚ) (iterations : ℕ) (name : String) : ℚ :=
  (pagerank graph.outAdj damping iterations).getD (graph.nodes.idxOf name) 0

/-- One graph is the other under other names. -/
structure Relabels (ρ : String → String) (graph graph' : GraphData) : Prop where
  inj : ∀ a ∈ graph.nodes, ∀ b ∈ graph.nodes, ρ a = ρ b → a = b
  nodes : ∀ name, name ∈ graph'.nodes ↔ ∃ a ∈ graph.nodes, ρ a = name
  weight : ∀ a ∈ graph.nodes, ∀ b ∈ graph.nodes, graph'.weight (ρ a) (ρ b) = graph.weight a b

/-- Where a node of one graph stands in the other. -/
def place (ρ : String → String) (graph graph' : GraphData) (i : ℕ) : ℕ :=
  graph'.nodes.idxOf (ρ (graph.nodes.getD i ""))

theorem place_idxOf (name : String) (hname : name ∈ graph.nodes) :
    place ρ graph graph' (graph.nodes.idxOf name) = graph'.nodes.idxOf (ρ name) := by
  have hlt := List.idxOf_lt_length_iff.mpr hname
  rw [place, List.getD_eq_getElem _ _ hlt, List.getElem_idxOf hlt]

theorem Relabels.length_eq (h : Relabels ρ graph graph') (hnodup : graph.nodes.Nodup)
    (hnodup' : graph'.nodes.Nodup) : graph'.nodes.length = graph.nodes.length := by
  have hperm : graph'.nodes.Perm (graph.nodes.map ρ) := by
    refine (List.perm_ext_iff_of_nodup hnodup' (hnodup.map_on fun a ha b hb => h.inj a ha b hb)).mpr ?_
    intro name
    rw [h.nodes, List.mem_map]
  rw [hperm.length_eq, List.length_map]

/-- **Other names come to other numbers.** -/
theorem Relabels.renumbered (h : Relabels ρ graph graph') (hnodup : graph.nodes.Nodup)
    (hnodup' : graph'.nodes.Nodup) :
    Renumbered (place ρ graph graph') graph.nodes.length graph.outAdj graph'.outAdj := by
  have hname {i : ℕ} (hi : i < graph.nodes.length) : graph.nodes.getD i "" ∈ graph.nodes := by
    rw [List.getD_eq_getElem _ _ hi]
    exact List.getElem_mem hi
  have hthere {i : ℕ} (hi : i < graph.nodes.length) : ρ (graph.nodes.getD i "") ∈ graph'.nodes :=
    (h.nodes _).mpr ⟨_, hname hi, rfl⟩
  have hidx {i : ℕ} (hi : i < graph.nodes.length) : graph.nodes.idxOf (graph.nodes.getD i "") = i := by
    rw [List.getD_eq_getElem _ _ hi]
    exact hnodup.idxOf_getElem i hi
  refine ⟨fun i hi => ?_, fun i hi j hj heq => ?_, fun i hi j hj => ?_⟩
  · rw [← h.length_eq hnodup hnodup']
    exact List.idxOf_lt_length_iff.mpr (hthere hi)
  · have hsame := h.inj _ (hname hi) _ (hname hj) ((List.idxOf_inj (hthere hi)).mp heq)
    rw [← hidx hi, ← hidx hj, hsame]
  · have hweight := h.weight _ (hname hi) _ (hname hj)
    unfold GraphData.weight at hweight
    rwa [hidx hi, hidx hj] at hweight

/-- **PageRank is a probability distribution.**  The scores of a parsed graph are not negative and add up
to one; before every rescaling they add up to one already, which is why it changes nothing; and under
other names the nodes keep their scores. -/
theorem pagerank_distribution (h : parseGraphJsonValue host value source = .ok graph) (damping : ℚ)
    (iterations : ℕ) :
    Distribution graph.nodes.length (pagerank graph.outAdj damping iterations) ∧
    (∀ turns, (flow graph.outAdj (RustStd.clamp damping 0 1)
          (ranksAfter graph.outAdj (RustStd.clamp damping 0 1) turns)).sum = 1 ∧
        ranksAfter graph.outAdj (RustStd.clamp damping 0 1) (turns + 1) =
          flow graph.outAdj (RustStd.clamp damping 0 1)
            (ranksAfter graph.outAdj (RustStd.clamp damping 0 1) turns)) ∧
    ∀ ρ host' value' source' graph', parseGraphJsonValue host' value' source' = .ok graph' →
      Relabels ρ graph graph' → ∀ name ∈ graph.nodes,
        graph'.pagerankOf damping iterations (ρ name) = graph.pagerankOf damping iterations name := by
  have hadj := regular_outAdj h
  have hcount := nodes_ne_nil h
  have hclamp := clamp_unit damping
  have hranks := hadj.distribution_ranksAfter hcount hclamp
  refine ⟨?_, fun turns => ?_, ?_⟩
  · rw [pagerank, if_neg (hadj.length.trans_ne hcount)]
    exact hranks _
  · have hsum : (flow graph.outAdj (RustStd.clamp damping 0 1)
        (ranksAfter graph.outAdj (RustStd.clamp damping 0 1) turns)).sum = 1 :=
      hadj.sum_flow hcount (hranks turns)
    exact ⟨hsum, by rw [ranksAfter, rescale_eq_self hsum]⟩
  · intro ρ host' value' source' graph' h' hrelabels name hname
    have hnodup := nodup_nodes h
    have hnodup' := nodup_nodes h'
    have hlength := hrelabels.length_eq hnodup hnodup'
    have hadj' := regular_outAdj h'
    rw [hlength] at hadj'
    unfold GraphData.pagerankOf
    rw [pagerank, if_neg (hadj'.length.trans_ne hcount), pagerank, if_neg (hadj.length.trans_ne hcount),
      ← place_idxOf name hname]
    exact (hrelabels.renumbered hnodup hnodup').ranksAfter hadj hadj' hcount hclamp _
      (List.idxOf_lt_length_iff.mpr hname)

/-- An edge from one node to another that has none, one way and the other. -/
theorem oneEdge_distribution : ∃ graph graph',
    parseGraphJsonValue plainHost (oneEdge true "a" "b") "" = .ok graph ∧
      parseGraphJsonValue plainHost (oneEdge true "b" "a") "" = .ok graph' ∧
      pagerank graph.outAdj 1 1 = [1 / 4, 3 / 4] ∧ Distribution 2 (pagerank graph.outAdj 1 1) ∧
      graph'.pagerankOf 1 1 "b" = graph.pagerankOf 1 1 "a" := by
  have hparse : parseGraphJsonValue plainHost (oneEdge true "a" "b") "" =
      .ok (graphOf plainHost (payloadFields (oneEdge true "a" "b")) "") :=
    parse_eq_ok.mpr ⟨by decide, rfl⟩
  have hparse' : parseGraphJsonValue plainHost (oneEdge true "b" "a") "" =
      .ok (graphOf plainHost (payloadFields (oneEdge true "b" "a")) "") :=
    parse_eq_ok.mpr ⟨by decide, rfl⟩
  have hgraph (start stop : String) (i j : ℕ)
      (hnodes : nodeList (payloadFields (oneEdge true start stop)) = ["a", "b"])
      (htable : (Tally.tally ((edgeEntries (payloadFields (oneEdge true start stop))).flatMap
        (outEntry (isDirected (payloadFields (oneEdge true start stop)))))).toList = [((i, j), 1)]) :
      (graphOf plainHost (payloadFields (oneEdge true start stop)) "").nodes = ["a", "b"] ∧
        (graphOf plainHost (payloadFields (oneEdge true start stop)) "").outAdj =
          sortRows (pushRow [[], []] i (j, 1)) := by
    rw [graphOf_eq]
    dsimp only
    rw [outAdjacency, htable, hnodes]
    exact ⟨rfl, rfl⟩
  obtain ⟨hnodes, hadj⟩ := hgraph "a" "b" 0 1 (by decide) (by decide +kernel)
  obtain ⟨hnodes', hadj'⟩ := hgraph "b" "a" 1 0 (by decide) (by decide +kernel)
  have hrelabels : Relabels (fun name => if name = "a" then "b" else "a")
      (graphOf plainHost (payloadFields (oneEdge true "a" "b")) "")
      (graphOf plainHost (payloadFields (oneEdge true "b" "a")) "") := by
    constructor
    · rw [hnodes]
      decide
    · intro name
      rw [hnodes, hnodes']
      simp [or_comm, eq_comm]
    · unfold GraphData.weight
      rw [hnodes, hnodes', hadj, hadj']
      decide +kernel
  have hscores := pagerank_distribution hparse 1 1
  refine ⟨_, _, hparse, hparse', ?_, ?_, hscores.2.2 _ _ _ _ _ hparse' hrelabels "a" ?_⟩
  · rw [hadj]
    decide +kernel
  · have hcount := hscores.1
    rwa [hnodes] at hcount
  · rw [hnodes]
    decide

end Parsed

end Protheus.GraphToolkit
