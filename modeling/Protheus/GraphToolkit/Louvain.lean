import Protheus.GraphToolkit.Adjacency

/-!
`louvain_simple` of `algorithms.rs`, and the modularity it reports.

A label moves along edges only, so every label is a node that its bearers reach
(`Reached`), through any number of passes; the renumbering at the end keeps that.  The
score leaves out the pairs of a community that are not neighbours, each node and itself
among them: `score_eq` says how much it is too high for that, and `louvain_reports_iff`
that it is right for graphs without edges alone.
-/

namespace Protheus.GraphToolkit

open Std (ExtTreeMap ExtTreeSet)
open V8Kernel

/-! ## The algorithm -/

/-- `degrees`. -/
def degrees (adj : Adj) : List ℚ := adj.map fun row => (row.map Prod.snd).sum

/-- `m2`. -/
def twiceWeight (adj : Adj) : ℚ := max (degrees adj).sum (1 / 10 ^ 12)

/-- What a pair of neighbours adds to `q`. -/
def gain (assignments : List ℕ) (degrees : List ℚ) (m2 : ℚ) (i : ℕ) (entry : ℕ × ℚ) : ℚ :=
  if assignments.getD i 0 = assignments.getD entry.1 0 then
    entry.2 - degrees.getD i 0 * degrees.getD entry.1 0 / m2
  else 0

/-- `modularity`. -/
def modularity (assignments : List ℕ) (adj : Adj) (degrees : List ℚ) (m2 : ℚ) : ℚ :=
  if assignments.isEmpty ∨ m2 ≤ 0 then 0
  else ((List.range adj.length).map fun i =>
    ((Adj.row adj i).map (gain assignments degrees m2 i)).sum).sum / m2

/-- `best_assignment` and `best_q`. -/
structure Best where
  assignment : ℕ
  q : ℚ

/-- One round of the loop over the candidates of a node. -/
def tryCandidate (adj : Adj) (assignments : List ℕ) (node : ℕ) (best : Best) (candidate : ℕ) : Best :=
  if candidate = assignments.getD node 0 then best
  else
    let q := modularity (assignments.set node candidate) adj (degrees adj) (twiceWeight adj)
    if 1 / 10 ^ 12 < q - best.q ∨ |q - best.q| ≤ 1 / 10 ^ 12 ∧ candidate < best.assignment then
      { assignment := candidate, q }
    else best

/-- `candidates`. -/
def candidates (adj : Adj) (assignments : List ℕ) (node : ℕ) : List ℕ :=
  (ExtTreeSet.ofList (assignments.getD node 0 ::
    (Adj.row adj node).map fun entry => assignments.getD entry.1 0)).toList

structure Pass where
  assignments : List ℕ
  moved : Bool := false
  baseQ : ℚ

/-- One round of the loop over the nodes. -/
def moveNode (adj : Adj) (s : Pass) (node : ℕ) : Pass :=
  let current := s.assignments.getD node 0
  let best := (candidates adj s.assignments node).foldl (tryCandidate adj s.assignments node)
    { assignment := current, q := s.baseQ }
  let assignments := s.assignments.set node best.assignment
  if best.assignment = current then { s with assignments }
  else { assignments, moved := true, baseQ := best.q }

/-- A pass over the nodes. -/
def runPass (adj : Adj) (assignments : List ℕ) : Pass :=
  (List.range adj.length).foldl (moveNode adj)
    { assignments, baseQ := modularity assignments adj (degrees adj) (twiceWeight adj) }

/-- At most so many passes, until nothing moves, and how many there were. -/
def runPasses (adj : Adj) : ℕ → List ℕ → List ℕ × ℕ
  | 0, assignments => (assignments, 0)
  | limit + 1, assignments =>
    let s := runPass adj assignments
    if s.moved then
      let rest := runPasses adj limit s.assignments
      (rest.1, rest.2 + 1)
    else (s.assignments, 1)

/-- `remap` and `next`. -/
structure Remap where
  table : ExtTreeMap ℕ ℕ := ∅
  next : ℕ := 0

/-- One round of the loop that numbers the assignments. -/
def Remap.add (remap : Remap) (assignment : ℕ) : Remap :=
  if remap.table.contains assignment then remap
  else { table := remap.table.insert assignment remap.next, next := remap.next + 1 }

/-- The assignments by their new numbers. -/
def renumber (assignments : List ℕ) : List ℕ :=
  let remap := assignments.foldl Remap.add {}
  assignments.map fun assignment => (remap.table[assignment]?).getD assignment

/-- What `louvain_simple` returns. -/
structure Communities where
  assignments : List ℕ
  score : ℚ
  passes : ℕ

/-- `louvain_simple`. -/
def louvainSimple (adj : Adj) (maxIter : ℕ) : Communities :=
  if adj.length = 0 then { assignments := [], score := 0, passes := 0 }
  else
    let run := runPasses adj (max maxIter 1) (List.range adj.length)
    let assignments := renumber run.1
    { assignments
      score := modularity assignments adj (degrees adj) (twiceWeight adj)
      passes := run.2 }

/-! ## Modularity -/

/-- The sum of all degrees, `2m`. -/
def doubledWeight (adj : Adj) : ℚ := (degrees adj).sum

/-- `A(i,j) - k(i)k(j)/2m`, for two nodes of one community. -/
def pairModularity (assignments : List ℕ) (adj : Adj) (i j : ℕ) : ℚ :=
  if assignments.getD i 0 = assignments.getD j 0 then
    weightTo (Adj.row adj i) j - (degrees adj).getD i 0 * (degrees adj).getD j 0 / doubledWeight adj
  else 0

/-- The modularity of a partition: over all ordered pairs of nodes. -/
def newmanModularity (assignments : List ℕ) (adj : Adj) : ℚ :=
  ((List.range adj.length).map fun i =>
    ((List.range adj.length).map (pairModularity assignments adj i)).sum).sum / doubledWeight adj

/-- What the modularity counts for two nodes of one community that are not neighbours. -/
def unseenPair (assignments : List ℕ) (adj : Adj) (i j : ℕ) : ℚ :=
  if assignments.getD i 0 = assignments.getD j 0 ∧ j ∉ (Adj.row adj i).map Prod.fst then
    (degrees adj).getD i 0 * (degrees adj).getD j 0 / doubledWeight adj
  else 0

/-- What the score leaves out. -/
def unseen (assignments : List ℕ) (adj : Adj) : ℚ :=
  ((List.range adj.length).map fun i =>
    ((List.range adj.length).map (unseenPair assignments adj i)).sum).sum / doubledWeight adj

section Score

variable {count : ℕ} {adj : Adj} {assignments : List ℕ}

theorem Regular.getD_degrees (h : Regular count adj) {i : ℕ} (hi : i < count) :
    (degrees adj).getD i 0 = ((Adj.row adj i).map Prod.snd).sum := by
  have hi' : i < adj.length := h.length.symm ▸ hi
  rw [degrees, List.getD_eq_getElem _ _ (by rwa [List.length_map]), List.getElem_map, Adj.row,
    List.getD_eq_getElem _ _ hi']

theorem Regular.degree_nonneg (h : Regular count adj) (i : ℕ) : 0 ≤ (degrees adj).getD i 0 := by
  by_cases hi : i < count
  · rw [h.getD_degrees hi]
    refine List.sum_nonneg fun w hw => ?_
    obtain ⟨entry, hentry, rfl⟩ := List.mem_map.mp hw
    exact le_trans (by norm_num) (h.weight i entry hentry)
  · rw [List.getD_eq_default]
    rw [degrees, List.length_map, h.length]
    exact Nat.le_of_not_lt hi

theorem Regular.degree_pos (h : Regular count adj) {i : ℕ} (hi : Adj.row adj i ≠ []) :
    0 < (degrees adj).getD i 0 := by
  have hcount : i < count := h.lt_of_ne_nil hi
  rw [h.getD_degrees hcount]
  exact lt_of_lt_of_le (by norm_num) (h.le_sum hi)

/-- A graph with an edge weighs more than the floor under its weight. -/
theorem Regular.le_doubledWeight (h : Regular count adj) {i : ℕ} (hi : Adj.row adj i ≠ []) :
    1 / 10 ^ 9 ≤ doubledWeight adj := by
  have hcount : i < adj.length := h.length.symm ▸ h.lt_of_ne_nil hi
  have hnonneg : ∀ k ∈ degrees adj, 0 ≤ k := by
    intro k hk
    obtain ⟨j, hj, rfl⟩ := List.getElem_of_mem hk
    rw [← List.getD_eq_getElem _ 0 hj]
    exact h.degree_nonneg j
  refine (h.le_sum hi).trans (List.single_le_sum hnonneg _ ?_)
  refine List.mem_map.mpr ⟨adj[i], List.getElem_mem hcount, ?_⟩
  rw [Adj.row, List.getD_eq_getElem _ _ hcount]

theorem Regular.twiceWeight_eq (h : Regular count adj) {i : ℕ} (hi : Adj.row adj i ≠ []) :
    twiceWeight adj = doubledWeight adj :=
  max_eq_left (le_trans (by norm_num) (h.le_doubledWeight hi))

/-- What a row adds to the score, node by node. -/
theorem Regular.sum_gain (h : Regular count adj) (assignments : List ℕ) (i : ℕ) :
    ((Adj.row adj i).map (gain assignments (degrees adj) (doubledWeight adj) i)).sum =
      ((List.range count).map fun j =>
        pairModularity assignments adj i j + unseenPair assignments adj i j).sum := by
  set gained := (Adj.row adj i).map fun entry =>
    (entry.1, gain assignments (degrees adj) (doubledWeight adj) i entry) with hgained
  have hkeys : gained.map Prod.fst = (Adj.row adj i).map Prod.fst := by
    rw [hgained, List.map_map]
    rfl
  have hbound : ∀ entry ∈ gained, entry.1 < count := by
    intro entry hentry
    obtain ⟨other, hother, rfl⟩ := List.mem_map.mp hentry
    exact h.bounded i other hother
  have hvalues : (Adj.row adj i).map (gain assignments (degrees adj) (doubledWeight adj) i) =
      gained.map Prod.snd := by
    rw [hgained, List.map_map]
    rfl
  rw [hvalues, ← sum_weightTo hbound]
  congr 1
  refine List.map_congr_left fun j _ => ?_
  by_cases hthere : j ∈ (Adj.row adj i).map Prod.fst
  · obtain ⟨⟨j, w⟩, hentry, rfl⟩ := List.mem_map.mp hthere
    have hmem : (j, gain assignments (degrees adj) (doubledWeight adj) i (j, w)) ∈ gained :=
      List.mem_map.mpr ⟨_, hentry, rfl⟩
    have hseen : ¬(assignments.getD i 0 = assignments.getD j 0 ∧ j ∉ (Adj.row adj i).map Prod.fst) :=
      fun hboth => hboth.2 hthere
    have hkeep : (gained.map Prod.fst).Nodup := hkeys ▸ h.nodup i
    rw [weightTo_of_mem hkeep hmem, gain, pairModularity, unseenPair,
      weightTo_of_mem (h.nodup i) hentry, if_neg hseen, add_zero]
  · have hnone (w : ℚ) : (j, w) ∉ gained := fun hmem =>
      hthere (hkeys ▸ List.mem_map.mpr ⟨_, hmem, rfl⟩)
    have hnone' (w : ℚ) : (j, w) ∉ Adj.row adj i := fun hmem =>
      hthere (List.mem_map.mpr ⟨_, hmem, rfl⟩)
    rw [weightTo_of_notMem hnone, pairModularity, unseenPair, weightTo_of_notMem hnone']
    by_cases hsame : assignments.getD i 0 = assignments.getD j 0
    · rw [if_pos hsame, if_pos ⟨hsame, hthere⟩]
      ring
    · rw [if_neg hsame, if_neg fun hboth => hsame hboth.1, add_zero]

/-- **What the score is.**  It is the modularity and what it leaves out of it. -/
theorem Regular.score_eq (h : Regular count adj) (hlength : assignments.length = count) {i : ℕ}
    (hi : Adj.row adj i ≠ []) : modularity assignments adj (degrees adj) (twiceWeight adj) =
      newmanModularity assignments adj + unseen assignments adj := by
  have hweight := h.le_doubledWeight hi
  have hpos : 0 < doubledWeight adj := lt_of_lt_of_le (by norm_num) hweight
  have hcount : i < count := h.lt_of_ne_nil hi
  have hne : ¬(assignments.isEmpty = true ∨ doubledWeight adj ≤ 0) := by
    rintro (hempty | hle)
    · rw [List.isEmpty_iff.mp hempty] at hlength
      exact Nat.not_lt_zero _ (hlength ▸ hcount)
    · exact not_lt.mpr hle hpos
  rw [h.twiceWeight_eq hi, modularity, if_neg hne, newmanModularity, unseen, ← add_div,
    ← List.sum_map_add, h.length]
  congr 2
  refine List.map_congr_left fun j _ => ?_
  rw [h.sum_gain, List.sum_map_add]

theorem Regular.unseenPair_nonneg (h : Regular count adj) (assignments : List ℕ) (i j : ℕ) :
    0 ≤ unseenPair assignments adj i j := by
  unfold unseenPair
  split
  · have hweight : 0 ≤ doubledWeight adj := by
      refine List.sum_nonneg fun k hk => ?_
      obtain ⟨j, hj, rfl⟩ := List.getElem_of_mem hk
      rw [← List.getD_eq_getElem _ 0 hj]
      exact h.degree_nonneg j
    exact div_nonneg (mul_nonneg (h.degree_nonneg i) (h.degree_nonneg j)) hweight
  · exact le_rfl

/-- A node with edges and without a loop is a pair that the score leaves out. -/
theorem Regular.unseen_pos (h : Regular count adj) (assignments : List ℕ) {i : ℕ}
    (hi : Adj.row adj i ≠ []) (hloop : ∀ w, (i, w) ∉ Adj.row adj i) : 0 < unseen assignments adj := by
  have hpos : 0 < doubledWeight adj := lt_of_lt_of_le (by norm_num) (h.le_doubledWeight hi)
  have hcount : i ∈ List.range adj.length :=
    List.mem_range.mpr (h.length.symm ▸ h.lt_of_ne_nil hi)
  have hself : 0 < unseenPair assignments adj i i := by
    have hnot : i ∉ (Adj.row adj i).map Prod.fst := by
      intro hmem
      obtain ⟨⟨j, w⟩, hentry, rfl⟩ := List.mem_map.mp hmem
      exact hloop w hentry
    rw [unseenPair, if_pos ⟨rfl, hnot⟩]
    exact div_pos (mul_pos (h.degree_pos hi) (h.degree_pos hi)) hpos
  have hnonneg (i : ℕ) : ∀ x ∈ (List.range adj.length).map (unseenPair assignments adj i), 0 ≤ x := by
    intro x hx
    obtain ⟨j, -, rfl⟩ := List.mem_map.mp hx
    exact h.unseenPair_nonneg assignments i j
  refine div_pos (hself.trans_le ?_) hpos
  refine (List.single_le_sum (hnonneg i) _ (List.mem_map_of_mem hcount)).trans ?_
  refine List.single_le_sum ?_ _ (List.mem_map.mpr ⟨i, hcount, rfl⟩)
  intro x hx
  obtain ⟨j, -, rfl⟩ := List.mem_map.mp hx
  exact List.sum_nonneg (hnonneg j)

/-- A graph without edges has no score and no modularity. -/
theorem Regular.modularity_of_edgeless (h : Regular count adj) (assignments : List ℕ)
    (hedges : ∀ i, Adj.row adj i = []) :
    modularity assignments adj (degrees adj) (twiceWeight adj) = 0 ∧ newmanModularity assignments adj = 0 := by
  have hzero {f : ℕ → ℚ} (hf : ∀ i < adj.length, f i = 0) : ((List.range adj.length).map f).sum = 0 := by
    refine List.sum_eq_zero fun x hx => ?_
    obtain ⟨i, hi, rfl⟩ := List.mem_map.mp hx
    exact hf i (List.mem_range.mp hi)
  constructor
  · rw [modularity]
    split
    · rfl
    · rw [hzero fun i _ => by rw [hedges]; rfl, zero_div]
  · rw [newmanModularity, hzero fun i hi => hzero fun j _ => ?_, zero_div]
    have hdegree : (degrees adj).getD i 0 = 0 := by
      rw [h.getD_degrees (h.length ▸ hi), hedges]
      rfl
    unfold pairModularity
    rw [hdegree, hedges, zero_mul, zero_div, sub_zero]
    split <;> rfl

end Score

/-! ## The partition -/

/-- An edge leads from one node to the other. -/
def Linked (adj : Adj) (u v : ℕ) : Prop := ∃ w, (v, w) ∈ Adj.row adj u

/-- Edges lead from one node to the other. -/
def Reached (adj : Adj) : ℕ → ℕ → Prop := Relation.ReflTransGen (Linked adj)

/-- Every node has a label, a node that it reaches. -/
structure Labelled (adj : Adj) (assignments : List ℕ) : Prop where
  length : assignments.length = adj.length
  home : ∀ v < adj.length, Reached adj v (assignments.getD v 0)

section Labels

variable {count : ℕ} {adj : Adj} {assignments : List ℕ}

theorem labelled_range (adj : Adj) : Labelled adj (List.range adj.length) where
  length := List.length_range
  home v hv := by
    rw [List.getD_eq_getElem _ _ (by rwa [List.length_range]), List.getElem_range]
    exact .refl

/-- The choice falls on the label at hand or on a candidate. -/
theorem foldl_tryCandidate (adj : Adj) (assignments : List ℕ) (node : ℕ) (options : List ℕ) : ∀ best : Best,
    (options.foldl (tryCandidate adj assignments node) best).assignment = best.assignment ∨
      (options.foldl (tryCandidate adj assignments node) best).assignment ∈ options := by
  induction options with
  | nil => exact fun _ => .inl rfl
  | cons candidate options ih =>
    intro best
    rw [List.foldl_cons]
    have hstep : (tryCandidate adj assignments node best candidate).assignment = best.assignment ∨
        (tryCandidate adj assignments node best candidate).assignment = candidate := by
      unfold tryCandidate
      split
      · exact .inl rfl
      · dsimp only
        split
        · exact .inr rfl
        · exact .inl rfl
    rcases ih (tryCandidate adj assignments node best candidate) with hkeep | hmem
    · rcases hstep with hold | hnew
      · exact .inl (hkeep.trans hold)
      · exact .inr (List.mem_cons.mpr (.inl (hkeep.trans hnew)))
    · exact .inr (List.mem_cons_of_mem _ hmem)

theorem mem_candidates {node candidate : ℕ} : candidate ∈ candidates adj assignments node ↔
    candidate = assignments.getD node 0 ∨
      ∃ entry ∈ Adj.row adj node, assignments.getD entry.1 0 = candidate := by
  rw [candidates, ExtTreeSet.mem_toList, ExtTreeSet.mem_ofList, List.contains_iff_mem, List.mem_cons,
    List.mem_map]

theorem Labelled.set (h : Labelled adj assignments) {node label : ℕ}
    (hlabel : node < adj.length → Reached adj node label) : Labelled adj (assignments.set node label) where
  length := (List.length_set ..).trans h.length
  home v hv := by
    have hv' : v < (assignments.set node label).length := by rwa [List.length_set, h.length]
    rw [List.getD_eq_getElem _ _ hv', List.getElem_set]
    split
    · rename_i hnode
      subst hnode
      exact hlabel hv
    · rw [← List.getD_eq_getElem _ 0]
      exact h.home v hv

/-- **A move keeps the labels within reach.** -/
theorem Labelled.moveNode (hadj : Regular count adj) {s : Pass} (h : Labelled adj s.assignments)
    (node : ℕ) : Labelled adj (moveNode adj s node).assignments := by
  have hmoved : (GraphToolkit.moveNode adj s node).assignments = s.assignments.set node
      ((candidates adj s.assignments node).foldl (tryCandidate adj s.assignments node)
        { assignment := s.assignments.getD node 0, q := s.baseQ }).assignment := by
    unfold GraphToolkit.moveNode
    dsimp only
    split <;> rfl
  rw [hmoved]
  refine h.set fun hnode => ?_
  have hold : Reached adj node (s.assignments.getD node 0) := h.home node hnode
  rcases foldl_tryCandidate adj s.assignments node (candidates adj s.assignments node)
      { assignment := s.assignments.getD node 0, q := s.baseQ } with hkeep | hmem
  · rwa [hkeep]
  · rcases mem_candidates.mp hmem with hkeep | ⟨entry, hentry, hlabel⟩
    · rwa [hkeep]
    · rw [← hlabel]
      have hneighbour := h.home entry.1 (hadj.length ▸ hadj.bounded node entry hentry)
      exact .head ⟨entry.2, hentry⟩ hneighbour

theorem Labelled.runPass (hadj : Regular count adj) (h : Labelled adj assignments) :
    Labelled adj (runPass adj assignments).assignments := by
  have hnodes (nodes : List ℕ) : ∀ s : Pass, Labelled adj s.assignments →
      Labelled adj (nodes.foldl (GraphToolkit.moveNode adj) s).assignments := by
    induction nodes with
    | nil => exact fun _ hs => hs
    | cons node nodes ih => exact fun s hs => ih _ (hs.moveNode hadj node)
  exact hnodes _ _ h

/-- **The passes end, and keep the labels within reach.** -/
theorem Labelled.runPasses (hadj : Regular count adj) : ∀ (limit : ℕ) {assignments : List ℕ},
    Labelled adj assignments → Labelled adj (runPasses adj limit assignments).1 ∧
      (GraphToolkit.runPasses adj limit assignments).2 ≤ limit
  | 0, _, h => ⟨h, le_rfl⟩
  | limit + 1, _, h => by
    have hpass := h.runPass hadj
    unfold GraphToolkit.runPasses
    dsimp only
    split
    · obtain ⟨hrest, hpasses⟩ := Labelled.runPasses hadj limit hpass
      exact ⟨hrest, Nat.succ_le_succ hpasses⟩
    · exact ⟨hpass, Nat.le_add_left 1 limit⟩

end Labels

/-! ## Numbers in the order of first appearance -/

section Numbers

variable {seen : List ℕ}

theorem eraseDups_concat (seen : List ℕ) (a : ℕ) :
    (seen ++ [a]).eraseDups = if a ∈ seen then seen.eraseDups else seen.eraseDups ++ [a] := by
  rw [List.eraseDups_append]
  by_cases ha : a ∈ seen
  · simp [List.removeAll, ha]
  · simp [List.removeAll, ha, List.eraseDups_cons]

theorem nodup_eraseDups (seen : List ℕ) : seen.eraseDups.Nodup := by
  induction seen using List.reverseRecOn with
  | nil => exact List.nodup_nil
  | append_singleton seen a ih =>
    rw [eraseDups_concat]
    split
    · exact ih
    · rename_i ha
      refine List.nodup_append.mpr ⟨ih, List.nodup_singleton a, fun b hb c hc => ?_⟩
      rw [List.mem_singleton.mp hc]
      rintro rfl
      exact ha (List.mem_eraseDups.mp hb)

/-- A function that tells the members apart keeps the order of first appearance. -/
theorem eraseDups_map {f : ℕ → ℕ} : ∀ {seen : List ℕ}, (∀ a ∈ seen, ∀ b ∈ seen, f a = f b → a = b) →
    (seen.map f).eraseDups = seen.eraseDups.map f := by
  intro seen
  induction seen using List.reverseRecOn with
  | nil => exact fun _ => rfl
  | append_singleton seen a ih =>
    intro hf
    have hih := ih fun b hb c hc =>
      hf b (List.mem_append_left _ hb) c (List.mem_append_left _ hc)
    have hmem : f a ∈ seen.map f ↔ a ∈ seen := by
      constructor
      · intro hmem
        obtain ⟨b, hb, heq⟩ := List.mem_map.mp hmem
        rwa [← hf b (List.mem_append_left _ hb) a (by simp) heq]
      · exact fun ha => List.mem_map_of_mem ha
    rw [List.map_append, List.map_singleton, eraseDups_concat, eraseDups_concat, hih]
    by_cases ha : a ∈ seen
    · rw [if_pos ha, if_pos (hmem.mpr ha)]
    · rw [if_neg ha, if_neg (mt hmem.mp ha), List.map_append, List.map_singleton]

/-- The numbers that some assignments were given. -/
structure Numbers (seen : List ℕ) (remap : Remap) : Prop where
  next : remap.next = seen.eraseDups.length
  table : ∀ a, remap.table[a]? = if a ∈ seen then some (seen.eraseDups.idxOf a) else none

theorem Numbers.add {remap : Remap} (h : Numbers seen remap) (a : ℕ) :
    Numbers (seen ++ [a]) (remap.add a) := by
  have hcontains : remap.table.contains a = true ↔ a ∈ seen := by
    rw [ExtTreeMap.contains_eq_isSome_getElem?, h.table]
    split <;> simp [*]
  rw [Remap.add]
  by_cases ha : a ∈ seen
  · rw [if_pos (hcontains.mpr ha)]
    refine ⟨?_, fun b => ?_⟩
    · rw [eraseDups_concat, if_pos ha, h.next]
    · rw [eraseDups_concat, if_pos ha, h.table]
      by_cases hb : b = a
      · subst hb
        simp [ha]
      · simp [hb]
  · rw [if_neg (mt hcontains.mp ha)]
    refine ⟨?_, fun b => ?_⟩
    · rw [eraseDups_concat, if_neg ha, List.length_append, h.next]
      rfl
    · rw [eraseDups_concat, if_neg ha, ExtTreeMap.getElem?_insert, h.table, h.next]
      by_cases hb : b = a
      · subst hb
        have hnot : b ∉ seen.eraseDups := mt List.mem_eraseDups.mp ha
        simp [List.idxOf_append_of_notMem hnot]
      · have hne : ¬compare a b = .eq := fun heq => hb (Std.LawfulEqCmp.eq_of_compare heq).symm
        rw [if_neg hne]
        by_cases hmem : b ∈ seen
        · rw [if_pos hmem, if_pos (List.mem_append_left _ hmem),
            List.idxOf_append_of_mem (List.mem_eraseDups.mpr hmem)]
        · rw [if_neg hmem, if_neg (by simp [hmem, hb])]

theorem numbers_foldl (l : List ℕ) : Numbers l (l.foldl Remap.add {}) := by
  induction l using List.reverseRecOn with
  | nil => exact ⟨rfl, fun a => by simp⟩
  | append_singleton l a ih =>
    rw [List.foldl_append]
    exact ih.add a

/-- **The new number of an assignment is its place among those that appeared.** -/
theorem renumber_eq (assignments : List ℕ) :
    renumber assignments = assignments.map fun a => assignments.eraseDups.idxOf a := by
  refine List.map_congr_left fun a ha => ?_
  rw [(numbers_foldl assignments).table, if_pos ha, Option.getD_some]

theorem renumber_inj {assignments : List ℕ} {a b : ℕ} (ha : a ∈ assignments)
    (h : assignments.eraseDups.idxOf a = assignments.eraseDups.idxOf b) : a = b :=
  (List.idxOf_inj (List.mem_eraseDups.mpr ha)).mp h

/-- **The new numbers appear in their order.** -/
theorem eraseDups_renumber (assignments : List ℕ) :
    (renumber assignments).eraseDups = List.range assignments.eraseDups.length := by
  rw [renumber_eq, eraseDups_map fun a ha b _ => renumber_inj ha]
  refine List.ext_getElem (by simp) fun i hi hi' => ?_
  rw [List.getElem_map, List.getElem_range]
  exact (nodup_eraseDups assignments).idxOf_getElem i (by simpa using hi)

end Numbers

/-! ## The report -/

section Report

variable {host : Host} {value : Json} {source : String} {graph : GraphData} {count : ℕ} {adj : Adj}

/-- What a report is meant to be: as many passes at most as are allowed, numbers of communities in the
order of first appearance, communities within reach, and the modularity of the partition. -/
structure ReportsModularity (adj : Adj) (maxIter : ℕ) : Prop where
  passes : (louvainSimple adj maxIter).passes ≤ max maxIter 1
  length : (louvainSimple adj maxIter).assignments.length = adj.length
  numbered : ∃ k, (louvainSimple adj maxIter).assignments.eraseDups = List.range k
  reached : ∀ u < adj.length, ∀ v < adj.length,
    (louvainSimple adj maxIter).assignments.getD u 0 = (louvainSimple adj maxIter).assignments.getD v 0 →
      Reached adj u v
  score : (louvainSimple adj maxIter).score = newmanModularity (louvainSimple adj maxIter).assignments adj

theorem Reached.symm (h : Symmetric adj) {u v : ℕ} (huv : Reached adj u v) : Reached adj v u := by
  induction huv with
  | refl => exact .refl
  | tail _ hlast ih =>
    obtain ⟨w, hentry⟩ := hlast
    exact .head ⟨w, (h _ _ w).mp hentry⟩ ih

/-- **The partition.** -/
theorem louvain_partition (hadj : Regular count adj) (hsymmetric : Symmetric adj) (hcount : count ≠ 0)
    (maxIter : ℕ) : (louvainSimple adj maxIter).passes ≤ max maxIter 1 ∧
      (louvainSimple adj maxIter).assignments.length = adj.length ∧
      (∃ k, (louvainSimple adj maxIter).assignments.eraseDups = List.range k) ∧
      ∀ u < adj.length, ∀ v < adj.length, (louvainSimple adj maxIter).assignments.getD u 0 =
        (louvainSimple adj maxIter).assignments.getD v 0 → Reached adj u v := by
  obtain ⟨hlabelled, hpasses⟩ := (labelled_range adj).runPasses hadj (max maxIter 1)
  rw [louvainSimple, if_neg (hadj.length.trans_ne hcount)]
  dsimp only
  generalize (runPasses adj (max maxIter 1) (List.range adj.length)).1 = labels at hlabelled
  refine ⟨hpasses, ?_, ⟨_, eraseDups_renumber labels⟩, ?_⟩
  · rw [renumber_eq, List.length_map, hlabelled.length]
  · intro u hu v hv hsame
    have hu' : u < labels.length := hlabelled.length.symm ▸ hu
    have hv' : v < labels.length := hlabelled.length.symm ▸ hv
    have hhome := hlabelled.home u hu
    have hhome' := hlabelled.home v hv
    rw [List.getD_eq_getElem _ _ hu'] at hhome
    rw [List.getD_eq_getElem _ _ hv'] at hhome'
    rw [renumber_eq, List.getD_eq_getElem _ _ (by rwa [List.length_map]), List.getElem_map,
      List.getD_eq_getElem _ _ (by rwa [List.length_map]), List.getElem_map] at hsame
    rw [renumber_inj (List.getElem_mem hu') hsame] at hhome
    exact hhome.trans (hhome'.symm hsymmetric)

/-- **When Louvain reports the modularity.**  For a parsed graph without self loops everything but the
score is as it is meant to be, and the score is the modularity of the partition if and only if the graph
has no edges. -/
theorem louvain_reports_iff (h : parseGraphJsonValue host value source = .ok graph)
    (hloops : ∀ i w, (i, w) ∉ Adj.row graph.undirectedAdj i) (maxIter : ℕ) :
    ReportsModularity graph.undirectedAdj maxIter ↔ ∀ i, Adj.row graph.undirectedAdj i = [] := by
  obtain ⟨hadj, hsymmetric⟩ := regular_undirectedAdj h
  have hcount := nodes_ne_nil h
  obtain ⟨hpasses, hlength, hnumbered, hreached⟩ := louvain_partition hadj hsymmetric hcount maxIter
  have hscore : (louvainSimple graph.undirectedAdj maxIter).score =
      modularity (louvainSimple graph.undirectedAdj maxIter).assignments graph.undirectedAdj
        (degrees graph.undirectedAdj) (twiceWeight graph.undirectedAdj) := by
    rw [louvainSimple, if_neg (hadj.length.trans_ne hcount)]
  constructor
  · intro hreports i
    by_contra hi
    have hexact := hreports.score
    rw [hscore, hadj.score_eq (hlength.trans hadj.length) hi] at hexact
    have hunseen := hadj.unseen_pos (louvainSimple graph.undirectedAdj maxIter).assignments hi (hloops i)
    linarith
  · intro hedges
    have hzero := hadj.modularity_of_edgeless
      (louvainSimple graph.undirectedAdj maxIter).assignments hedges
    exact ⟨hpasses, hlength, hnumbered, hreached, hscore.trans (hzero.1.trans hzero.2.symm)⟩

/-- The graph of two neighbours. -/
theorem parse_neighbours : ∃ graph, parseGraphJsonValue plainHost (oneEdge false "a" "b") "" = .ok graph ∧
    graph.undirectedAdj = [[(1, 1)], [(0, 1)]] ∧ ∀ i w, (i, w) ∉ Adj.row graph.undirectedAdj i := by
  have hadj : (graphOf plainHost (payloadFields (oneEdge false "a" "b")) "").undirectedAdj =
      [[(1, 1)], [(0, 1)]] := by
    have htable : (Tally.tally ((edgeEntries (payloadFields (oneEdge false "a" "b"))).map undEntry)).toList =
        [((0, 1), 1)] := by
      decide +kernel
    have hlength : (nodeList (payloadFields (oneEdge false "a" "b"))).length = 2 := by decide
    rw [graphOf_eq]
    dsimp only
    rw [undirectedAdjacency, htable, hlength]
    simp [pushRow, sortRows, List.replicate, List.modify]
  refine ⟨_, parse_eq_ok.mpr ⟨by decide, rfl⟩, hadj, ?_⟩
  rw [hadj]
  rintro (_ | _ | i) w hmem
  · simp [Adj.row] at hmem
  · simp [Adj.row] at hmem
  · simp [Adj.row] at hmem

/-- The modularity of two neighbours is not reported. -/
theorem neighbours_unreported : ∃ graph, parseGraphJsonValue plainHost (oneEdge false "a" "b") "" = .ok graph ∧
    ¬ReportsModularity graph.undirectedAdj 24 := by
  obtain ⟨graph, hparse, hadj, hloops⟩ := parse_neighbours
  refine ⟨graph, hparse, fun hreports => ?_⟩
  have hrow := (louvain_reports_iff hparse hloops 24).mp hreports 0
  rw [hadj] at hrow
  cases hrow

/-- Two neighbours: the score is one half, the modularity of the one community is zero. -/
theorem neighbours_overrated : ∃ graph, parseGraphJsonValue plainHost (oneEdge false "a" "b") "" = .ok graph ∧
    (∀ i w, (i, w) ∉ Adj.row graph.undirectedAdj i) ∧
    (louvainSimple graph.undirectedAdj 24).assignments = [0, 0] ∧
    (louvainSimple graph.undirectedAdj 24).score = 1 / 2 ∧
    newmanModularity [0, 0] graph.undirectedAdj = 0 ∧ ¬ReportsModularity graph.undirectedAdj 24 := by
  obtain ⟨graph, hparse, hadj, hloops⟩ := parse_neighbours
  refine ⟨graph, hparse, hloops, ?_⟩
  rw [hadj]
  have hassignments : (louvainSimple [[(1, 1)], [(0, 1)]] 24).assignments = [0, 0] := by decide +kernel
  have hscore : (louvainSimple [[(1, 1)], [(0, 1)]] 24).score = 1 / 2 := by decide +kernel
  have hmodularity : newmanModularity [0, 0] [[(1, 1)], [(0, 1)]] = 0 := by decide +kernel
  refine ⟨hassignments, hscore, hmodularity, fun hreports => ?_⟩
  have hexact := hreports.score
  rw [hassignments, hscore, hmodularity] at hexact
  norm_num at hexact

end Report

end Protheus.GraphToolkit
