import Protheus.GraphToolkit.Adjacency
import Protheus.Lib.Geodesics

/-!
`betweenness_centrality` of `algorithms.rs`.

From every node a search counts the shortest walks and notes from where they come
(`Frontier`, `Explored`); then the nodes hand back, the farthest first, what depends on
them (`Settled`).  `Lib/Geodesics` has the two recursions that these loops follow and the
betweenness that the sum over all nodes comes to.
-/

namespace Protheus.GraphToolkit

open V8Kernel
open Geodesics

/-! ## The algorithm -/

/-- `neighbors`.  An index is a node; the lists of a graph hold no other. -/
def neighbors (adj : Adj) (v : Fin adj.length) : List (Fin adj.length) :=
  (Adj.row adj v).filterMap fun entry => if h : entry.1 < adj.length then some ⟨entry.1, h⟩ else none

/-- The state of the search from a node.  The stack is in the order of pushing. -/
@[ext]
structure Bfs (n : ℕ) where
  stack : List (Fin n) := []
  pred : Fin n → List (Fin n) := fun _ => []
  sigma : Fin n → ℚ
  dist : Fin n → ℤ
  queue : List (Fin n)

/-- One round of the loop over the neighbours of `v`. -/
def visitNeighbor {n : ℕ} (v : Fin n) (s : Bfs n) (w : Fin n) : Bfs n :=
  let s := if s.dist w < 0 then
      { s with dist := Function.update s.dist w (s.dist v + 1), queue := s.queue ++ [w] }
    else s
  if s.dist w = s.dist v + 1 then
    { s with
      sigma := Function.update s.sigma w (s.sigma w + s.sigma v)
      pred := Function.update s.pred w (s.pred w ++ [v]) }
  else s

/-- One round of the loop over the queue. -/
def bfsTurn {n : ℕ} (neighbors : Fin n → List (Fin n)) (s : Bfs n) : Bfs n :=
  match s.queue with
  | [] => s
  | v :: queue => (neighbors v).foldl (visitNeighbor v) { s with queue, stack := s.stack ++ [v] }

/-- So many rounds. -/
def bfsTurns {n : ℕ} (neighbors : Fin n → List (Fin n)) : ℕ → Bfs n → Bfs n
  | 0, s => s
  | turns + 1, s => bfsTurns neighbors turns (bfsTurn neighbors s)

/-- The search from a node, for as many rounds as there are nodes. -/
def bfsFrom {n : ℕ} (neighbors : Fin n → List (Fin n)) (source : Fin n) : Bfs n :=
  bfsTurns neighbors n
    { sigma := Function.update (fun _ => 0) source 1
      dist := Function.update (fun _ => -1) source 0
      queue := [source] }

/-- One round of the loop over the predecessors of `w`. -/
def credit {n : ℕ} (s : Bfs n) (w : Fin n) (delta : Fin n → ℚ) (v : Fin n) : Fin n → ℚ :=
  if 0 < s.sigma w then
    Function.update delta v (delta v + s.sigma v / s.sigma w * (1 + delta w))
  else delta

/-- `delta` and `scores`. -/
structure Back (n : ℕ) where
  delta : Fin n → ℚ := fun _ => 0
  scores : Fin n → ℚ

/-- One round of the loop over the stack. -/
def accumulate {n : ℕ} (s : Bfs n) (source : Fin n) (back : Back n) (w : Fin n) : Back n :=
  let delta := (s.pred w).foldl (credit s w) back.delta
  { delta
    scores := if w = source then back.scores
      else Function.update back.scores w (back.scores w + delta w) }

/-- One round of the loop over the sources. -/
def addSource {n : ℕ} (neighbors : Fin n → List (Fin n)) (scores : Fin n → ℚ) (source : Fin n) :
    Fin n → ℚ :=
  let s := bfsFrom neighbors source
  (s.stack.reverse.foldl (accumulate s source) { scores }).scores

/-- `betweenness_centrality`. -/
def betweennessCentrality (adj : Adj) (normalize : Bool) : List ℚ :=
  let n := adj.length
  let scores := (List.finRange n).foldl (addSource (neighbors adj)) fun _ => 0
  let halved := (List.finRange n).map fun v => scores v / 2
  let scale : ℚ := (n - 1) * (n - 2) / 2
  if normalize ∧ 2 < n ∧ 0 < scale then halved.map (· / scale) else halved

/-! ## A row of neighbours -/

section Row

variable {n : ℕ} {v : Fin n} {s : Bfs n} {row : List (Fin n)}

/-- A neighbour that is no nearer than the next distance. -/
def Behind (s : Bfs n) (v w : Fin n) : Prop := s.dist w < 0 ∨ s.dist w = s.dist v + 1

instance (s : Bfs n) (v w : Fin n) : Decidable (Behind s v w) :=
  inferInstanceAs (Decidable (_ ∨ _))

theorem visitNeighbor_eq (hv : 0 ≤ s.dist v) (w : Fin n) : visitNeighbor v s w =
    { stack := s.stack
      pred := Function.update s.pred w (if Behind s v w then s.pred w ++ [v] else s.pred w)
      sigma := Function.update s.sigma w (if Behind s v w then s.sigma w + s.sigma v else s.sigma w)
      dist := Function.update s.dist w (if s.dist w < 0 then s.dist v + 1 else s.dist w)
      queue := s.queue ++ if s.dist w < 0 then [w] else [] } := by
  unfold visitNeighbor Behind
  by_cases hnew : s.dist w < 0
  · have hne : v ≠ w := by
      rintro rfl
      omega
    simp [hnew, hne]
  · by_cases hnext : s.dist w = s.dist v + 1
    · have hlater : ¬s.dist v + 1 < 0 := by omega
      simp [hnext, hlater]
    · simp [hnew, hnext]

/-- **What the loop over the neighbours does.** -/
theorem foldl_visitNeighbor (hv : 0 ≤ s.dist v) (hrow : row.Nodup) : row.foldl (visitNeighbor v) s =
    { stack := s.stack
      pred := fun w => if w ∈ row ∧ Behind s v w then s.pred w ++ [v] else s.pred w
      sigma := fun w => if w ∈ row ∧ Behind s v w then s.sigma w + s.sigma v else s.sigma w
      dist := fun w => if w ∈ row ∧ s.dist w < 0 then s.dist v + 1 else s.dist w
      queue := s.queue ++ row.filter (s.dist · < 0) } := by
  induction row generalizing s with
  | nil => simp
  | cons w row ih =>
    rw [List.nodup_cons] at hrow
    obtain ⟨hw, hrow⟩ := hrow
    have hnext := visitNeighbor_eq hv w
    rw [List.foldl_cons]
    generalize visitNeighbor v s w = next at hnext ⊢
    have hother (u : Fin n) (hu : u ≠ w) : next.dist u = s.dist u ∧ next.sigma u = s.sigma u ∧
        next.pred u = s.pred u := by
      rw [hnext]
      exact ⟨Function.update_of_ne hu .., Function.update_of_ne hu .., Function.update_of_ne hu ..⟩
    have hself : next.dist v = s.dist v ∧ next.sigma v = s.sigma v := by
      by_cases hvw : v = w
      · subst hvw
        have hnot : ¬s.dist v < 0 := not_lt.mpr hv
        have hbehind : ¬Behind s v v := by
          rintro (h | h)
          · exact hnot h
          · omega
        rw [hnext]
        simp [hnot, hbehind]
      · exact ⟨(hother v hvw).1, (hother v hvw).2.1⟩
    have hrest (u : Fin n) (hu : u ∈ row) : next.dist u = s.dist u := by
      refine (hother u ?_).1
      rintro rfl
      exact hw hu
    have hbehind (u : Fin n) (hu : u ≠ w) : Behind next v u ↔ Behind s v u := by
      unfold Behind
      rw [(hother u hu).1, hself.1]
    rw [ih (by rw [hself.1]; exact hv) hrow]
    have hmem (u : Fin n) (hu : u ≠ w) : u ∈ w :: row ↔ u ∈ row := by
      rw [List.mem_cons]
      exact or_iff_right hu
    refine Bfs.ext ?_ (funext fun u => ?_) (funext fun u => ?_) (funext fun u => ?_) ?_
    · rw [hnext]
    · by_cases hu : u = w
      · subst hu
        simp [hw, hnext]
      · simp only [hmem u hu, hbehind u hu, (hother u hu).2.2]
    · by_cases hu : u = w
      · subst hu
        simp [hw, hnext]
      · simp only [hmem u hu, hbehind u hu, (hother u hu).2.1, hself.2]
    · by_cases hu : u = w
      · subst hu
        simp [hw, hnext]
      · simp only [hmem u hu, (hother u hu).1, hself.1]
    · have hfilter : row.filter (next.dist · < 0) = row.filter (s.dist · < 0) :=
        List.filter_congr fun u hu => by rw [hrest u hu]
      rw [hfilter, hnext, List.filter_cons]
      by_cases hnew : s.dist w < 0
      · simp [hnew]
      · simp [hnew]

end Row

/-! ## The search -/

/-- The lists of neighbours of a graph; a node may stand in its own list. -/
structure Neighbors {n : ℕ} (neighbors : Fin n → List (Fin n)) (G : SimpleGraph (Fin n)) : Prop where
  nodup : ∀ u, (neighbors u).Nodup
  mem : ∀ u v, u ≠ v → (v ∈ neighbors u ↔ G.Adj u v)

/-- The nodes that a search has come to, in the order in which it did. -/
def Bfs.found {n : ℕ} (s : Bfs n) : List (Fin n) := s.stack ++ s.queue

/-- The state of a search between two rounds. -/
structure Frontier {n : ℕ} (G : SimpleGraph (Fin n)) [DecidableRel G.Adj] (source : Fin n) (s : Bfs n) :
    Prop where
  nodup : s.found.Nodup
  marked : ∀ v, 0 ≤ s.dist v ↔ v ∈ s.found
  begun : source ∈ s.found ∧ s.dist source = 0
  reached : ∀ v ∈ s.found, ∃ p : G.Walk source v, (p.length : ℤ) = s.dist v
  sorted : s.found.Pairwise fun u v => s.dist u ≤ s.dist v
  near : ∀ u ∈ s.queue, ∀ v ∈ s.queue, s.dist u ≤ s.dist v + 1
  closed : ∀ v ∈ s.stack, ∀ w, G.Adj v w → w ∈ s.found ∧ s.dist w ≤ s.dist v + 1
  pred : ∀ w, s.pred w = s.stack.filter fun v => G.Adj v w ∧ s.dist v + 1 = s.dist w
  sigma : ∀ w, s.sigma w = (if w = source then 1 else 0) + ((s.pred w).map s.sigma).sum

section Search

variable {n : ℕ} {neighbors : Fin n → List (Fin n)} {G : SimpleGraph (Fin n)} [DecidableRel G.Adj]
  {source : Fin n} {s : Bfs n}

theorem frontier_start (G : SimpleGraph (Fin n)) [DecidableRel G.Adj] (source : Fin n) :
    Frontier G source
      { sigma := Function.update (fun _ => 0) source 1
        dist := Function.update (fun _ => -1) source 0
        queue := [source] } where
  nodup := List.nodup_singleton source
  marked v := by
    by_cases hv : v = source
    · simp [Bfs.found, hv]
    · simp [Bfs.found, hv]
  begun := ⟨List.mem_singleton_self source, by simp⟩
  reached v hv := by
    obtain rfl := List.mem_singleton.mp hv
    exact ⟨.nil, by simp⟩
  sorted := List.pairwise_singleton ..
  near u hu v hv := by
    obtain rfl := List.mem_singleton.mp hu
    obtain rfl := List.mem_singleton.mp hv
    omega
  closed v hv := absurd hv List.not_mem_nil
  pred w := rfl
  sigma w := by
    by_cases hw : w = source
    · simp [hw]
    · simp [hw]

/-- The state after a node was taken out of the queue. -/
structure Turned (neighbors : Fin n → List (Fin n)) (s : Bfs n) (v : Fin n) (rest : List (Fin n))
    (next : Bfs n) : Prop where
  stack : next.stack = s.stack ++ [v]
  queue : next.queue = rest ++ (neighbors v).filter (s.dist · < 0)
  dist : ∀ w, next.dist w = if w ∈ neighbors v ∧ s.dist w < 0 then s.dist v + 1 else s.dist w
  sigma : ∀ w, next.sigma w =
    if w ∈ neighbors v ∧ Behind s v w then s.sigma w + s.sigma v else s.sigma w
  pred : ∀ w, next.pred w = if w ∈ neighbors v ∧ Behind s v w then s.pred w ++ [v] else s.pred w

theorem bfsTurn_turned (hneighbors : Neighbors neighbors G) (h : Frontier G source s) {v : Fin n}
    {rest : List (Fin n)} (hqueue : s.queue = v :: rest) :
    Turned neighbors s v rest (bfsTurn neighbors s) := by
  have hv : 0 ≤ s.dist v := (h.marked v).mpr (by simp [Bfs.found, hqueue])
  have hturn : bfsTurn neighbors s = (neighbors v).foldl (visitNeighbor v)
      { s with queue := rest, stack := s.stack ++ [v] } := by
    rw [bfsTurn, hqueue]
  rw [hturn, foldl_visitNeighbor (s := { s with queue := rest, stack := s.stack ++ [v] }) hv
    (hneighbors.nodup v)]
  exact ⟨rfl, rfl, fun _ => rfl, fun _ => rfl, fun _ => rfl⟩

section Turn

variable {v : Fin n} {rest : List (Fin n)} {next : Bfs n}

/-- What the nodes found so far say of the node that is taken out. -/
theorem Frontier.head (h : Frontier G source s) (hqueue : s.queue = v :: rest) :
    v ∈ s.found ∧ (∀ u ∈ s.stack, s.dist u ≤ s.dist v) ∧ (∀ u ∈ s.queue, s.dist v ≤ s.dist u) ∧
      ∀ u ∈ s.found, s.dist u ≤ s.dist v + 1 := by
  have hmem : v ∈ s.queue := hqueue ▸ List.mem_cons_self
  obtain ⟨-, hlater, hcross⟩ := List.pairwise_append.mp h.sorted
  have hstack : ∀ u ∈ s.stack, s.dist u ≤ s.dist v := fun u hu => hcross u hu v hmem
  refine ⟨List.mem_append_right _ hmem, hstack, ?_, ?_⟩
  · intro u hu
    rw [hqueue] at hu hlater
    obtain rfl | hu := List.mem_cons.mp hu
    · exact le_rfl
    · exact (List.pairwise_cons.mp hlater).1 u hu
  · intro u hu
    obtain hu | hu := List.mem_append.mp hu
    · have := hstack u hu
      omega
    · exact h.near u hu v hmem

theorem Turned.found (ht : Turned neighbors s v rest next) (hqueue : s.queue = v :: rest) :
    next.found = s.found ++ (neighbors v).filter (s.dist · < 0) := by
  rw [Bfs.found, Bfs.found, ht.stack, ht.queue, hqueue]
  simp

theorem Turned.dist_of_found (ht : Turned neighbors s v rest next) (h : Frontier G source s) {u : Fin n}
    (hu : u ∈ s.found) : next.dist u = s.dist u := by
  rw [ht.dist, if_neg]
  exact fun hnew => absurd ((h.marked u).mpr hu) (not_le.mpr hnew.2)

theorem Turned.dist_of_new (ht : Turned neighbors s v rest next) {u : Fin n}
    (hu : u ∈ (neighbors v).filter (s.dist · < 0)) : next.dist u = s.dist v + 1 := by
  rw [ht.dist, if_pos]
  simpa using hu

/-- The neighbours that are no nearer are those that the node comes right before. -/
theorem Turned.behind_iff (ht : Turned neighbors s v rest next) (hneighbors : Neighbors neighbors G)
    (h : Frontier G source s) (hqueue : s.queue = v :: rest) (w : Fin n) :
    w ∈ neighbors v ∧ Behind s v w ↔ G.Adj v w ∧ s.dist v + 1 = next.dist w := by
  have hv : 0 ≤ s.dist v := (h.marked v).mpr (h.head hqueue).1
  by_cases hvw : v = w
  · subst hvw
    constructor
    · rintro ⟨-, hnew | hnext⟩
      · omega
      · omega
    · exact fun hloop => absurd hloop.1 (G.loopless.irrefl v)
  · simp only [ht.dist, hneighbors.mem v w hvw, Behind]
    by_cases hnew : s.dist w < 0
    · by_cases hadj : G.Adj v w
      · simp [hnew, hadj]
      · simp [hadj]
    · simp [hnew, eq_comm]

/-- **A round keeps the state of the search.** -/
theorem Frontier.turn (hneighbors : Neighbors neighbors G) (h : Frontier G source s)
    (hqueue : s.queue = v :: rest) (ht : Turned neighbors s v rest next) : Frontier G source next := by
  obtain ⟨hv, hstack, hrest, hnear⟩ := h.head hqueue
  have hfound := ht.found hqueue
  set new := (neighbors v).filter (s.dist · < 0) with hnew
  have hpos : 0 ≤ s.dist v := (h.marked v).mpr hv
  have hold {u : Fin n} (hu : u ∈ s.found) : next.dist u = s.dist u := ht.dist_of_found h hu
  have hnext {u : Fin n} (hu : u ∈ new) : next.dist u = s.dist v + 1 := ht.dist_of_new hu
  have hunmarked {u : Fin n} (hu : u ∈ new) : s.dist u < 0 := by
    rw [hnew, List.mem_filter] at hu
    simpa using hu.2
  have hadj {u : Fin n} (hu : u ∈ new) : G.Adj v u := by
    refine (hneighbors.mem v u ?_).mp (List.mem_of_mem_filter hu)
    rintro rfl
    exact absurd (hunmarked hu) (not_lt.mpr hpos)
  have hmem {u : Fin n} : u ∈ next.found ↔ u ∈ s.found ∨ u ∈ new := by rw [hfound, List.mem_append]
  have hstackOld {u : Fin n} (hu : u ∈ s.stack ++ [v]) : u ∈ s.found := by
    obtain hu | hu := List.mem_append.mp hu
    · exact List.mem_append_left _ hu
    · rwa [List.mem_singleton.mp hu]
  have hqueueOld {u : Fin n} (hu : u ∈ rest) : u ∈ s.queue := hqueue ▸ List.mem_cons_of_mem v hu
  refine ⟨?_, ?_, ?_, ?_, ?_, ?_, ?_, ?_, ?_⟩
  · rw [hfound]
    refine List.nodup_append.mpr ⟨h.nodup, (hneighbors.nodup v).filter _, fun u hu w hw => ?_⟩
    rintro rfl
    exact absurd ((h.marked u).mpr hu) (not_le.mpr (hunmarked hw))
  · intro u
    rw [hmem]
    constructor
    · intro hu
      by_contra hnot
      rw [not_or] at hnot
      have hless : s.dist u < 0 := not_le.mp (mt (h.marked u).mp hnot.1)
      rw [ht.dist, if_neg] at hu
      · omega
      · exact fun hin => hnot.2 (List.mem_filter.mpr ⟨hin.1, by simpa using hin.2⟩)
    · rintro (hu | hu)
      · rw [hold hu]
        exact (h.marked u).mpr hu
      · rw [hnext hu]
        omega
  · exact ⟨hmem.mpr (.inl h.begun.1), (hold h.begun.1).trans h.begun.2⟩
  · intro u hu
    rcases hmem.mp hu with hu | hu
    · rw [hold hu]
      exact h.reached u hu
    · obtain ⟨p, hp⟩ := h.reached v hv
      refine ⟨p.concat (hadj hu), ?_⟩
      rw [hnext hu, SimpleGraph.Walk.length_concat, ← hp]
      rfl
  · rw [hfound]
    refine List.pairwise_append.mpr ⟨?_, ?_, ?_⟩
    · refine h.sorted.imp_of_mem fun hu hw hle => ?_
      rwa [hold hu, hold hw]
    · refine List.Pairwise.imp_of_mem (fun hu hw _ => ?_) (((hneighbors.nodup v).filter _))
      rw [hnext hu, hnext hw]
    · intro u hu w hw
      rw [hold hu, hnext hw]
      exact hnear u hu
  · intro u hu w hw
    rw [ht.queue] at hu hw
    rcases List.mem_append.mp hu with hu | hu
    · have hu' : u ∈ s.found := List.mem_append_right _ (hqueueOld hu)
      have hle := hnear u hu'
      rcases List.mem_append.mp hw with hw | hw
      · rw [hold hu', hold (List.mem_append_right _ (hqueueOld hw))]
        exact h.near u (hqueueOld hu) w (hqueueOld hw)
      · rw [hold hu', hnext hw]
        omega
    · rcases List.mem_append.mp hw with hw | hw
      · have hle := hrest w (hqueueOld hw)
        rw [hnext hu, hold (List.mem_append_right _ (hqueueOld hw))]
        omega
      · rw [hnext hu, hnext hw]
        omega
  · intro u hu w huw
    rw [ht.stack] at hu
    rw [hold (hstackOld hu)]
    obtain hu | hu := List.mem_append.mp hu
    · obtain ⟨hw, hle⟩ := h.closed u hu w huw
      exact ⟨hmem.mpr (.inl hw), (hold hw).trans_le hle⟩
    · obtain rfl := List.mem_singleton.mp hu
      by_cases hw : w ∈ s.found
      · exact ⟨hmem.mpr (.inl hw), (hold hw).trans_le (hnear w hw)⟩
      · have hless : s.dist w < 0 := not_le.mp (mt (h.marked w).mp hw)
        have hwnew : w ∈ new := List.mem_filter.mpr
          ⟨(hneighbors.mem u w huw.ne).mpr huw, by simpa using hless⟩
        exact ⟨hmem.mpr (.inr hwnew), (hnext hwnew).le⟩
  · intro w
    rw [ht.pred, ht.stack, List.filter_append]
    have hbehind := ht.behind_iff hneighbors h hqueue w
    have hfirst : s.stack.filter (fun u => G.Adj u w ∧ next.dist u + 1 = next.dist w) = s.pred w := by
      rw [h.pred]
      refine List.filter_congr fun u hu => ?_
      rw [hold (List.mem_append_left _ hu)]
      by_cases hw : w ∈ s.found
      · rw [hold hw]
      · have hnot : ¬G.Adj u w := fun hadj => hw (h.closed u hu w hadj).1
        simp [hnot]
    rw [hfirst]
    by_cases hthere : w ∈ neighbors v ∧ Behind s v w
    · rw [if_pos hthere]
      have hdist := hbehind.mp hthere
      rw [← hold hv] at hdist
      simp [hdist]
    · rw [if_neg hthere]
      have hnot := mt hbehind.mpr hthere
      rw [← hold hv] at hnot
      simpa using hnot
  · intro w
    -- the nodes on the stack are no farther than `v`, which adds nothing to them
    have hkeep {u : Fin n} (hu : u ∈ s.stack ++ [v]) : next.sigma u = s.sigma u := by
      rw [ht.sigma, if_neg]
      rintro ⟨-, hless | hfar⟩
      · exact absurd ((h.marked u).mpr (hstackOld hu)) (not_le.mpr hless)
      · obtain hu | hu := List.mem_append.mp hu
        · have := hstack u hu
          omega
        · obtain rfl := List.mem_singleton.mp hu
          omega
    have hpred : (s.pred w).map next.sigma = (s.pred w).map s.sigma := by
      refine List.map_congr_left fun u hu => hkeep (List.mem_append_left _ ?_)
      rw [h.pred] at hu
      exact List.mem_of_mem_filter hu
    rw [ht.sigma, ht.pred]
    split
    · rw [List.map_append, List.sum_append, hpred, h.sigma w, List.map_singleton, List.sum_singleton,
        hkeep (List.mem_append_right _ (List.mem_singleton_self v))]
      ring
    · rw [hpred]
      exact h.sigma w

end Turn

/-- A run keeps the state of the search, and ends or puts a node on the stack in every round. -/
theorem Frontier.turns (hneighbors : Neighbors neighbors G) : ∀ (turns : ℕ) {s : Bfs n},
    Frontier G source s → Frontier G source (bfsTurns neighbors turns s) ∧
      ((bfsTurns neighbors turns s).queue = [] ∨
        (bfsTurns neighbors turns s).stack.length = s.stack.length + turns)
  | 0, _, h => ⟨h, .inr rfl⟩
  | turns + 1, s, h => by
    rw [bfsTurns]
    cases hqueue : s.queue with
    | nil =>
      have hsame : bfsTurn neighbors s = s := by rw [bfsTurn, hqueue]
      have hstays (turns : ℕ) : bfsTurns neighbors turns s = s := by
        induction turns with
        | zero => rfl
        | succ turns ih => rw [bfsTurns, hsame, ih]
      rw [hsame, hstays]
      exact ⟨h, .inl hqueue⟩
    | cons v rest =>
      have ht := bfsTurn_turned hneighbors h hqueue
      obtain ⟨hrun, hlength⟩ := Frontier.turns hneighbors turns (h.turn hneighbors hqueue ht)
      refine ⟨hrun, hlength.imp_right fun heq => ?_⟩
      rw [heq, ht.stack, List.length_append, List.length_singleton]
      omega

/-- What a search has found when it is over. -/
structure Explored (G : SimpleGraph (Fin n)) [DecidableRel G.Adj] (source : Fin n) (s : Bfs n) : Prop where
  nodup : s.stack.Nodup
  mem : ∀ v, v ∈ s.stack ↔ G.Reachable source v
  sorted : s.stack.Pairwise fun u v => G.dist source u ≤ G.dist source v
  pred : ∀ w, s.pred w = s.stack.filter fun v => Before G source v w
  sigma : ∀ w, G.Reachable source w → s.sigma w = count G source w

theorem Bfs.found_eq {s : Bfs n} (hover : s.queue = []) : s.found = s.stack := by
  rw [Bfs.found, hover, List.append_nil]

section Over

variable (h : Frontier G source s) (hover : s.queue = [])

include h hover

/-- A walk that starts on the stack stays on it, and is at least as long as the way. -/
theorem Frontier.of_walk {u v : Fin n} (p : G.Walk u v) : u ∈ s.stack →
    v ∈ s.stack ∧ s.dist v ≤ s.dist u + p.length := by
  have hstack := Bfs.found_eq hover
  induction p with
  | nil => exact fun hu => ⟨hu, by simp⟩
  | cons hadj p ih =>
    intro hu
    obtain ⟨hw, hle⟩ := h.closed _ hu _ hadj
    obtain ⟨hv, hle'⟩ := ih (hstack ▸ hw)
    refine ⟨hv, ?_⟩
    rw [SimpleGraph.Walk.length_cons]
    push_cast
    omega

theorem Frontier.mem_stack (v : Fin n) : v ∈ s.stack ↔ G.Reachable source v := by
  have hstack := Bfs.found_eq hover
  constructor
  · intro hv
    obtain ⟨p, -⟩ := h.reached v (hstack.symm ▸ hv)
    exact ⟨p⟩
  · rintro ⟨p⟩
    exact (h.of_walk hover p (hstack ▸ h.begun.1)).1

theorem Frontier.dist_eq {v : Fin n} (hv : v ∈ s.stack) : s.dist v = G.dist source v := by
  have hstack := Bfs.found_eq hover
  obtain ⟨p, hp⟩ := h.reached v (hstack.symm ▸ hv)
  obtain ⟨q, hq⟩ := SimpleGraph.Reachable.exists_walk_length_eq_dist ⟨p⟩
  have hle := (h.of_walk hover q (hstack ▸ h.begun.1)).2
  have hge := SimpleGraph.dist_le p
  rw [h.begun.2, hq] at hle
  omega

theorem Frontier.pred_eq (w : Fin n) : s.pred w = s.stack.filter fun v => Before G source v w := by
  rw [h.pred]
  refine List.filter_congr fun v hv => ?_
  have hdist := h.dist_eq hover hv
  by_cases hadj : G.Adj v w
  · have hw : w ∈ s.stack := Bfs.found_eq hover ▸ (h.closed v hv w hadj).1
    rw [decide_eq_decide, Before, hdist, h.dist_eq hover hw]
    refine and_congr_right fun _ => ?_
    omega
  · have hnot : ¬Before G source v w := fun hbefore => hadj hbefore.1
    simp [hadj, hnot]

/-- **The search counts the shortest walks.** -/
theorem Frontier.sigma_eq : ∀ (d : ℕ) {w : Fin n}, G.dist source w = d → G.Reachable source w →
    s.sigma w = count G source w := by
  intro d
  induction d with
  | zero =>
    intro w hd hw
    obtain rfl : source = w := hw.dist_eq_zero_iff.mp hd
    have hnone : s.pred source = [] := by
      rw [h.pred_eq hover, List.filter_eq_nil_iff]
      intro v _ hbefore
      have hdist := (of_decide_eq_true hbefore).2
      rw [SimpleGraph.dist_self] at hdist
      omega
    rw [h.sigma, hnone, count_self, if_pos rfl, List.map_nil, List.sum_nil, add_zero, Nat.cast_one]
  | succ d ih =>
    intro w hd hw
    have hne : source ≠ w := by
      rintro rfl
      rw [SimpleGraph.dist_self] at hd
      cases hd
    have hnodup : (s.pred w).Nodup := by
      rw [h.pred_eq hover]
      exact (Bfs.found_eq hover ▸ h.nodup).filter _
    have hfinset : (s.pred w).toFinset = Finset.univ.filter (Before G source · w) := by
      ext v
      rw [List.mem_toFinset, h.pred_eq hover, List.mem_filter, Finset.mem_filter, h.mem_stack hover,
        decide_eq_true_eq]
      constructor
      · exact fun hv => ⟨Finset.mem_univ v, hv.2⟩
      · exact fun hv => ⟨hw.trans hv.2.1.symm.reachable, hv.2⟩
    rw [h.sigma, if_neg hne.symm, zero_add, ← List.sum_toFinset _ hnodup, hfinset, count_eq hw hne,
      Nat.cast_sum]
    refine Finset.sum_congr rfl fun v hv => ?_
    obtain ⟨hadj, hdist⟩ := (Finset.mem_filter.mp hv).2
    exact ih (by omega) (hw.trans hadj.symm.reachable)

theorem Frontier.explored : Explored G source s where
  nodup := Bfs.found_eq hover ▸ h.nodup
  mem := h.mem_stack hover
  sorted := by
    have hsorted := h.sorted
    rw [Bfs.found_eq hover] at hsorted
    refine hsorted.imp_of_mem fun hu hv hle => ?_
    rw [h.dist_eq hover hu, h.dist_eq hover hv] at hle
    omega
  pred := h.pred_eq hover
  sigma _ hw := h.sigma_eq hover _ rfl hw

end Over

/-- **The search from a node ends, and finds what is there.** -/
theorem bfsFrom_explored (hneighbors : Neighbors neighbors G) (source : Fin n) :
    (bfsFrom neighbors source).queue = [] ∧ Explored G source (bfsFrom neighbors source) := by
  obtain ⟨hrun, hend⟩ := (frontier_start G source).turns hneighbors n
  have hover : (bfsFrom neighbors source).queue = [] := by
    rcases hend with hover | hlength
    · exact hover
    · -- all nodes are on the stack, so none is left for the queue
      have hall := hrun.nodup.length_le_card
      rw [Fintype.card_fin, Bfs.found, List.length_append, hlength] at hall
      refine List.length_eq_zero_iff.mp ?_
      change (bfsTurns neighbors n _).queue.length = 0
      simp only [List.length_nil] at hall
      omega
  exact ⟨hover, hrun.explored hover⟩

end Search

/-! ## The way back -/

section Back

variable {n : ℕ} {neighbors : Fin n → List (Fin n)} {G : SimpleGraph (Fin n)} [DecidableRel G.Adj]
  {source w : Fin n} {s : Bfs n} {scores : Fin n → ℚ}

theorem foldl_credit (hw : 0 < s.sigma w) : ∀ {pred : List (Fin n)} (delta : Fin n → ℚ), pred.Nodup →
    w ∉ pred → pred.foldl (credit s w) delta = fun v =>
      if v ∈ pred then delta v + s.sigma v / s.sigma w * (1 + delta w) else delta v := by
  intro pred
  induction pred with
  | nil => simp
  | cons u pred ih =>
    intro delta hnodup hnot
    rw [List.nodup_cons] at hnodup
    rw [List.mem_cons, not_or] at hnot
    rw [List.foldl_cons, ih _ hnodup.2 hnot.2, credit, if_pos hw]
    funext v
    by_cases hv : v = u
    · subst hv
      simp [hnodup.1]
    · rw [Function.update_of_ne hv, Function.update_of_ne hnot.1]
      simp [hv]

/-- The state of the way back when some nodes have handed back. -/
structure Settled (G : SimpleGraph (Fin n)) [DecidableRel G.Adj] (source : Fin n) (scores : Fin n → ℚ)
    (done : List (Fin n)) (back : Back n) : Prop where
  delta : ∀ v, back.delta v = ∑ w ∈ done.toFinset with Before G source v w,
    (count G source v : ℚ) / count G source w * (1 + dependency G source w)
  scores : ∀ v, back.scores v =
    scores v + if v ∈ done ∧ v ≠ source then dependency G source v else 0

/-- **A node that is farther than those left hands back what depends on it.** -/
theorem Settled.accumulate (hs : Explored G source s) {before done : List (Fin n)} {back : Back n}
    (hstack : s.stack = before ++ w :: done) (h : Settled G source scores done back) :
    Settled G source scores (w :: done) (accumulate s source back w) := by
  have hw : G.Reachable source w := (hs.mem w).mp (by simp [hstack])
  have hnodup := hs.nodup
  rw [hstack] at hnodup
  obtain ⟨-, hlater, hcross⟩ := List.nodup_append.mp hnodup
  have hnot : w ∉ done := (List.nodup_cons.mp hlater).1
  have hpos : 0 < s.sigma w := by
    rw [hs.sigma w hw]
    exact Nat.cast_pos.mpr (count_pos hw)
  -- the nodes right behind `w` are farther, so they have all handed back
  have hbehind (x : Fin n) (hx : Before G source w x) : x ∈ done := by
    have hmem : x ∈ s.stack := (hs.mem x).mpr (hx.reachable hw)
    have hdist := hx.2
    have hsorted := hs.sorted
    rw [hstack] at hmem hsorted
    rcases List.mem_append.mp hmem with hfirst | hmem
    · have hle := (List.pairwise_append.mp hsorted).2.2 x hfirst w List.mem_cons_self
      omega
    · rcases List.mem_cons.mp hmem with rfl | hmem
      · omega
      · exact hmem
  have hdelta : back.delta w = dependency G source w := by
    rw [h.delta, dependency_eq hw]
    refine Finset.sum_congr ?_ fun _ _ => rfl
    ext x
    rw [Finset.mem_filter, Finset.mem_filter, List.mem_toFinset]
    constructor
    · exact fun hx => ⟨Finset.mem_univ x, hx.2⟩
    · exact fun hx => ⟨hbehind x hx.2, hx.2⟩
  have hpred : (s.pred w).Nodup := by
    rw [hs.pred]
    exact hs.nodup.filter _
  have hmem (v : Fin n) : v ∈ s.pred w ↔ Before G source v w := by
    rw [hs.pred, List.mem_filter, decide_eq_true_eq, hs.mem]
    exact ⟨fun hv => hv.2, fun hv => ⟨hw.trans hv.1.symm.reachable, hv⟩⟩
  have hself : w ∉ s.pred w := fun hin => G.loopless.irrefl w ((hmem w).mp hin).1
  have hfold := foldl_credit hpos back.delta hpred hself
  constructor
  · intro v
    change ((s.pred w).foldl (credit s w) back.delta) v = _
    rw [hfold]
    dsimp only
    rw [h.delta, hdelta, List.toFinset_cons, Finset.filter_insert]
    by_cases hv : Before G source v w
    · have hv' : G.Reachable source v := hw.trans hv.1.symm.reachable
      rw [if_pos ((hmem v).mpr hv), if_pos hv, Finset.sum_insert, hs.sigma v hv', hs.sigma w hw, add_comm]
      intro hin
      exact hnot (List.mem_toFinset.mp (Finset.mem_filter.mp hin).1)
    · rw [if_neg (mt (hmem v).mp hv), if_neg hv]
  · intro v
    have hkeep : ((s.pred w).foldl (credit s w) back.delta) w = dependency G source w := by
      rw [hfold]
      dsimp only
      rw [if_neg hself, hdelta]
    rw [GraphToolkit.accumulate]
    dsimp only
    rw [hkeep]
    by_cases hsource : w = source
    · rw [if_pos hsource, h.scores]
      by_cases hv : v = w
      · subst hv
        simp [hsource]
      · simp [hv]
    · rw [if_neg hsource]
      by_cases hv : v = w
      · subst hv
        rw [Function.update_self, h.scores]
        simp [hnot, hsource]
      · rw [Function.update_of_ne hv, h.scores]
        simp [hv]

theorem Settled.foldl (hs : Explored G source s) (left : List (Fin n)) : ∀ {done : List (Fin n)}
    {back : Back n}, s.stack = left ++ done → Settled G source scores done back →
      Settled G source scores s.stack (left.reverse.foldl (GraphToolkit.accumulate s source) back) := by
  induction left using List.reverseRecOn with
  | nil =>
    intro done back hstack h
    rwa [hstack]
  | append_singleton left w ih =>
    intro done back hstack h
    rw [List.append_assoc, List.singleton_append] at hstack
    rw [List.reverse_append, List.reverse_singleton, List.singleton_append, List.foldl_cons]
    exact ih hstack (h.accumulate hs hstack)

/-- **A source adds its dependencies to the scores.** -/
theorem addSource_eq (hneighbors : Neighbors neighbors G) (scores : Fin n → ℚ) (source v : Fin n) :
    addSource neighbors scores source v =
      scores v + if source ≠ v ∧ G.Reachable source v then dependency G source v else 0 := by
  have hs := (bfsFrom_explored hneighbors source).2
  have hstart : Settled G source scores [] { scores } := ⟨by simp, by simp⟩
  have hend := hstart.foldl hs (bfsFrom neighbors source).stack (by simp)
  refine (hend.scores v).trans ?_
  simp only [hs.mem, and_comm, ne_comm]

end Back

/-! ## The scores -/

section Scores

variable {host : Host} {value : Json} {source : String} {graph : GraphData} {count : ℕ} {adj : Adj}

/-- The graph of adjacency lists; loops are left out. -/
def undirectedGraph (adj : Adj) : SimpleGraph (Fin adj.length) :=
  SimpleGraph.fromRel fun u v => v ∈ neighbors adj u

instance (adj : Adj) : DecidableRel (undirectedGraph adj).Adj := fun u v =>
  inferInstanceAs (Decidable (u ≠ v ∧ (v ∈ neighbors adj u ∨ u ∈ neighbors adj v)))

theorem mem_neighbors {u v : Fin adj.length} :
    v ∈ neighbors adj u ↔ ∃ w, (v.val, w) ∈ Adj.row adj u := by
  rw [neighbors, List.mem_filterMap]
  constructor
  · rintro ⟨⟨i, w⟩, hentry, hi⟩
    split at hi
    · obtain rfl := Option.some.inj hi
      exact ⟨w, hentry⟩
    · cases hi
  · rintro ⟨w, hentry⟩
    exact ⟨(v.val, w), hentry, dif_pos v.isLt⟩

theorem neighbors_undirectedGraph (hadj : Regular count adj) (hsymmetric : Symmetric adj) :
    Neighbors (neighbors adj) (undirectedGraph adj) where
  nodup u := by
    have hindexes : neighbors adj u = ((Adj.row adj u).map Prod.fst).filterMap fun i =>
        if h : i < adj.length then some ⟨i, h⟩ else none := by
      rw [List.filterMap_map]
      rfl
    rw [hindexes]
    refine List.Nodup.filterMap (fun i j v hi hj => ?_) (hadj.nodup u)
    rw [Option.mem_def, Option.dite_none_right_eq_some] at hi hj
    obtain ⟨_, hi⟩ := hi
    obtain ⟨_, hj⟩ := hj
    rw [← Option.some.inj hi] at hj
    exact (Fin.mk.inj (Option.some.inj hj)).symm
  mem u v hne := by
    rw [undirectedGraph, SimpleGraph.fromRel_adj]
    have hback : u ∈ neighbors adj v ↔ v ∈ neighbors adj u := by
      rw [mem_neighbors, mem_neighbors]
      exact exists_congr fun w => hsymmetric v u w
    rw [hback, or_self]
    exact ⟨fun hv => ⟨hne, hv⟩, fun hv => hv.2⟩

theorem foldl_addSource {n : ℕ} {neighbors : Fin n → List (Fin n)} {G : SimpleGraph (Fin n)}
    [DecidableRel G.Adj] (hneighbors : Neighbors neighbors G) (v : Fin n) (sources : List (Fin n)) :
    ∀ scores : Fin n → ℚ, sources.foldl (addSource neighbors) scores v = scores v +
      (sources.map fun s => if s ≠ v ∧ G.Reachable s v then dependency G s v else 0).sum := by
  induction sources with
  | nil => simp
  | cons source sources ih =>
    intro scores
    rw [List.foldl_cons, ih, addSource_eq hneighbors, List.map_cons, List.sum_cons, add_assoc]

/-- **The scores are betweenness.**  For every parsed graph the searches end, and without the
normalisation the score of a node is its betweenness by shortest paths. -/
theorem betweenness_correct (h : parseGraphJsonValue host value source = .ok graph) :
    (∀ start, (bfsFrom (neighbors graph.undirectedAdj) start).queue = []) ∧
      betweennessCentrality graph.undirectedAdj false =
        (List.finRange graph.undirectedAdj.length).map (betweenness (undirectedGraph graph.undirectedAdj)) := by
  obtain ⟨hadj, hsymmetric⟩ := regular_undirectedAdj h
  have hneighbors := neighbors_undirectedGraph hadj hsymmetric
  refine ⟨fun start => (bfsFrom_explored hneighbors start).1, ?_⟩
  rw [betweennessCentrality]
  rw [if_neg fun hnormalize => Bool.false_ne_true hnormalize.1]
  refine List.map_congr_left fun v _ => ?_
  have hsum := sum_dependency (G := undirectedGraph graph.undirectedAdj) v
  rw [Finset.sum_filter, Fin.sum_univ_def] at hsum
  rw [foldl_addSource hneighbors v, zero_add, hsum]
  ring

/-- A path of three nodes, the middle one with a loop. -/
def pathOfThree : Json :=
  Json.ofFields [("edges", .arr [
    Json.ofFields [("from", .str "a"), ("to", .str "b")],
    Json.ofFields [("from", .str "b"), ("to", .str "b")],
    Json.ofFields [("from", .str "b"), ("to", .str "c")]])]

theorem pathOfThree_correct : ∃ graph, parseGraphJsonValue plainHost pathOfThree "" = .ok graph ∧
    betweennessCentrality graph.undirectedAdj false = [0, 1, 0] ∧
    betweennessCentrality graph.undirectedAdj false =
      (List.finRange graph.undirectedAdj.length).map (betweenness (undirectedGraph graph.undirectedAdj)) := by
  have hparse : parseGraphJsonValue plainHost pathOfThree "" =
      .ok (graphOf plainHost (payloadFields pathOfThree) "") :=
    parse_eq_ok.mpr ⟨by decide, rfl⟩
  have hadj : (graphOf plainHost (payloadFields pathOfThree) "").undirectedAdj =
      [[(1, 1)], [(0, 1), (1, 1), (2, 1)], [(1, 1)]] := by
    have htable : (Tally.tally ((edgeEntries (payloadFields pathOfThree)).map undEntry)).toList =
        [((0, 1), 1), ((1, 1), 1), ((1, 2), 1)] := by
      decide +kernel
    have hlength : (nodeList (payloadFields pathOfThree)).length = 3 := by decide
    rw [graphOf_eq]
    dsimp only
    rw [undirectedAdjacency, htable, hlength]
    simp [pushRow, sortRows, List.replicate, List.modify, List.mergeSort, List.MergeSort.Internal.splitInTwo]
  refine ⟨_, hparse, ?_, (betweenness_correct hparse).2⟩
  rw [hadj]
  decide +kernel

end Scores

end Protheus.GraphToolkit
