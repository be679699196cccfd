import Mathlib.Data.List.Nodup
import Mathlib.Data.List.Pairwise
import Mathlib.Algebra.Order.Group.Nat
import Mathlib.Tactic.Common

/-!
Distances in a graph and a breadth-first search that marks a node when it is taken out.

`Reaches` says that a walk of so many edges leads to a node, `IsDistance` that no shorter
one does.  The search keeps a queue of nodes with depths, in which a node may stand many
times; it visits a node the first time it takes it out and then puts in the nodes its
edges lead to.  The depths in the queue never fall and differ by one at most, and this is
why the first copy of a node to be taken out carries its distance (`search_start`).  A
turn takes out one copy, and no edge puts one in twice, so the search is over after one
turn more than there are edges (`queue_search`).
-/

namespace Protheus.Distance

variable {ν : Type*}

/-- A walk of so many edges leads from the start to a node. -/
def Reaches (succ : ν → List ν) (start : ν) : ℕ → ν → Prop
  | 0, v => v = start
  | n + 1, v => ∃ u, Reaches succ start n u ∧ v ∈ succ u

/-- So many edges, and no fewer, lead from the start to a node. -/
structure IsDistance (succ : ν → List ν) (start : ν) (n : ℕ) (v : ν) : Prop where
  reaches : Reaches succ start n v
  least : ∀ m, Reaches succ start m v → n ≤ m

section Reaches

variable {succ : ν → List ν} {start v : ν} {m n : ℕ}

/-- Depths that hold the start at nothing, and the successors of a node at one more than
the node or less, are no greater than the lengths of the walks. -/
theorem exists_le_of_closed (Marked : ν → ℕ → Prop) {bound : ℕ} (hstart : Marked start 0)
    (hclosed : ∀ u d, Marked u d → d < bound → ∀ w ∈ succ u, ∃ e ≤ d + 1, Marked w e) :
    ∀ {n v}, n ≤ bound → Reaches succ start n v → ∃ e ≤ n, Marked v e := by
  intro n
  induction n with
  | zero =>
    rintro v - rfl
    exact ⟨0, le_rfl, hstart⟩
  | succ n ih =>
    rintro v hbound ⟨u, hu, hv⟩
    obtain ⟨d, hd, hmarked⟩ := ih (by omega) hu
    obtain ⟨e, he, hv⟩ := hclosed u d hmarked (by omega) v hv
    exact ⟨e, by omega, hv⟩

end Reaches

/-! ## The search -/

variable [DecidableEq ν]

/-- Where the edges out of a node lead. -/
def targets (edges : List (ν × ν)) (v : ν) : List ν := (edges.filter (·.1 = v)).map Prod.snd

/-- The nodes visited with their depths, in order, and what is still to be looked at. -/
structure Search (ν : Type*) where
  visits : List (ν × ℕ) := []
  queue : List (ν × ℕ)

def Search.visited (s : Search ν) : List ν := s.visits.map Prod.fst

/-- One turn of the search, to nodes at most `bound` deep. -/
def turn (edges : List (ν × ν)) (bound : ℕ) (s : Search ν) : Search ν :=
  match s.queue with
  | [] => s
  | (cur, d) :: rest =>
    if cur ∈ s.visited then { s with queue := rest }
    else
      { visits := s.visits ++ [(cur, d)]
        queue := if bound ≤ d then rest else rest ++ (targets edges cur).map (·, d + 1) }

/-- So many turns. -/
def search (edges : List (ν × ν)) (bound : ℕ) : ℕ → Search ν → Search ν
  | 0, s => s
  | turns + 1, s => search edges bound turns (turn edges bound s)

section Search

variable {edges : List (ν × ν)} {bound : ℕ} {start : ν} {s : Search ν}

theorem turn_cases (edges : List (ν × ν)) (bound : ℕ) (s : Search ν) :
    (s.queue = [] ∧ turn edges bound s = s) ∨
    (∃ cur d rest, s.queue = (cur, d) :: rest ∧ cur ∈ s.visited ∧
      turn edges bound s = { s with queue := rest }) ∨
    ∃ cur d rest, s.queue = (cur, d) :: rest ∧ cur ∉ s.visited ∧
      turn edges bound s =
        { visits := s.visits ++ [(cur, d)]
          queue := rest ++ if bound ≤ d then [] else (targets edges cur).map (·, d + 1) } := by
  unfold turn
  cases hqueue : s.queue with
  | nil => exact .inl ⟨rfl, rfl⟩
  | cons first rest =>
    obtain ⟨cur, d⟩ := first
    by_cases hcur : cur ∈ s.visited
    · exact .inr (.inl ⟨cur, d, rest, rfl, hcur, if_pos hcur⟩)
    · refine .inr (.inr ⟨cur, d, rest, rfl, hcur, ?_⟩)
      dsimp only
      rw [if_neg hcur]
      split
      · rw [List.append_nil]
      · rfl

/-! ### When it is over -/

/-- What is in the queue, and the edges that may still put something in. -/
def pending (edges : List (ν × ν)) (s : Search ν) : ℕ :=
  s.queue.length + (edges.filter (·.1 ∉ s.visited)).length

/-- A node that is visited accounts for the edges out of it. -/
theorem length_filter_visited (edges : List (ν × ν)) {visited : List ν} {cur : ν} (h : cur ∉ visited) :
    (edges.filter (·.1 ∉ visited)).length =
      (edges.filter (·.1 ∉ visited ++ [cur])).length + (targets edges cur).length := by
  rw [targets, List.length_map]
  induction edges with
  | nil => rfl
  | cons e edges ih =>
    by_cases hcur : e.1 = cur
    · rw [List.filter_cons_of_pos (by simpa [hcur] using h), List.filter_cons_of_neg (by simp [hcur]),
        List.filter_cons_of_pos (by simpa using hcur), List.length_cons, List.length_cons, ih]
      rfl
    · by_cases hseen : e.1 ∈ visited
      · rw [List.filter_cons_of_neg (by simpa using hseen), List.filter_cons_of_neg (by simp [hseen]),
          List.filter_cons_of_neg (by simpa using hcur), ih]
      · rw [List.filter_cons_of_pos (by simpa using hseen),
          List.filter_cons_of_pos (by simp [hseen, hcur]),
          List.filter_cons_of_neg (by simpa using hcur), List.length_cons, List.length_cons, ih]
        omega

theorem pending_turn (h : s.queue ≠ []) : pending edges (turn edges bound s) < pending edges s := by
  obtain ⟨hnil, -⟩ | ⟨cur, d, rest, hqueue, -, hturn⟩ | ⟨cur, d, rest, hqueue, hcur, hturn⟩ :=
    turn_cases edges bound s
  · exact absurd hnil h
  · rw [hturn, pending, pending, hqueue, List.length_cons]
    exact Nat.add_lt_add_right (Nat.lt_succ_self _) _
  · have hedges := length_filter_visited edges hcur
    have hpushed : (if bound ≤ d then [] else (targets edges cur).map (·, d + 1)).length ≤
        (targets edges cur).length := by
      split
      · exact Nat.zero_le _
      · exact (List.length_map _).le
    have hvisited : (turn edges bound s).visited = s.visited ++ [cur] := by
      rw [hturn]
      exact List.map_append
    rw [pending, pending, hvisited, hedges, hturn, hqueue, List.length_append, List.length_cons]
    omega

theorem search_of_queue_eq_nil (h : s.queue = []) (turns : ℕ) : search edges bound turns s = s := by
  induction turns with
  | zero => rfl
  | succ turns ih =>
    have hturn : turn edges bound s = s := by rw [turn, h]
    rw [search, hturn, ih]

theorem queue_search : ∀ {turns : ℕ} {s : Search ν}, pending edges s ≤ turns →
    (search edges bound turns s).queue = [] := by
  intro turns
  induction turns with
  | zero =>
    intro s h
    have hnone : s.queue.length = 0 := by
      rw [pending] at h
      omega
    exact List.length_eq_zero_iff.mp hnone
  | succ turns ih =>
    intro s h
    by_cases hqueue : s.queue = []
    · rw [search_of_queue_eq_nil hqueue, hqueue]
    · have hless := @pending_turn _ _ edges bound s hqueue
      rw [search]
      exact ih (by omega)

/-! ### What it finds -/

/-- The invariant of the search. -/
structure Sound (edges : List (ν × ν)) (bound : ℕ) (start : ν) (s : Search ν) : Prop where
  /-- A depth is the length of a walk. -/
  reached : ∀ row ∈ s.visits ++ s.queue,
    Reaches (targets edges) start row.2 row.1 ∧ row.2 ≤ bound
  /-- Depths never fall. -/
  sorted : (s.visits ++ s.queue).Pairwise fun a b => a.2 ≤ b.2
  /-- The depths in the queue differ by one at most. -/
  near : ∀ a ∈ s.queue, ∀ b ∈ s.queue, b.2 ≤ a.2 + 1
  nodup : s.visited.Nodup
  /-- The successors of a visited node are as deep as an edge makes them, or less. -/
  closed : ∀ row ∈ s.visits, row.2 < bound → ∀ w ∈ targets edges row.1,
    ∃ e ≤ row.2 + 1, (w, e) ∈ s.visits ++ s.queue
  begun : (start, 0) ∈ s.visits ++ s.queue

theorem sound_start (edges : List (ν × ν)) (bound : ℕ) (start : ν) :
    Sound edges bound start { queue := [(start, 0)] } where
  reached row hrow := by
    obtain rfl : row = (start, 0) := by simpa using hrow
    exact ⟨rfl, Nat.zero_le _⟩
  sorted := List.pairwise_singleton _ _
  near a ha b hb := by
    obtain rfl : a = (start, 0) := by simpa using ha
    obtain rfl : b = (start, 0) := by simpa using hb
    exact Nat.le_succ _
  nodup := List.nodup_nil
  closed row hrow := by cases hrow
  begun := by simp

/-- A further copy of a visited node is no less deep than the one visited. -/
theorem Sound.skip (h : Sound edges bound start s) {cur : ν} {d : ℕ} {rest : List (ν × ℕ)}
    (hqueue : s.queue = (cur, d) :: rest) (hcur : cur ∈ s.visited) :
    Sound edges bound start { s with queue := rest } := by
  obtain ⟨row, hrow, rfl⟩ := List.mem_map.mp hcur
  have hsub : ∀ a ∈ s.visits ++ rest, a ∈ s.visits ++ s.queue := by
    intro a ha
    rw [hqueue, List.mem_append, List.mem_cons]
    exact (List.mem_append.mp ha).imp_right .inr
  have hdepth : row.2 ≤ d := by
    have hsorted := h.sorted
    rw [hqueue] at hsorted
    exact (List.pairwise_append.mp hsorted).2.2 row hrow _ List.mem_cons_self
  -- what was said of the copy that goes is true of the visited one
  have hkeep : ∀ w e, (w, e) ∈ s.visits ++ s.queue → ∃ e' ≤ e, (w, e') ∈ s.visits ++ rest := by
    intro w e hmem
    rw [hqueue, List.mem_append, List.mem_cons] at hmem
    obtain hvisit | hsame | hrest := hmem
    · exact ⟨e, le_rfl, List.mem_append_left _ hvisit⟩
    · obtain ⟨rfl, rfl⟩ := Prod.mk.inj hsame
      exact ⟨row.2, hdepth, List.mem_append_left _ hrow⟩
    · exact ⟨e, le_rfl, List.mem_append_right _ hrest⟩
  refine ⟨fun a ha => h.reached a (hsub a ha), ?_, ?_, h.nodup, ?_, ?_⟩
  · have hsorted := h.sorted
    rw [hqueue] at hsorted
    exact hsorted.sublist ((List.sublist_cons_self _ _).append_left _)
  · intro a ha b hb
    exact h.near a (hqueue ▸ List.mem_cons_of_mem _ ha) b (hqueue ▸ List.mem_cons_of_mem _ hb)
  · intro a ha hbound w hw
    obtain ⟨e, he, hmem⟩ := h.closed a ha hbound w hw
    obtain ⟨e', he', hmem⟩ := hkeep w e hmem
    exact ⟨e', he'.trans he, hmem⟩
  · obtain ⟨e, he, hmem⟩ := hkeep start 0 h.begun
    obtain rfl : e = 0 := by omega
    exact hmem

/-- A node that is visited puts its successors at the end of the queue, one deeper. -/
theorem Sound.visit (h : Sound edges bound start s) {cur : ν} {d : ℕ} {rest : List (ν × ℕ)}
    (hqueue : s.queue = (cur, d) :: rest) (hcur : cur ∉ s.visited) :
    Sound edges bound start
      { visits := s.visits ++ [(cur, d)]
        queue := rest ++ if bound ≤ d then [] else (targets edges cur).map (·, d + 1) } := by
  generalize hpushed : (if bound ≤ d then [] else (targets edges cur).map (·, d + 1)) = pushed
  have hnew : ∀ row ∈ pushed, row.2 = d + 1 ∧ d < bound ∧ row.1 ∈ targets edges cur := by
    intro row hrow
    subst hpushed
    split at hrow
    · cases hrow
    · obtain ⟨w, hw, rfl⟩ := List.mem_map.mp hrow
      exact ⟨rfl, by omega, hw⟩
  have hsame : s.visits ++ s.queue = (s.visits ++ [(cur, d)]) ++ rest := by rw [hqueue]; simp
  have hall : ∀ row, row ∈ (s.visits ++ [(cur, d)]) ++ (rest ++ pushed) ↔
      row ∈ s.visits ++ s.queue ∨ row ∈ pushed := by
    intro row
    rw [hsame, ← List.append_assoc, List.mem_append]
  have hreached := h.reached (cur, d) (by rw [hqueue]; simp)
  have hsorted := h.sorted
  rw [hsame] at hsorted
  -- nothing that stays is more than one deeper than the node taken out
  have hdeep : ∀ row ∈ s.visits ++ s.queue, row.2 ≤ d + 1 := by
    intro row hrow
    obtain hvisit | hin := List.mem_append.mp hrow
    · have hle : row.2 ≤ d := (List.pairwise_append.mp (List.pairwise_append.mp hsorted).1).2.2
        row hvisit _ List.mem_cons_self
      omega
    · exact h.near (cur, d) (by rw [hqueue]; exact List.mem_cons_self) row hin
  refine ⟨?_, ?_, ?_, ?_, ?_, (hall _).mpr (.inl h.begun)⟩
  · intro row hrow
    obtain hold | hpush := (hall row).mp hrow
    · exact h.reached row hold
    · obtain ⟨hdepth, hbound, htarget⟩ := hnew row hpush
      rw [hdepth]
      exact ⟨⟨cur, hreached.1, htarget⟩, hbound⟩
  · rw [← List.append_assoc]
    refine List.pairwise_append.mpr ⟨hsorted, ?_, ?_⟩
    · exact List.pairwise_of_forall_mem_list fun a ha b hb =>
        ((hnew a ha).1.trans (hnew b hb).1.symm).le
    · intro a ha b hb
      rw [(hnew b hb).1]
      exact hdeep a (hsame ▸ ha)
  · have hlow : ∀ row ∈ rest ++ pushed, d ≤ row.2 := by
      intro row hrow
      obtain hrest | hpush := List.mem_append.mp hrow
      · exact (List.pairwise_append.mp hsorted).2.2 (cur, d) (by simp) row hrest
      · have := (hnew row hpush).1
        omega
    have hhigh : ∀ row ∈ rest ++ pushed, row.2 ≤ d + 1 := by
      intro row hrow
      obtain hrest | hpush := List.mem_append.mp hrow
      · exact hdeep row (by rw [hsame]; exact List.mem_append_right _ hrest)
      · exact (hnew row hpush).1.le
    intro a ha b hb
    exact (hhigh b hb).trans (Nat.add_le_add_right (hlow a ha) 1)
  · have hvisited : Search.visited { s with visits := s.visits ++ [(cur, d)] } = s.visited ++ [cur] :=
      List.map_append
    change (Search.visited { s with visits := s.visits ++ [(cur, d)] }).Nodup
    rw [hvisited]
    exact List.nodup_append.mpr ⟨h.nodup, by simp, by rintro a ha b hb rfl; simp_all⟩
  · intro row hrow hbound w hw
    obtain hvisit | hnow := List.mem_append.mp hrow
    · obtain ⟨e, he, hmem⟩ := h.closed row hvisit hbound w hw
      exact ⟨e, he, (hall _).mpr (.inl hmem)⟩
    · obtain rfl : row = (cur, d) := by simpa using hnow
      refine ⟨d + 1, le_rfl, (hall _).mpr (.inr ?_)⟩
      rw [← hpushed, if_neg (by simpa using hbound)]
      exact List.mem_map_of_mem hw

theorem Sound.turn (h : Sound edges bound start s) : Sound edges bound start (turn edges bound s) := by
  obtain ⟨-, hturn⟩ | ⟨cur, d, rest, hqueue, hcur, hturn⟩ | ⟨cur, d, rest, hqueue, hcur, hturn⟩ :=
    turn_cases edges bound s
  · rwa [hturn]
  · rw [hturn]
    exact h.skip hqueue hcur
  · rw [hturn]
    exact h.visit hqueue hcur

theorem Sound.search : ∀ {turns : ℕ} {s : Search ν}, Sound edges bound start s →
    Sound edges bound start (search edges bound turns s)
  | 0, _, h => h
  | turns + 1, _, h => @Sound.search turns _ h.turn

/-- A search that is over has visited the nodes within the bound, each at its distance. -/
theorem Sound.mem_visits_iff (h : Sound edges bound start s) (hover : s.queue = []) (v : ν) (d : ℕ) :
    (v, d) ∈ s.visits ↔ d ≤ bound ∧ IsDistance (targets edges) start d v := by
  have hvisits : s.visits ++ s.queue = s.visits := by rw [hover, List.append_nil]
  have hfound {n : ℕ} {v : ν} (hn : n ≤ bound) (hreach : Reaches (targets edges) start n v) :
      ∃ e ≤ n, (v, e) ∈ s.visits :=
    exists_le_of_closed (fun v e => (v, e) ∈ s.visits) (hvisits ▸ h.begun)
      (fun u d hu hd w hw => hvisits ▸ h.closed (u, d) hu hd w hw) hn hreach
  have hsame {d e : ℕ} (hd : (v, d) ∈ s.visits) (he : (v, e) ∈ s.visits) : d = e := by
    have := List.inj_on_of_nodup_map h.nodup hd he rfl
    exact (Prod.mk.inj this).2
  constructor
  · intro hmem
    obtain ⟨hreach, hd⟩ := h.reached (v, d) (hvisits.symm ▸ hmem)
    refine ⟨hd, hreach, fun m hm => ?_⟩
    by_contra hless
    obtain ⟨e, he, hmem'⟩ := hfound (by dsimp only at hd; omega) hm
    have := hsame hmem hmem'
    omega
  · rintro ⟨hd, hdistance⟩
    obtain ⟨e, he, hmem⟩ := hfound hd hdistance.reaches
    have hle := hdistance.least e (h.reached (v, e) (hvisits.symm ▸ hmem)).1
    obtain rfl : e = d := by omega
    exact hmem

/-- **A search from a node is over after a turn for every edge and one more, and has then
visited the nodes within the bound, each at its distance.** -/
theorem search_start (edges : List (ν × ν)) (bound : ℕ) (start : ν) :
    let s := search edges bound (edges.length + 1) { queue := [(start, 0)] }
    s.queue = [] ∧ Sound edges bound start s ∧
      ∀ v d, (v, d) ∈ s.visits ↔ d ≤ bound ∧ IsDistance (targets edges) start d v := by
  intro s
  have hpending : pending edges ({ queue := [(start, 0)] } : Search ν) ≤ edges.length + 1 := by
    simp [pending, Search.visited, Nat.add_comm]
  have hover : s.queue = [] := queue_search hpending
  have hsound : Sound edges bound start s := (sound_start edges bound start).search
  exact ⟨hover, hsound, hsound.mem_visits_iff hover⟩

end Search

end Protheus.Distance
