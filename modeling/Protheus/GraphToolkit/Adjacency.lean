import Protheus.GraphToolkit

/-!
What `parse_graph_json_value` promises of the adjacency lists it returns.

There is a row for every node; a row names nodes, each once, with weights of at least one
billionth; and in the undirected lists two nodes name each other with one weight.  The
algorithms of `algorithms.rs` are about such lists.
-/

namespace Protheus.GraphToolkit

open Std (ExtTreeMap)
open Tally V8Kernel

/-- Adjacency lists: for every node its neighbours and their weights. -/
abbrev Adj := List (List (ℕ × ℚ))

/-- `adj[i]`. -/
def Adj.row (adj : Adj) (i : ℕ) : List (ℕ × ℚ) := adj.getD i []

/-- Rows of nodes that are named once, with weights of at least one billionth. -/
structure Regular (count : ℕ) (adj : Adj) : Prop where
  length : adj.length = count
  bounded : ∀ i, ∀ entry ∈ Adj.row adj i, entry.1 < count
  nodup : ∀ i, ((Adj.row adj i).map Prod.fst).Nodup
  weight : ∀ i, ∀ entry ∈ Adj.row adj i, 1 / 10 ^ 9 ≤ entry.2

/-- Two nodes name each other with one weight. -/
def Symmetric (adj : Adj) : Prop :=
  ∀ i j w, (j, w) ∈ Adj.row adj i ↔ (i, w) ∈ Adj.row adj j

section Rows

variable {count : ℕ} {entries : List ((ℕ × ℕ) × ℚ)} {adj : Adj}

theorem row_of_le {i : ℕ} (h : adj.length ≤ i) : Adj.row adj i = [] := by
  rw [Adj.row, List.getD_eq_getElem?_getD, List.getElem?_eq_none h, Option.getD_none]

/-- Only nodes have neighbours. -/
theorem Regular.lt_of_mem (h : Regular count adj) {i : ℕ} {entry : ℕ × ℚ}
    (hentry : entry ∈ Adj.row adj i) : i < count := by
  by_contra hi
  rw [row_of_le (h.length ▸ Nat.le_of_not_lt hi)] at hentry
  cases hentry

theorem Regular.lt_of_ne_nil (h : Regular count adj) {i : ℕ} (hi : Adj.row adj i ≠ []) : i < count := by
  obtain ⟨entry, entries, hrow⟩ := List.exists_cons_of_ne_nil hi
  exact h.lt_of_mem (hrow ▸ List.mem_cons_self)

/-- The rows that entries are pushed into. -/
def pushed (count : ℕ) (entries : List ((ℕ × ℕ) × ℚ)) : Adj :=
  sortRows (entries.foldl (fun adj entry => pushRow adj entry.1.1 (entry.1.2, entry.2))
    (List.replicate count []))

theorem row_pushed {i : ℕ} (hi : i < count) :
    Adj.row (pushed count entries) i = ((entries.filter fun entry => entry.1.1 = i).map
      fun entry => (entry.1.2, entry.2)).mergeSort fun a b => a.1 ≤ b.1 := by
  rw [Adj.row, pushed, sortRows, List.getD_eq_getElem?_getD, List.getElem?_map, getElem?_pushRows,
    List.getElem?_replicate, if_pos hi]
  rfl

theorem length_pushed : (pushed count entries).length = count := by
  have hpush (entries : List ((ℕ × ℕ) × ℚ)) : ∀ adj : Adj,
      (entries.foldl (fun adj entry => pushRow adj entry.1.1 (entry.1.2, entry.2)) adj).length =
        adj.length := by
    induction entries with
    | nil => exact fun _ => rfl
    | cons entry entries ih =>
      intro adj
      rw [List.foldl_cons, ih, pushRow, List.length_modify]
  rw [pushed, sortRows, List.length_map, hpush, List.length_replicate]

theorem mem_row_pushed {i : ℕ} (hi : i < count) {entry : ℕ × ℚ} :
    entry ∈ Adj.row (pushed count entries) i ↔ ((i, entry.1), entry.2) ∈ entries := by
  rw [row_pushed hi, List.mem_mergeSort, List.mem_map]
  constructor
  · rintro ⟨⟨⟨a, b⟩, w⟩, hmem, rfl⟩
    obtain ⟨hthere, ha⟩ := List.mem_filter.mp hmem
    obtain rfl : a = i := by simpa using ha
    exact hthere
  · intro hmem
    exact ⟨_, List.mem_filter.mpr ⟨hmem, by simp⟩, rfl⟩

/-- Entries under different pairs of nodes make regular rows. -/
theorem regular_pushed (hkeys : (entries.map Prod.fst).Nodup)
    (hbound : ∀ entry ∈ entries, entry.1.2 < count)
    (hweight : ∀ entry ∈ entries, 1 / 10 ^ 9 ≤ entry.2) : Regular count (pushed count entries) where
  length := length_pushed
  bounded i entry hentry := by
    by_cases hi : i < count
    · exact hbound _ ((mem_row_pushed hi).mp hentry)
    · rw [row_of_le (length_pushed.trans_le (Nat.le_of_not_lt hi))] at hentry
      cases hentry
  nodup i := by
    by_cases hi : i < count
    · have hsorted := (List.mergeSort_perm ((entries.filter fun entry => entry.1.1 = i).map
        fun entry => (entry.1.2, entry.2)) fun a b => a.1 ≤ b.1).map Prod.fst
      rw [row_pushed hi, hsorted.nodup_iff, List.map_map]
      have hfiltered := hkeys.sublist ((List.filter_sublist (p := fun entry => entry.1.1 = i)
        (l := entries)).map Prod.fst)
      have hinj : ∀ a ∈ entries.filter fun entry => entry.1.1 = i,
          ∀ b ∈ entries.filter fun entry => entry.1.1 = i,
            (Prod.fst ∘ fun entry : (ℕ × ℕ) × ℚ => (entry.1.2, entry.2)) a =
              (Prod.fst ∘ fun entry : (ℕ × ℕ) × ℚ => (entry.1.2, entry.2)) b → a = b := by
        intro a ha b hb hab
        have hrow : a.1.1 = b.1.1 := by
          have ha' := (List.mem_filter.mp ha).2
          have hb' := (List.mem_filter.mp hb).2
          simp only [decide_eq_true_eq] at ha' hb'
          rw [ha', hb']
        exact List.inj_on_of_nodup_map hfiltered ha hb (Prod.ext hrow hab)
      exact List.Nodup.map_on hinj hfiltered.of_map
    · rw [row_of_le (length_pushed.trans_le (Nat.le_of_not_lt hi))]
      exact List.nodup_nil
  weight i entry hentry := by
    by_cases hi : i < count
    · exact hweight _ ((mem_row_pushed hi).mp hentry)
    · rw [row_of_le (length_pushed.trans_le (Nat.le_of_not_lt hi))] at hentry
      cases hentry

end Rows

/-! ## The weight to a node -/

section Weights

variable {count : ℕ} {adj : Adj}

/-- The weight of the edges to a node. -/
def weightTo (entries : List (ℕ × ℚ)) (j : ℕ) : ℚ :=
  (entries.map fun entry => if entry.1 = j then entry.2 else 0).sum

theorem weightTo_nonneg {entries : List (ℕ × ℚ)} (h : ∀ entry ∈ entries, 0 ≤ entry.2) (j : ℕ) :
    0 ≤ weightTo entries j := by
  refine List.sum_nonneg fun w hw => ?_
  obtain ⟨entry, hentry, rfl⟩ := List.mem_map.mp hw
  split
  · exact h entry hentry
  · exact le_rfl

theorem weightTo_of_mem {entries : List (ℕ × ℚ)} (hnodup : (entries.map Prod.fst).Nodup) {j : ℕ} {w : ℚ}
    (h : (j, w) ∈ entries) : weightTo entries j = w := by
  induction entries with
  | nil => cases h
  | cons entry entries ih =>
    rw [List.map_cons, List.nodup_cons] at hnodup
    rw [weightTo, List.map_cons, List.sum_cons]
    obtain rfl | h := List.mem_cons.mp h
    · have hrest : weightTo entries j = 0 := by
        refine List.sum_eq_zero fun x hx => ?_
        obtain ⟨other, hother, rfl⟩ := List.mem_map.mp hx
        refine if_neg ?_
        rintro rfl
        exact hnodup.1 (List.mem_map.mpr ⟨other, hother, rfl⟩)
      rw [if_pos rfl]
      exact (congrArg (w + ·) hrest).trans (add_zero w)
    · have hne : entry.1 ≠ j := by
        rintro rfl
        exact hnodup.1 (List.mem_map.mpr ⟨_, h, rfl⟩)
      rw [if_neg hne, zero_add]
      exact ih hnodup.2 h

theorem weightTo_of_notMem {entries : List (ℕ × ℚ)} {j : ℕ} (h : ∀ w, (j, w) ∉ entries) :
    weightTo entries j = 0 := by
  refine List.sum_eq_zero fun x hx => ?_
  obtain ⟨entry, hentry, rfl⟩ := List.mem_map.mp hx
  refine if_neg ?_
  rintro rfl
  exact h entry.2 hentry

/-- The weights to the single nodes add up to those of the row. -/
theorem sum_weightTo {entries : List (ℕ × ℚ)} (hbound : ∀ entry ∈ entries, entry.1 < count) :
    ((List.range count).map (weightTo entries)).sum = (entries.map Prod.snd).sum := by
  induction entries with
  | nil =>
    have hnone : weightTo [] = fun _ => 0 := rfl
    rw [hnone]
    simp
  | cons entry entries ih =>
    have heach : weightTo (entry :: entries) =
        fun j => (if entry.1 = j then entry.2 else 0) + weightTo entries j := by
      funext j
      rw [weightTo, List.map_cons, List.sum_cons]
      rfl
    have hone : ((List.range count).map fun j => if entry.1 = j then entry.2 else 0).sum = entry.2 := by
      have hmem := List.mem_range.mpr (hbound entry List.mem_cons_self)
      simp only [eq_comm (a := entry.1)]
      rw [List.sum_map_ite_eq, List.count_eq_one_of_mem List.nodup_range hmem]
      simp
    rw [heach, List.sum_map_add, hone, ih fun other hother => hbound other (List.mem_cons_of_mem _ hother),
      List.map_cons, List.sum_cons]

theorem Regular.le_sum (h : Regular count adj) {i : ℕ} (hi : Adj.row adj i ≠ []) :
    1 / 10 ^ 9 ≤ ((Adj.row adj i).map Prod.snd).sum := by
  obtain ⟨entry, entries, hrow⟩ := List.exists_cons_of_ne_nil hi
  have hfirst := h.weight i entry (hrow ▸ List.mem_cons_self)
  refine hfirst.trans (List.single_le_sum ?_ _ ?_)
  · intro w hw
    obtain ⟨other, hother, rfl⟩ := List.mem_map.mp hw
    exact le_trans (by norm_num) (h.weight i other hother)
  · rw [hrow]
    exact List.mem_cons_self

end Weights

/-! ## The rows of a table -/

section Tables

variable {count : ℕ} {table : ExtTreeMap (ℕ × ℕ) ℚ} {entries : List ((ℕ × ℕ) × ℚ)}

theorem undirectedAdjacency_eq (count : ℕ) (table : ExtTreeMap (ℕ × ℕ) ℚ) :
    undirectedAdjacency count table = pushed count (table.toList.flatMap (outEntry false)) := by
  rw [undirectedAdjacency, pushed, List.foldl_flatMap]
  congr 2
  funext adj entry
  unfold outEntry
  by_cases hdiag : entry.1.1 = entry.1.2
  · simp [hdiag]
  · simp [hdiag]

theorem nodup_keys (table : ExtTreeMap (ℕ × ℕ) ℚ) : (table.toList.map Prod.fst).Nodup := by
  refine List.pairwise_map.mpr (ExtTreeMap.distinct_keys_toList.imp ?_)
  intro a b hne heq
  exact hne (by rw [heq]; exact Std.ReflCmp.compare_self)

/-- Pairs with the smaller index first and their swaps are all different. -/
theorem nodup_bothWays (hkeys : (entries.map Prod.fst).Nodup)
    (hordered : ∀ entry ∈ entries, entry.1 = ordered entry.1) :
    ((entries.flatMap (outEntry false)).map Prod.fst).Nodup := by
  have hkey : ∀ entry ∈ entries, ∀ out ∈ outEntry false entry, ordered out.1 = entry.1 := by
    intro entry hentry out hout
    have hself := (hordered entry hentry).symm
    unfold outEntry at hout
    split at hout
    · obtain rfl | hout := List.mem_cons.mp hout
      · exact hself
      · obtain rfl := List.mem_singleton.mp hout
        exact (ordered_swap entry.1).trans hself
    · obtain rfl := List.mem_singleton.mp hout
      exact hself
  rw [List.map_flatMap, List.nodup_flatMap]
  constructor
  · intro entry _
    unfold outEntry
    split
    · rename_i hdiff
      have hne : entry.1 ≠ entry.1.swap := by
        intro h
        have hsame : entry.1.1 = entry.1.2 := congrArg Prod.fst h
        rw [hsame] at hdiff
        simp at hdiff
      simp [hne]
    · simp
  · refine (List.pairwise_map.mp hkeys).imp_of_mem ?_
    intro a b ha hb hne
    simp only [Function.onFun, List.disjoint_left, List.mem_map]
    rintro _ ⟨out, hout, rfl⟩ ⟨out', hout', heq⟩
    exact hne (by rw [← hkey a ha out hout, ← hkey b hb out' hout', heq])

theorem le_total {entries : List ((ℕ × ℕ) × ℚ)} {key : ℕ × ℕ} {low : ℚ} (hlow : 0 ≤ low)
    (hweight : ∀ entry ∈ entries, low ≤ entry.2) (hkey : key ∈ entries.map Prod.fst) :
    low ≤ total entries key := by
  have hnonneg : ∀ w ∈ (entries.filter fun entry => entry.1 = key).map Prod.snd, 0 ≤ w := by
    intro w hw
    obtain ⟨entry, hentry, rfl⟩ := List.mem_map.mp hw
    exact hlow.trans (hweight entry (List.mem_of_mem_filter hentry))
  obtain ⟨entry, hentry, hkey⟩ := List.mem_map.mp hkey
  have hmem : entry.2 ∈ (entries.filter fun entry => entry.1 = key).map Prod.snd :=
    List.mem_map_of_mem (List.mem_filter.mpr ⟨hentry, by simpa using hkey⟩)
  exact (hweight entry hentry).trans (List.single_le_sum hnonneg _ hmem)

end Tables

/-! ## A parsed graph -/

section Parsed

variable {host : Host} {value : Json} {source : String} {graph : GraphData} {fields : Fields}

theorem weight_edgeEntries (fields : Fields) : ∀ entry ∈ edgeEntries fields, 1 / 10 ^ 9 ≤ entry.2 := by
  intro entry hentry
  rw [edgeEntries_eq] at hentry
  obtain ⟨edge, hedge, rfl⟩ := List.mem_map.mp hentry
  obtain ⟨row, -, hrow⟩ := List.mem_filterMap.mp hedge
  exact (parseEdge_eq_some hrow).2.2

theorem weight_tally {entries : List ((ℕ × ℕ) × ℚ)} (hweight : ∀ entry ∈ entries, 1 / 10 ^ 9 ≤ entry.2) :
    ∀ entry ∈ (tally entries).toList, 1 / 10 ^ 9 ≤ entry.2 := by
  intro entry hentry
  have hget := ExtTreeMap.mem_toList_iff_getElem?_eq_some.mp hentry
  rw [getElem?_tally] at hget
  split at hget
  · rename_i hkey
    rw [← Option.some.inj hget]
    exact le_total (by norm_num) hweight hkey
  · cases hget

theorem mem_of_mem_toList {table : ExtTreeMap (ℕ × ℕ) ℚ} {entry : (ℕ × ℕ) × ℚ}
    (h : entry ∈ table.toList) : entry.1 ∈ table := by
  rw [ExtTreeMap.mem_iff_isSome_getElem?, ExtTreeMap.mem_toList_iff_getElem?_eq_some.mp h]
  rfl

theorem nodup_nodes (h : parseGraphJsonValue host value source = .ok graph) : graph.nodes.Nodup := by
  obtain ⟨-, rfl⟩ := parse_eq_ok.mp h
  rw [graphOf_eq]
  exact nodup_nodeList _

theorem nodes_ne_nil (h : parseGraphJsonValue host value source = .ok graph) : graph.nodes.length ≠ 0 := by
  obtain ⟨hne, rfl⟩ := parse_eq_ok.mp h
  rw [graphOf_eq]
  exact fun hzero => hne (List.length_eq_zero_iff.mp hzero)

/-- **The rows out of the nodes are regular.** -/
theorem regular_outAdjacency (fields : Fields) : Regular (nodeList fields).length
    (outAdjacency (nodeList fields).length
      (tally ((edgeEntries fields).flatMap (outEntry (isDirected fields))))) := by
  refine regular_pushed (nodup_keys _) ?_ ?_
  · intro entry hentry
    have hkey := mem_tally.mp (mem_of_mem_toList hentry)
    cases hdirected : isDirected fields with
    | true =>
      rw [hdirected, flatMap_outEntry_true] at hkey
      exact (key_lt hkey).2
    | false =>
      rw [hdirected] at hkey
      obtain hkey | hkey := mem_outKeys_false.mp hkey
      · exact (key_lt hkey).2
      · exact (key_lt hkey).1
  · refine weight_tally fun entry hentry => ?_
    obtain ⟨edge, hedge, hout⟩ := List.mem_flatMap.mp hentry
    have hweight := weight_edgeEntries fields edge hedge
    unfold outEntry at hout
    split at hout
    · obtain rfl | hout := List.mem_cons.mp hout
      · exact hweight
      · obtain rfl := List.mem_singleton.mp hout
        exact hweight
    · obtain rfl := List.mem_singleton.mp hout
      exact hweight

theorem regular_outAdj (h : parseGraphJsonValue host value source = .ok graph) :
    Regular graph.nodes.length graph.outAdj := by
  obtain ⟨-, rfl⟩ := parse_eq_ok.mp h
  rw [graphOf_eq]
  exact regular_outAdjacency _

theorem ordered_key {fields : Fields} :
    ∀ entry ∈ (tally ((edgeEntries fields).map undEntry)).toList, entry.1 = ordered entry.1 :=
  fun _ hentry => eq_ordered_of_mem_undKeys (mem_tally.mp (mem_of_mem_toList hentry))

/-- What stands in the undirected rows. -/
theorem mem_bothWays {entries : List ((ℕ × ℕ) × ℚ)} (hordered : ∀ entry ∈ entries, entry.1 = ordered entry.1)
    {entry : (ℕ × ℕ) × ℚ} :
    entry ∈ entries.flatMap (outEntry false) ↔ (ordered entry.1, entry.2) ∈ entries := by
  constructor
  · intro hmem
    obtain ⟨edge, hedge, hout⟩ := List.mem_flatMap.mp hmem
    have hself := (hordered edge hedge).symm
    have hsame : ordered entry.1 = edge.1 ∧ entry.2 = edge.2 := by
      unfold outEntry at hout
      split at hout
      · obtain rfl | hout := List.mem_cons.mp hout
        · exact ⟨hself, rfl⟩
        · obtain rfl := List.mem_singleton.mp hout
          exact ⟨(ordered_swap edge.1).trans hself, rfl⟩
      · obtain rfl := List.mem_singleton.mp hout
        exact ⟨hself, rfl⟩
    rw [hsame.1, hsame.2]
    exact hedge
  · intro hmem
    refine List.mem_flatMap.mpr ⟨_, hmem, ?_⟩
    obtain ⟨⟨a, b⟩, w⟩ := entry
    unfold outEntry ordered
    by_cases hle : a ≤ b
    · rw [if_pos hle]
      split <;> simp
    · have hne : b ≠ a := by omega
      simp [hle, hne]

/-- **The undirected rows are regular and symmetric.** -/
theorem regular_undirectedAdj (h : parseGraphJsonValue host value source = .ok graph) :
    Regular graph.nodes.length graph.undirectedAdj ∧ Symmetric graph.undirectedAdj := by
  obtain ⟨-, rfl⟩ := parse_eq_ok.mp h
  rw [graphOf_eq]
  generalize payloadFields value = fields
  dsimp only
  rw [undirectedAdjacency_eq]
  have hordered := @ordered_key fields
  have hmem {entry : (ℕ × ℕ) × ℚ} := @mem_bothWays _ hordered entry
  have hindexes : ∀ entry ∈ (tally ((edgeEntries fields).map undEntry)).toList.flatMap (outEntry false),
      entry.1.1 < (nodeList fields).length ∧ entry.1.2 < (nodeList fields).length := by
    intro entry hentry
    have hlt := indexes_und fields _ (mem_of_mem_toList (hmem.mp hentry))
    unfold ordered at hlt
    split at hlt
    · exact hlt
    · exact hlt.symm
  have hweight : ∀ entry ∈ (tally ((edgeEntries fields).map undEntry)).toList, 1 / 10 ^ 9 ≤ entry.2 := by
    refine weight_tally fun entry hentry => ?_
    obtain ⟨edge, hedge, rfl⟩ := List.mem_map.mp hentry
    exact weight_edgeEntries fields edge hedge
  have hregular := regular_pushed (nodup_bothWays (nodup_keys _) hordered)
    (fun entry hentry => (hindexes entry hentry).2)
    fun entry hentry => hweight (ordered entry.1, entry.2) (hmem.mp hentry)
  refine ⟨hregular, ?_⟩
  have hone (i j : ℕ) (w : ℚ) (hentry : (j, w) ∈ Adj.row (pushed (nodeList fields).length
      ((tally ((edgeEntries fields).map undEntry)).toList.flatMap (outEntry false))) i) :
      (i, w) ∈ Adj.row (pushed (nodeList fields).length
        ((tally ((edgeEntries fields).map undEntry)).toList.flatMap (outEntry false))) j := by
    have hi := hregular.lt_of_mem hentry
    have hj := hregular.bounded i _ hentry
    rw [mem_row_pushed hi, hmem] at hentry
    rw [mem_row_pushed hj, hmem]
    rwa [← ordered_swap] at hentry
  exact fun i j w => ⟨hone i j w, hone j i w⟩

end Parsed

end Protheus.GraphToolkit
