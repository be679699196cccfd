import Protheus.Lib.Rank
import Protheus.Lib.Tally
import Protheus.V8Kernel

/-!
The graph payloads of `graph_toolkit/input.rs` and their hash.

The parser folds the edges into two tables: the weights out of each node, and the
weights between each two nodes whatever their direction.  The hash covers the second
table alone.  `hash_identifies_iff` says which graphs it tells from all others: the
undirected ones, and the directed ones that have no edge between different nodes.
A weight is taken as the exact rational it stands for, and so are the sums.
-/

namespace Protheus.GraphToolkit

open Std (ExtTreeMap ExtTreeSet)
open Tally V8Kernel
open Rank (eq_of_map_eq)

/-- Pairs of indices are ordered as tuples are. -/
scoped instance pairOrd : Ord (ℕ × ℕ) := lexOrd

abbrev Fields := List (String × Json)

/-- `GraphData`. -/
structure GraphData where
  nodes : List String
  outAdj : List (List (ℕ × ℚ))
  undirectedAdj : List (List (ℕ × ℚ))
  existingEdges : ExtTreeSet (ℕ × ℕ)
  graphHash : String
  directed : Bool
  source : String
  warnings : List String := []

/-! ## Rows -/

/-- `edge_end`: the first of the fields that is a text and not blank. -/
def edgeEnd (fields : Fields) (keys : List String) : Option String :=
  keys.findSome? fun key =>
    (((fields.lookup key).bind Json.asStr).map (clean · 120)).filter (· ≠ "")

/-- `node_id`. -/
def nodeId : Json → Option String
  | .str raw => some (clean raw 120) |>.filter (· ≠ "")
  | .obj fields => edgeEnd fields ["id", "name", "node"]
  | _ => none

/-- A row of `parsed_edges`. -/
structure ParsedEdge where
  start : String
  stop : String
  weight : ℚ
  deriving DecidableEq

/-- The weight of an edge, no less than `1e-9`. -/
def edgeWeight (fields : Fields) : ℚ :=
  max (((fields.lookup "weight").bind Json.asF64).getD 1) (1 / 10 ^ 9)

def parseEdge (row : Json) : Option ParsedEdge := do
  let fields ← row.asObject
  let start ← edgeEnd fields ["from", "source", "u"]
  let stop ← edgeEnd fields ["to", "target", "v"]
  some { start, stop, weight := edgeWeight fields }

/-- The rows of an array field. -/
def rows (fields : Fields) (key : String) : List Json :=
  ((fields.lookup key).bind Json.asArray).getD []

def parsedEdges (fields : Fields) : List ParsedEdge := (rows fields "edges").filterMap parseEdge

/-- The names that go into `node_set`. -/
def nodeNames (fields : Fields) : List String :=
  (rows fields "nodes").filterMap nodeId ++
    (parsedEdges fields).flatMap fun edge => [edge.start, edge.stop]

/-- `node_set.into_iter().collect()`. -/
def nodeList (fields : Fields) : List String := (ExtTreeSet.ofList (nodeNames fields)).toList

def isDirected (fields : Fields) : Bool := ((fields.lookup "directed").bind Json.asBool).getD false

/-! ## Tables -/

/-- The two indices of an edge, the smaller one first. -/
def ordered (pair : ℕ × ℕ) : ℕ × ℕ := if pair.1 ≤ pair.2 then pair else pair.swap

structure Tables where
  outWeights : ExtTreeMap (ℕ × ℕ) ℚ := ∅
  undWeights : ExtTreeMap (ℕ × ℕ) ℚ := ∅
  existingEdges : ExtTreeSet (ℕ × ℕ) := ∅

/-- The indices of an edge and its weight. -/
def indexEdge (nodes : List String) (edge : ParsedEdge) : Option ((ℕ × ℕ) × ℚ) := do
  let start ← nodes.idxOf? edge.start
  let stop ← nodes.idxOf? edge.stop
  some ((start, stop), edge.weight)

/-- One round of the loop over the edges. -/
def addEdge (directed : Bool) (nodes : List String) (tables : Tables) (edge : ParsedEdge) : Tables :=
  match indexEdge nodes edge with
  | none => tables
  | some (pair, weight) =>
    let out := enter tables.outWeights (pair, weight)
    { outWeights := if !directed && pair.1 != pair.2 then enter out (pair.swap, weight) else out
      undWeights := enter tables.undWeights (ordered pair, weight)
      existingEdges := tables.existingEdges.insert (ordered pair) }

def buildTables (directed : Bool) (nodes : List String) (edges : List ParsedEdge) : Tables :=
  edges.foldl (addEdge directed nodes) {}

/-- `adj[row].push((neighbour, weight))`. -/
def pushRow (adj : List (List (ℕ × ℚ))) (row : ℕ) (neighbour : ℕ × ℚ) : List (List (ℕ × ℚ)) :=
  adj.modify row (· ++ [neighbour])

/-- `row.sort_by_key(|(idx, _)| *idx)`, for every row. -/
def sortRows (adj : List (List (ℕ × ℚ))) : List (List (ℕ × ℚ)) :=
  adj.map fun row => row.mergeSort fun a b => a.1 ≤ b.1

def outAdjacency (count : ℕ) (outWeights : ExtTreeMap (ℕ × ℕ) ℚ) : List (List (ℕ × ℚ)) :=
  sortRows (outWeights.toList.foldl (fun adj entry => pushRow adj entry.1.1 (entry.1.2, entry.2))
    (List.replicate count []))

def undirectedAdjacency (count : ℕ) (undWeights : ExtTreeMap (ℕ × ℕ) ℚ) : List (List (ℕ × ℚ)) :=
  sortRows (undWeights.toList.foldl (fun adj entry =>
    let adj := pushRow adj entry.1.1 (entry.1.2, entry.2)
    if entry.1.1 ≠ entry.1.2 then pushRow adj entry.1.2 (entry.1.1, entry.2) else adj)
    (List.replicate count []))

/-- `(w * 1_000_000.0).round() / 1_000_000.0`. -/
def roundMicros (w : ℚ) : ℚ := RustStd.round (w * 10 ^ 6) / 10 ^ 6

/-- A row of `canonical_edges`. -/
def canonicalEdge (nodes : List String) (entry : (ℕ × ℕ) × ℚ) : Json :=
  Json.ofFields [("a", .str (nodes.getD entry.1.1 "")), ("b", .str (nodes.getD entry.1.2 "")),
    ("weight", Json.ofRat (roundMicros entry.2))]

/-- What the hash is taken of. -/
def canonicalGraph (directed : Bool) (nodes : List String) (undWeights : ExtTreeMap (ℕ × ℕ) ℚ) : Json :=
  Json.ofFields [("directed", .bool directed), ("nodes", .arr (nodes.map .str)),
    ("edges", .arr (undWeights.toList.map (canonicalEdge nodes)))]

def graphOf (host : Host) (fields : Fields) (source : String) : GraphData :=
  let directed := isDirected fields
  let nodes := nodeList fields
  let tables := buildTables directed nodes (parsedEdges fields)
  { nodes
    outAdj := outAdjacency nodes.length tables.outWeights
    undirectedAdj := undirectedAdjacency nodes.length tables.undWeights
    existingEdges := tables.existingEdges
    graphHash := host.digest (canonicalGraph directed nodes tables.undWeights)
    directed
    source }

/-- The payload, which may stand under `graph`. -/
def payload (value : Json) : Json := (value.get? "graph").getD value

/-- `parse_graph_json_value`. -/
def parseGraphJsonValue (host : Host) (value : Json) (source : String) : Except String GraphData :=
  match (payload value).asObject with
  | none => .error "graph_payload_not_object"
  | some fields =>
    if (nodeList fields).isEmpty then .error "graph_payload_has_no_nodes"
    else .ok (graphOf host fields source)

/-! ## Adjacencies -/

section Adjacency

variable {count : ℕ} {table table' : ExtTreeMap (ℕ × ℕ) ℚ}

theorem getElem?_pushRows (entries : List ((ℕ × ℕ) × ℚ)) (row : ℕ) : ∀ adj : List (List (ℕ × ℚ)),
    (entries.foldl (fun adj entry => pushRow adj entry.1.1 (entry.1.2, entry.2)) adj)[row]? =
      adj[row]?.map (· ++ (entries.filter fun entry => entry.1.1 = row).map
        fun entry => (entry.1.2, entry.2)) := by
  induction entries with
  | nil => simp
  | cons entry entries ih =>
    intro adj
    rw [List.foldl_cons, ih, pushRow, List.getElem?_modify, Option.map_eq_map, Option.map_map]
    congr 1
    funext old
    by_cases hrow : entry.1.1 = row
    · simp [hrow]
    · simp [hrow]

/-- What stands in a row of the adjacency. -/
theorem mem_outAdjacency {row : ℕ} (hrow : row < count) (neighbour : ℕ) (weight : ℚ) :
    (∃ out, (outAdjacency count table)[row]? = some out ∧ (neighbour, weight) ∈ out) ↔
      table[(row, neighbour)]? = some weight := by
  rw [outAdjacency, sortRows, List.getElem?_map, getElem?_pushRows, List.getElem?_replicate,
    if_pos hrow, Option.map_some, Option.map_some, List.nil_append]
  rw [← ExtTreeMap.mem_toList_iff_getElem?_eq_some]
  constructor
  · rintro ⟨out, hout, hmem⟩
    rw [← Option.some.inj hout, List.mem_mergeSort, List.mem_map] at hmem
    obtain ⟨⟨⟨start, stop⟩, w⟩, hentry, heq⟩ := hmem
    obtain ⟨hthere, hstart⟩ := List.mem_filter.mp hentry
    obtain ⟨rfl, rfl⟩ := Prod.mk.inj heq
    obtain rfl : start = row := by simpa using hstart
    exact hthere
  · intro hmem
    refine ⟨_, rfl, ?_⟩
    rw [List.mem_mergeSort, List.mem_map]
    exact ⟨((row, neighbour), weight), List.mem_filter.mpr ⟨hmem, by simp⟩, rfl⟩

/-- A table with small indices is its adjacency. -/
theorem outAdjacency_inj (hsmall : ∀ pair ∈ table, pair.1 < count)
    (hsmall' : ∀ pair ∈ table', pair.1 < count) :
    outAdjacency count table = outAdjacency count table' ↔ table = table' := by
  constructor
  · intro h
    refine ExtTreeMap.ext_getElem? fun pair => Option.ext fun weight => ?_
    by_cases hrow : pair.1 < count
    · have hmem := @mem_outAdjacency count table _ hrow pair.2 weight
      rw [h, mem_outAdjacency hrow] at hmem
      exact hmem.symm
    · have hnone : table[pair]? = none :=
        ExtTreeMap.getElem?_eq_none fun hmem => hrow (hsmall pair hmem)
      have hnone' : table'[pair]? = none :=
        ExtTreeMap.getElem?_eq_none fun hmem => hrow (hsmall' pair hmem)
      rw [hnone, hnone']
  · rintro rfl
    rfl

end Adjacency

/-! ## The tables of the edges -/

section Tables

variable {entries entries' : List ((ℕ × ℕ) × ℚ)} {directed : Bool} {pair : ℕ × ℕ}

/-- What an edge enters into the weights out of the nodes. -/
def outEntry (directed : Bool) (entry : (ℕ × ℕ) × ℚ) : List ((ℕ × ℕ) × ℚ) :=
  if !directed && entry.1.1 != entry.1.2 then [entry, (entry.1.swap, entry.2)] else [entry]

/-- What an edge enters into the weights between the nodes. -/
def undEntry (entry : (ℕ × ℕ) × ℚ) : (ℕ × ℕ) × ℚ := (ordered entry.1, entry.2)

/-- The edges by their indices. -/
def indexed (nodes : List String) (edges : List ParsedEdge) : List ((ℕ × ℕ) × ℚ) :=
  edges.filterMap (indexEdge nodes)

theorem foldl_addEdge (directed : Bool) (nodes : List String) (edges : List ParsedEdge) :
    ∀ tables : Tables, edges.foldl (addEdge directed nodes) tables =
      { outWeights := ((indexed nodes edges).flatMap (outEntry directed)).foldl enter tables.outWeights
        undWeights := ((indexed nodes edges).map undEntry).foldl enter tables.undWeights
        existingEdges := ((indexed nodes edges).map fun entry => ordered entry.1).foldl
          (fun found pair => found.insert pair) tables.existingEdges } := by
  induction edges with
  | nil => exact fun _ => rfl
  | cons edge edges ih =>
    intro tables
    rw [List.foldl_cons, ih, addEdge]
    cases hindex : indexEdge nodes edge with
    | none =>
      have hcons : indexed nodes (edge :: edges) = indexed nodes edges :=
        List.filterMap_cons_none hindex
      rw [hcons]
    | some entry =>
      have hcons : indexed nodes (edge :: edges) = entry :: indexed nodes edges :=
        List.filterMap_cons_some hindex
      obtain ⟨pair, weight⟩ := entry
      dsimp only
      rw [hcons, List.flatMap_cons, List.foldl_append, List.map_cons, List.foldl_cons, List.map_cons,
        List.foldl_cons, outEntry]
      split <;> rfl

/-- The loop over the edges enters them into the three tables. -/
theorem buildTables_eq (directed : Bool) (nodes : List String) (edges : List ParsedEdge) :
    buildTables directed nodes edges =
      { outWeights := tally ((indexed nodes edges).flatMap (outEntry directed))
        undWeights := tally ((indexed nodes edges).map undEntry)
        existingEdges := ((indexed nodes edges).map fun entry => ordered entry.1).foldl
          (fun found pair => found.insert pair) ∅ } :=
  foldl_addEdge directed nodes edges {}

theorem ordered_swap (pair : ℕ × ℕ) : ordered pair.swap = ordered pair := by
  obtain ⟨a, b⟩ := pair
  unfold ordered
  dsimp only [Prod.swap]
  grind

theorem ordered_eq_iff {pair pair' : ℕ × ℕ} :
    ordered pair = ordered pair' ↔ pair = pair' ∨ pair.swap = pair' := by
  obtain ⟨a, b⟩ := pair
  obtain ⟨c, d⟩ := pair'
  unfold ordered
  dsimp only [Prod.swap]
  grind

theorem ordered_ordered (pair : ℕ × ℕ) : ordered (ordered pair) = ordered pair := by
  obtain ⟨a, b⟩ := pair
  unfold ordered
  dsimp only [Prod.swap]
  grind

theorem mem_undKeys : ordered pair ∈ (entries.map undEntry).map Prod.fst ↔
    pair ∈ entries.map Prod.fst ∨ pair.swap ∈ entries.map Prod.fst := by
  rw [List.map_map]
  constructor
  · intro h
    obtain ⟨entry, hentry, heq⟩ := List.mem_map.mp h
    have hkey : entry.1 ∈ entries.map Prod.fst := List.mem_map_of_mem hentry
    obtain h | h := ordered_eq_iff.mp heq
    · exact .inl (h ▸ hkey)
    · refine .inr ?_
      rwa [← h, Prod.swap_swap]
  · rintro (h | h)
    · obtain ⟨entry, hentry, rfl⟩ := List.mem_map.mp h
      exact List.mem_map_of_mem hentry
    · obtain ⟨entry, hentry, heq⟩ := List.mem_map.mp h
      refine List.mem_map.mpr ⟨entry, hentry, ?_⟩
      change ordered entry.1 = ordered pair
      rw [heq, ordered_swap]

/-- A key of the second table has its smaller index first. -/
theorem eq_ordered_of_mem_undKeys (h : pair ∈ (entries.map undEntry).map Prod.fst) :
    pair = ordered pair := by
  rw [List.map_map] at h
  obtain ⟨entry, -, rfl⟩ := List.mem_map.mp h
  exact (ordered_ordered entry.1).symm

/-- The weights between two nodes are those in both directions. -/
theorem total_undEntries (entries : List ((ℕ × ℕ) × ℚ)) (pair : ℕ × ℕ) :
    total (entries.map undEntry) (ordered pair) =
      total entries pair + if pair.1 = pair.2 then 0 else total entries pair.swap := by
  induction entries with
  | nil => simp
  | cons entry entries ih =>
    rw [List.map_cons, total_cons, ih, total_cons, total_cons]
    change (if ordered entry.1 = ordered pair then entry.2 else 0) + _ = _
    have hswap : entry.1 = pair.swap ↔ entry.1.swap = pair :=
      ⟨fun h => by rw [h, Prod.swap_swap], fun h => by rw [← h, Prod.swap_swap]⟩
    have hloop (hsame : entry.1 = pair) (hback : entry.1.swap = pair) : pair.1 = pair.2 := by
      rw [← hsame] at hback ⊢
      exact (congrArg Prod.fst hback).symm
    by_cases hsame : entry.1 = pair
    · by_cases hdiag : pair.1 = pair.2
      · rw [if_pos (ordered_eq_iff.mpr (.inl hsame)), if_pos hsame, if_pos hdiag, if_pos hdiag]
        ring
      · have hback : ¬entry.1 = pair.swap := fun h => hdiag (hloop hsame (hswap.mp h))
        rw [if_pos (ordered_eq_iff.mpr (.inl hsame)), if_pos hsame, if_neg hdiag, if_neg hdiag,
          if_neg hback]
        ring
    · by_cases hback : entry.1 = pair.swap
      · have hdiag : ¬pair.1 = pair.2 := by
          intro h
          refine hsame (hback.trans ?_)
          exact Prod.ext h.symm h
        rw [if_pos (ordered_eq_iff.mpr (.inr (hswap.mp hback))), if_neg hsame, if_neg hdiag,
          if_neg hdiag, if_pos hback]
        ring
      · have hne : ¬ordered entry.1 = ordered pair := by
          rw [ordered_eq_iff, ← hswap]
          exact not_or.mpr ⟨hsame, hback⟩
        rw [if_neg hne, if_neg hsame, if_neg hback]
        simp only [zero_add]

theorem flatMap_outEntry_true (entries : List ((ℕ × ℕ) × ℚ)) :
    entries.flatMap (outEntry true) = entries := by
  have hsingle : outEntry true = fun entry => [entry] := funext fun entry => rfl
  rw [hsingle, List.flatMap_singleton']

theorem mem_outKeys_false : pair ∈ (entries.flatMap (outEntry false)).map Prod.fst ↔
    pair ∈ entries.map Prod.fst ∨ pair.swap ∈ entries.map Prod.fst := by
  constructor
  · intro h
    obtain ⟨out, hout, rfl⟩ := List.mem_map.mp h
    obtain ⟨entry, hentry, hmem⟩ := List.mem_flatMap.mp hout
    have hkey : entry.1 ∈ entries.map Prod.fst := List.mem_map_of_mem hentry
    unfold outEntry at hmem
    split at hmem
    · obtain rfl | hmem := List.mem_cons.mp hmem
      · exact .inl hkey
      · obtain rfl := List.mem_singleton.mp hmem
        refine .inr ?_
        rwa [Prod.swap_swap]
    · obtain rfl := List.mem_singleton.mp hmem
      exact .inl hkey
  · rintro (h | h)
    · obtain ⟨entry, hentry, rfl⟩ := List.mem_map.mp h
      refine List.mem_map.mpr ⟨entry, List.mem_flatMap.mpr ⟨entry, hentry, ?_⟩, rfl⟩
      unfold outEntry
      split <;> simp
    · obtain ⟨entry, hentry, heq⟩ := List.mem_map.mp h
      have hpair : pair = entry.1.swap := by rw [heq, Prod.swap_swap]
      by_cases hdiag : entry.1.1 = entry.1.2
      · refine List.mem_map.mpr ⟨entry, List.mem_flatMap.mpr ⟨entry, hentry, ?_⟩, ?_⟩
        · unfold outEntry
          split <;> simp
        · rw [hpair]
          exact Prod.ext hdiag hdiag.symm
      · refine List.mem_map.mpr
          ⟨(entry.1.swap, entry.2), List.mem_flatMap.mpr ⟨entry, hentry, ?_⟩, hpair.symm⟩
        simp [outEntry, hdiag]

/-- Without directions the weight out of a node is the weight between the two. -/
theorem total_outEntries_false (entries : List ((ℕ × ℕ) × ℚ)) (pair : ℕ × ℕ) :
    total (entries.flatMap (outEntry false)) pair = total (entries.map undEntry) (ordered pair) := by
  rw [total_undEntries]
  induction entries with
  | nil => simp
  | cons entry entries ih =>
    rw [List.flatMap_cons, total_append, ih, total_cons, total_cons]
    have hswap : entry.1.swap = pair ↔ entry.1 = pair.swap :=
      ⟨fun h => by rw [← h, Prod.swap_swap], fun h => by rw [h, Prod.swap_swap]⟩
    by_cases hdiag : entry.1.1 = entry.1.2
    · have hentry : outEntry false entry = [entry] := by simp [outEntry, hdiag]
      have hself : entry.1.swap = entry.1 := Prod.ext hdiag.symm hdiag
      rw [hentry, total_cons, total_nil]
      by_cases hsame : entry.1 = pair
      · have hpair : pair.1 = pair.2 := hsame ▸ hdiag
        rw [if_pos hsame, if_pos hpair, if_pos hpair]
        ring
      · have hback : ¬entry.1 = pair.swap := fun h => hsame (hself.symm.trans (hswap.mpr h))
        rw [if_neg hsame, if_neg hback]
        simp only [zero_add]
    · have hentry : outEntry false entry = [entry, (entry.1.swap, entry.2)] := by
        simp [outEntry, hdiag]
      rw [hentry, total_cons, total_cons, total_nil]
      by_cases hpair : pair.1 = pair.2
      · have hsame : ¬entry.1 = pair := fun h => hdiag (h ▸ hpair)
        have hback : ¬entry.1.swap = pair := by
          intro h
          refine hdiag ?_
          rw [hswap.mp h]
          exact hpair.symm
        rw [if_neg hsame, if_neg hback, if_pos hpair, if_pos hpair]
        ring
      · rw [if_neg hpair, if_neg hpair]
        simp only [hswap]
        ring

/-- **What the weights out of the nodes say of those between them.** -/
theorem und_eq_of_out_eq
    (h : tally (entries.flatMap (outEntry directed)) = tally (entries'.flatMap (outEntry directed))) :
    tally (entries.map undEntry) = tally (entries'.map undEntry) := by
  rw [tally_eq_iff] at h ⊢
  intro key
  have hordered (hkey : key = ordered key) :
      (key ∈ (entries.map undEntry).map Prod.fst ↔ key ∈ (entries'.map undEntry).map Prod.fst) ∧
        total (entries.map undEntry) key = total (entries'.map undEntry) key := by
    cases directed with
    | true =>
      rw [flatMap_outEntry_true, flatMap_outEntry_true] at h
      rw [hkey, mem_undKeys, mem_undKeys, total_undEntries, total_undEntries, (h _).1, (h _).1,
        (h _).2, (h _).2]
      exact ⟨Iff.rfl, rfl⟩
    | false =>
      have hout := h key
      rw [mem_outKeys_false, mem_outKeys_false, total_outEntries_false, total_outEntries_false] at hout
      rw [hkey, mem_undKeys, mem_undKeys, ← hkey, hkey]
      exact ⟨by rw [← hkey]; exact hout.1, hout.2⟩
  by_cases hkey : key = ordered key
  · exact hordered hkey
  · have hnot {l : List ((ℕ × ℕ) × ℚ)} : key ∉ (l.map undEntry).map Prod.fst :=
      fun hmem => hkey (eq_ordered_of_mem_undKeys hmem)
    exact ⟨iff_of_false hnot hnot, by rw [total_eq_zero hnot, total_eq_zero hnot]⟩

/-- Without directions the weights between the nodes say everything. -/
theorem out_eq_of_und_eq (h : tally (entries.map undEntry) = tally (entries'.map undEntry)) :
    tally (entries.flatMap (outEntry false)) = tally (entries'.flatMap (outEntry false)) := by
  rw [tally_eq_iff] at h ⊢
  intro key
  have hkey := h (ordered key)
  rw [mem_undKeys, mem_undKeys] at hkey
  rw [mem_outKeys_false, mem_outKeys_false, total_outEntries_false, total_outEntries_false]
  exact hkey

end Tables

/-! ## Nodes and indices -/

section Indices

variable {nodes : List String} {edges edges' : List ParsedEdge} {fields fields' : Fields}

theorem nodup_nodeList (fields : Fields) : (nodeList fields).Nodup :=
  ExtTreeSet.distinct_toList.imp fun hne heq => hne (by simp [heq])

theorem mem_nodeList {name : String} : name ∈ nodeList fields ↔ name ∈ nodeNames fields := by
  rw [nodeList, ExtTreeSet.mem_toList, ExtTreeSet.mem_ofList, List.contains_iff_mem]

/-- The nodes are sorted, so their names determine them. -/
theorem nodeList_congr (h : ∀ name, name ∈ nodeNames fields ↔ name ∈ nodeNames fields') :
    nodeList fields = nodeList fields' := by
  have hset : ExtTreeSet.ofList (nodeNames fields) = ExtTreeSet.ofList (nodeNames fields') := by
    refine ExtTreeSet.ext_mem fun name => ?_
    rw [ExtTreeSet.mem_ofList, ExtTreeSet.mem_ofList, List.contains_iff_mem, List.contains_iff_mem]
    exact h name
  rw [nodeList, nodeList, hset]

theorem ends_mem_nodeList {edge : ParsedEdge} (h : edge ∈ parsedEdges fields) :
    edge.start ∈ nodeList fields ∧ edge.stop ∈ nodeList fields := by
  rw [mem_nodeList, mem_nodeList, nodeNames]
  constructor
  · exact List.mem_append_right _ (List.mem_flatMap.mpr ⟨edge, h, by simp⟩)
  · exact List.mem_append_right _ (List.mem_flatMap.mpr ⟨edge, h, by simp⟩)

theorem idxOf?_of_mem {name : String} (h : name ∈ nodes) : nodes.idxOf? name = some (nodes.idxOf name) := by
  rw [List.idxOf?_eq_some_iff]
  refine ⟨List.idxOf_lt_length_iff.mpr h, by simp, fun j hj => ?_⟩
  have hbefore := List.not_of_lt_findIdx hj
  simpa using hbefore

theorem indexEdge_eq {edge : ParsedEdge} (hstart : edge.start ∈ nodes) (hstop : edge.stop ∈ nodes) :
    indexEdge nodes edge = some ((nodes.idxOf edge.start, nodes.idxOf edge.stop), edge.weight) := by
  rw [indexEdge, idxOf?_of_mem hstart, idxOf?_of_mem hstop]
  rfl

/-- Every edge of a payload has its indices. -/
theorem indexed_eq (h : ∀ edge ∈ edges, edge.start ∈ nodes ∧ edge.stop ∈ nodes) :
    indexed nodes edges =
      edges.map fun edge => ((nodes.idxOf edge.start, nodes.idxOf edge.stop), edge.weight) := by
  rw [indexed, List.filterMap_congr fun edge hedge => indexEdge_eq (h edge hedge).1 (h edge hedge).2]
  exact congrFun List.filterMap_eq_map' edges

end Indices

/-! ## The hash -/

section Hash

variable {host : Host} {directed directed' : Bool} {nodes nodes' : List String}
  {und und' : ExtTreeMap (ℕ × ℕ) ℚ} {weights : List ℚ} {w w' : ℚ}

/-- A multiple of one millionth. -/
def IsMicros (w : ℚ) : Prop := ∃ n : ℕ, w = n / 10 ^ 6

theorem roundMicros_eq (h : IsMicros w) : roundMicros w = w := by
  obtain ⟨n, rfl⟩ := h
  have hn : ((n : ℚ) / 10 ^ 6) * 10 ^ 6 = n := by ring
  have hfloor : ⌊(n : ℚ) + 1 / 2⌋ = n := by
    rw [Int.floor_eq_iff]
    push_cast
    constructor <;> linarith
  rw [roundMicros, hn, RustStd.round, if_pos (Nat.cast_nonneg n), hfloor, Int.cast_natCast]

theorem isMicros_sum (h : ∀ w ∈ weights, IsMicros w) : IsMicros weights.sum := by
  induction weights with
  | nil => exact ⟨0, by simp⟩
  | cons w weights ih =>
    obtain ⟨n, hn⟩ := h w List.mem_cons_self
    obtain ⟨m, hm⟩ := ih fun w' hw' => h w' (List.mem_cons_of_mem w hw')
    refine ⟨n + m, ?_⟩
    rw [List.sum_cons, hn, hm]
    push_cast
    ring

/-- The keys of a table are indices of nodes. -/
def Indexes (nodes : List String) (table : ExtTreeMap (ℕ × ℕ) ℚ) : Prop :=
  ∀ pair ∈ table, pair.1 < nodes.length ∧ pair.2 < nodes.length

/-- The weights of a table are multiples of one millionth. -/
def WeighsMicros (table : ExtTreeMap (ℕ × ℕ) ℚ) : Prop :=
  ∀ (pair : ℕ × ℕ) (w : ℚ), table[pair]? = some w → IsMicros w

theorem canonicalEdge_inj (hnodup : nodes.Nodup) {a b : (ℕ × ℕ) × ℚ}
    (ha : a.1.1 < nodes.length ∧ a.1.2 < nodes.length) (hb : b.1.1 < nodes.length ∧ b.1.2 < nodes.length)
    (hmicros : IsMicros a.2) (hmicros' : IsMicros b.2)
    (h : canonicalEdge nodes a = canonicalEdge nodes b) : a = b := by
  rw [canonicalEdge, canonicalEdge] at h
  have hfields := Json.ofFields_inj (by rfl) (by simp) h
  simp only [List.cons.injEq, Prod.mk.injEq, Json.str.injEq, true_and, and_true] at hfields
  obtain ⟨hstart, hstop, hweight⟩ := hfields
  rw [roundMicros_eq hmicros, roundMicros_eq hmicros'] at hweight
  refine Prod.ext (Prod.ext ?_ ?_) ?_
  · exact (List.getD_inj ha.1 hb.1 hnodup).mp hstart
  · exact (List.getD_inj ha.2 hb.2 hnodup).mp hstop
  · exact JsonNumber.float.inj (Json.num.inj hweight)

/-- **What the hash tells apart.** -/
theorem canonicalGraph_inj (hnodup : nodes.Nodup) (hund : Indexes nodes und)
    (hund' : Indexes nodes' und') (hmicros : WeighsMicros und) (hmicros' : WeighsMicros und')
    (h : canonicalGraph directed nodes und = canonicalGraph directed' nodes' und') :
    directed = directed' ∧ nodes = nodes' ∧ und = und' := by
  rw [canonicalGraph, canonicalGraph] at h
  have hfields := Json.ofFields_inj (by rfl) (by simp) h
  simp only [List.cons.injEq, Prod.mk.injEq, Json.bool.injEq, Json.arr.injEq, true_and, and_true]
    at hfields
  obtain ⟨hdirected, hnodes, hedges⟩ := hfields
  obtain rfl : nodes = nodes' :=
    eq_of_map_eq (fun _ _ _ _ heq => Json.str.inj heq) hnodes
  refine ⟨hdirected, rfl, ExtTreeMap.toList_inj.mp ?_⟩
  refine eq_of_map_eq (fun a ha b hb heq => ?_) hedges
  have hget := ExtTreeMap.mem_toList_iff_getElem?_eq_some.mp ha
  have hget' := ExtTreeMap.mem_toList_iff_getElem?_eq_some.mp hb
  have hmem {table : ExtTreeMap (ℕ × ℕ) ℚ} {pair : ℕ × ℕ} {w : ℚ} (h : table[pair]? = some w) :
      pair ∈ table := by
    rw [ExtTreeMap.mem_iff_isSome_getElem?, h]
    rfl
  exact canonicalEdge_inj hnodup (hund _ (hmem hget)) (hund' _ (hmem hget')) (hmicros _ _ hget)
    (hmicros' _ _ hget') heq

end Hash

/-! ## Payloads -/

section Payloads

variable {host : Host} {fields fields' : Fields} {source source' : String}

/-- The edges of a payload by their indices. -/
def edgeEntries (fields : Fields) : List ((ℕ × ℕ) × ℚ) :=
  indexed (nodeList fields) (parsedEdges fields)

theorem edgeEntries_eq (fields : Fields) : edgeEntries fields = (parsedEdges fields).map fun edge =>
    (((nodeList fields).idxOf edge.start, (nodeList fields).idxOf edge.stop), edge.weight) :=
  indexed_eq fun _ => ends_mem_nodeList

theorem graphOf_eq (host : Host) (fields : Fields) (source : String) : graphOf host fields source =
    { nodes := nodeList fields
      outAdj := outAdjacency (nodeList fields).length
        (tally ((edgeEntries fields).flatMap (outEntry (isDirected fields))))
      undirectedAdj := undirectedAdjacency (nodeList fields).length
        (tally ((edgeEntries fields).map undEntry))
      existingEdges := ((edgeEntries fields).map fun entry => ordered entry.1).foldl
        (fun found pair => found.insert pair) ∅
      graphHash := host.digest (canonicalGraph (isDirected fields) (nodeList fields)
        (tally ((edgeEntries fields).map undEntry)))
      directed := isDirected fields
      source } := by
  rw [graphOf, buildTables_eq]
  rfl

def payloadFields (value : Json) : Fields := (payload value).asObject.getD []

theorem parse_eq_ok {value : Json} {graph : GraphData} :
    parseGraphJsonValue host value source = .ok graph ↔
      nodeList (payloadFields value) ≠ [] ∧ graph = graphOf host (payloadFields value) source := by
  rw [parseGraphJsonValue, payloadFields]
  cases (payload value).asObject with
  | none =>
    have hnone : nodeList [] = [] := rfl
    simp [hnone]
  | some fields =>
    rw [Option.getD_some]
    dsimp only
    by_cases hempty : nodeList fields = []
    · simp [hempty]
    · rw [if_neg (by simpa using hempty)]
      simp [hempty, eq_comm]

theorem key_lt {pair : ℕ × ℕ} (h : pair ∈ (edgeEntries fields).map Prod.fst) :
    pair.1 < (nodeList fields).length ∧ pair.2 < (nodeList fields).length := by
  rw [edgeEntries_eq, List.map_map] at h
  obtain ⟨edge, hedge, rfl⟩ := List.mem_map.mp h
  obtain ⟨hstart, hstop⟩ := ends_mem_nodeList hedge
  exact ⟨List.idxOf_lt_length_iff.mpr hstart, List.idxOf_lt_length_iff.mpr hstop⟩

theorem indexes_und (fields : Fields) :
    Indexes (nodeList fields) (tally ((edgeEntries fields).map undEntry)) := by
  intro pair hpair
  have hkey := mem_tally.mp hpair
  rw [eq_ordered_of_mem_undKeys hkey, mem_undKeys] at hkey
  cases hkey with
  | inl h => exact key_lt h
  | inr h => exact (key_lt h).symm

theorem outKey_lt {directed : Bool} {pair : ℕ × ℕ}
    (h : pair ∈ tally ((edgeEntries fields).flatMap (outEntry directed))) :
    pair.1 < (nodeList fields).length := by
  have hkey := mem_tally.mp h
  cases directed with
  | true =>
    rw [flatMap_outEntry_true] at hkey
    exact (key_lt hkey).1
  | false =>
    obtain hkey | hkey := mem_outKeys_false.mp hkey
    · exact (key_lt hkey).1
    · exact (key_lt hkey).2

/-- The weights of a payload's edges are multiples of one millionth. -/
def InMicros (fields : Fields) : Prop := ∀ edge ∈ parsedEdges fields, IsMicros edge.weight

theorem weighsMicros_und (h : InMicros fields) :
    WeighsMicros (tally ((edgeEntries fields).map undEntry)) := by
  intro pair w hget
  rw [getElem?_tally] at hget
  split at hget
  · rw [← Option.some.inj hget, total]
    refine isMicros_sum fun w hw => ?_
    obtain ⟨entry, hfiltered, rfl⟩ := List.mem_map.mp hw
    obtain ⟨entry', hentry, rfl⟩ := List.mem_map.mp (List.mem_of_mem_filter hfiltered)
    rw [edgeEntries_eq] at hentry
    obtain ⟨edge, hedge, rfl⟩ := List.mem_map.mp hentry
    exact h edge hedge
  · cases hget

/-- **The hash covers the weights between the nodes.** -/
theorem graphHash_eq_iff (ideal : IdealHost host) (hmicros : InMicros fields)
    (hmicros' : InMicros fields') :
    (graphOf host fields source).graphHash = (graphOf host fields' source').graphHash ↔
      isDirected fields = isDirected fields' ∧ nodeList fields = nodeList fields' ∧
        tally ((edgeEntries fields).map undEntry) = tally ((edgeEntries fields').map undEntry) := by
  rw [graphOf_eq, graphOf_eq]
  constructor
  · intro h
    exact canonicalGraph_inj (nodup_nodeList fields) (indexes_und fields) (indexes_und fields')
      (weighsMicros_und hmicros) (weighsMicros_und hmicros') (ideal.digest_injective h)
  · rintro ⟨hdirected, hnodes, hund⟩
    dsimp only
    rw [hdirected, hnodes, hund]

/-- The adjacency is the weights out of the nodes. -/
theorem outAdj_eq_iff (hdirected : isDirected fields = isDirected fields')
    (hnodes : nodeList fields = nodeList fields') :
    (graphOf host fields source).outAdj = (graphOf host fields' source').outAdj ↔
      tally ((edgeEntries fields).flatMap (outEntry (isDirected fields))) =
        tally ((edgeEntries fields').flatMap (outEntry (isDirected fields))) := by
  rw [graphOf_eq, graphOf_eq, ← hdirected, hnodes]
  exact outAdjacency_inj (fun pair hpair => hnodes ▸ outKey_lt hpair) fun pair => outKey_lt

/-! ## What a hash identifies -/

/-- The payload lists the same nodes and edges in another order. -/
structure Rearranges (fields fields' : Fields) : Prop where
  directed : fields'.lookup "directed" = fields.lookup "directed"
  nodes : (rows fields' "nodes").Perm (rows fields "nodes")
  edges : (rows fields' "edges").Perm (rows fields "edges")

/-- Another graph has the hash exactly when it has the direction, the nodes and the weights out of each
node, and the order of the payload's rows changes nothing. -/
structure Identified (host : Host) (value : Json) (source : String) (graph : GraphData) : Prop where
  hash : ∀ value' source' graph', parseGraphJsonValue host value' source' = .ok graph' →
    InMicros (payloadFields value') →
      (graph.graphHash = graph'.graphHash ↔
        graph.directed = graph'.directed ∧ graph.nodes = graph'.nodes ∧ graph.outAdj = graph'.outAdj)
  order : ∀ value', Rearranges (payloadFields value) (payloadFields value') →
    parseGraphJsonValue host value' source = .ok graph

/-- Every edge of the payload is a loop. -/
def LoopsOnly (value : Json) : Prop :=
  ∀ edge ∈ parsedEdges (payloadFields value), edge.start = edge.stop

theorem foldl_insert_perm {pairs pairs' : List (ℕ × ℕ)} (h : pairs.Perm pairs') :
    pairs.foldl (fun found pair => found.insert pair) (∅ : ExtTreeSet (ℕ × ℕ)) =
      pairs'.foldl (fun found pair => found.insert pair) ∅ := by
  have hmem (pair : ℕ × ℕ) : ∀ (pairs : List (ℕ × ℕ)) (found : ExtTreeSet (ℕ × ℕ)),
      pair ∈ pairs.foldl (fun found pair => found.insert pair) found ↔ pair ∈ pairs ∨ pair ∈ found := by
    intro pairs
    induction pairs with
    | nil => simp
    | cons head pairs ih =>
      intro found
      rw [List.foldl_cons, ih, ExtTreeSet.mem_insert, List.mem_cons, Std.LawfulEqCmp.compare_eq_iff_eq]
      tauto
  refine ExtTreeSet.ext_mem fun pair => ?_
  rw [hmem, hmem, h.mem_iff]

/-- The order of the rows does not matter. -/
theorem graphOf_rearranged (h : Rearranges fields fields') :
    graphOf host fields' source = graphOf host fields source := by
  have hdirected : isDirected fields' = isDirected fields := by rw [isDirected, isDirected, h.directed]
  have hedges : (parsedEdges fields').Perm (parsedEdges fields) := h.edges.filterMap _
  have hnodes : nodeList fields' = nodeList fields := by
    refine nodeList_congr fun name => ?_
    have hperm : (nodeNames fields').Perm (nodeNames fields) :=
      (h.nodes.filterMap _).append (hedges.flatMap_right _)
    exact hperm.mem_iff
  have hentries : (edgeEntries fields').Perm (edgeEntries fields) := by
    rw [edgeEntries, edgeEntries, hnodes]
    exact hedges.filterMap _
  rw [graphOf_eq, graphOf_eq, hdirected, hnodes, tally_perm (hentries.flatMap_right _),
    tally_perm (hentries.map _), foldl_insert_perm (hentries.map _)]

/-! ### Turning edges around -/

/-- The edge with its smaller index first, or last. -/
def turn (nodes : List String) (up : Bool) (edge : ParsedEdge) : ParsedEdge :=
  if decide (nodes.idxOf edge.start ≤ nodes.idxOf edge.stop) = up then edge
  else ⟨edge.stop, edge.start, edge.weight⟩

/-- A row for an edge between two texts that clean to its ends. -/
def edgeRow (raw : String → String) (edge : ParsedEdge) : Json :=
  Json.ofFields [("from", .str (raw edge.start)), ("to", .str (raw edge.stop)),
    ("weight", Json.ofRat edge.weight)]

/-- The payload with all its edges turned one way. -/
def turned (raw : String → String) (up : Bool) (fields : Fields) : Fields :=
  [("directed", .bool true),
    ("edges", .arr ((parsedEdges fields).map fun edge => edgeRow raw (turn (nodeList fields) up edge))),
    ("nodes", .arr (rows fields "nodes"))]

theorem edgeEnd_of_clean {keys : List String} {name : String} (h : edgeEnd fields keys = some name) :
    ∃ raw, clean raw 120 = name ∧ name ≠ "" := by
  obtain ⟨key, -, hkey⟩ := List.exists_of_findSome?_eq_some h
  obtain ⟨hmap, hblank⟩ := Option.filter_eq_some_iff.mp hkey
  obtain ⟨raw, -, hraw⟩ := Option.map_eq_some_iff.mp hmap
  exact ⟨raw, hraw, by simpa using hblank⟩

theorem parseEdge_eq_some {row : Json} {edge : ParsedEdge} (h : parseEdge row = some edge) :
    (∃ raw, clean raw 120 = edge.start ∧ edge.start ≠ "") ∧
      (∃ raw, clean raw 120 = edge.stop ∧ edge.stop ≠ "") ∧ 1 / 10 ^ 9 ≤ edge.weight := by
  unfold parseEdge at h
  obtain ⟨fields, -, h⟩ := Option.bind_eq_some_iff.mp h
  obtain ⟨start, hstart, h⟩ := Option.bind_eq_some_iff.mp h
  obtain ⟨stop, hstop, h⟩ := Option.bind_eq_some_iff.mp h
  obtain rfl := Option.some.inj h
  exact ⟨edgeEnd_of_clean hstart, edgeEnd_of_clean hstop, le_max_right _ _⟩

/-- Texts that clean to the ends of a payload's edges. -/
theorem exists_raw (fields : Fields) : ∃ raw : String → String, ∀ edge ∈ parsedEdges fields,
    (clean (raw edge.start) 120 = edge.start ∧ edge.start ≠ "") ∧
      (clean (raw edge.stop) 120 = edge.stop ∧ edge.stop ≠ "") ∧ 1 / 10 ^ 9 ≤ edge.weight := by
  classical
  refine ⟨fun name => if h : ∃ raw, clean raw 120 = name then h.choose else "", fun edge hedge => ?_⟩
  obtain ⟨row, -, hrow⟩ := List.mem_filterMap.mp hedge
  obtain ⟨⟨raw, hraw, hstart⟩, ⟨raw', hraw', hstop⟩, hweight⟩ := parseEdge_eq_some hrow
  have hthere : ∃ raw, clean raw 120 = edge.start := ⟨raw, hraw⟩
  have hthere' : ∃ raw, clean raw 120 = edge.stop := ⟨raw', hraw'⟩
  dsimp only
  rw [dif_pos hthere, dif_pos hthere']
  exact ⟨⟨hthere.choose_spec, hstart⟩, ⟨hthere'.choose_spec, hstop⟩, hweight⟩

/-- A field that is read first gives the end of the edge. -/
theorem edgeEnd_cons {key : String} {keys : List String} {raw name : String}
    (hraw : fields.lookup key = some (.str raw)) (hclean : clean raw 120 = name) (hname : name ≠ "") :
    edgeEnd fields (key :: keys) = some name := by
  rw [edgeEnd, List.findSome?_cons, hraw]
  simp [Json.asStr, hclean, Option.filter_some, hname]

theorem parseEdge_edgeRow {raw : String → String} {edge : ParsedEdge}
    (hstart : clean (raw edge.start) 120 = edge.start ∧ edge.start ≠ "")
    (hstop : clean (raw edge.stop) 120 = edge.stop ∧ edge.stop ≠ "") (hweight : 1 / 10 ^ 9 ≤ edge.weight) :
    parseEdge (edgeRow raw edge) = some edge := by
  let fields := Json.insertFields [("from", .str (raw edge.start)), ("to", .str (raw edge.stop)),
    ("weight", Json.ofRat edge.weight)] []
  have hrow : edgeRow raw edge = .obj fields := rfl
  have hfrom : fields.lookup "from" = some (.str (raw edge.start)) :=
    Json.lookup_insertFields (by simp) (f := ("from", _)) (by simp)
  have hto : fields.lookup "to" = some (.str (raw edge.stop)) :=
    Json.lookup_insertFields (by simp) (f := ("to", _)) (by simp)
  have hw : fields.lookup "weight" = some (Json.ofRat edge.weight) :=
    Json.lookup_insertFields (by simp) (f := ("weight", _)) (by simp [Json.ofRat])
  have hmax : edgeWeight fields = edge.weight := by
    rw [edgeWeight, hw]
    exact max_eq_left hweight
  rw [hrow, parseEdge]
  change ((edgeEnd _ _).bind fun start => (edgeEnd _ _).bind fun stop => some _) = _
  rw [edgeEnd_cons hfrom hstart.1 hstart.2, Option.bind_some, edgeEnd_cons hto hstop.1 hstop.2,
    Option.bind_some, hmax]

variable {raw : String → String} {up : Bool}

/-- Texts that clean to the ends of the edges, which weigh as much as an edge must. -/
def Restores (raw : String → String) (fields : Fields) : Prop :=
  ∀ edge ∈ parsedEdges fields, (clean (raw edge.start) 120 = edge.start ∧ edge.start ≠ "") ∧
    (clean (raw edge.stop) 120 = edge.stop ∧ edge.stop ≠ "") ∧ 1 / 10 ^ 9 ≤ edge.weight

theorem parsedEdges_turned (h : Restores raw fields) (up : Bool) :
    parsedEdges (turned raw up fields) = (parsedEdges fields).map (turn (nodeList fields) up) := by
  have hrows : rows (turned raw up fields) "edges" =
      (parsedEdges fields).map fun edge => edgeRow raw (turn (nodeList fields) up edge) := rfl
  rw [parsedEdges, hrows, List.filterMap_map]
  have hparse : ∀ edge ∈ parsedEdges fields,
      (parseEdge ∘ fun edge => edgeRow raw (turn (nodeList fields) up edge)) edge =
        some (turn (nodeList fields) up edge) := by
    intro edge hedge
    obtain ⟨hstart, hstop, hweight⟩ := h edge hedge
    refine parseEdge_edgeRow ?_ ?_ ?_
    · unfold turn
      split
      · exact hstart
      · exact hstop
    · unfold turn
      split
      · exact hstop
      · exact hstart
    · unfold turn
      split <;> exact hweight
  rw [List.filterMap_congr hparse]
  exact congrFun List.filterMap_eq_map' _

theorem nodeList_turned (h : Restores raw fields) (up : Bool) :
    nodeList (turned raw up fields) = nodeList fields := by
  refine nodeList_congr fun name => ?_
  have hrows : rows (turned raw up fields) "nodes" = rows fields "nodes" := rfl
  have hends (edge : ParsedEdge) : name ∈ [(turn (nodeList fields) up edge).start,
      (turn (nodeList fields) up edge).stop] ↔ name ∈ [edge.start, edge.stop] := by
    unfold turn
    split
    · rfl
    · rw [List.mem_pair, List.mem_pair]
      exact or_comm
  rw [nodeNames, nodeNames, hrows, parsedEdges_turned h, List.mem_append, List.mem_append,
    List.mem_flatMap, List.mem_flatMap]
  refine or_congr_right ⟨?_, ?_⟩
  · rintro ⟨turnedEdge, hmem, hname⟩
    obtain ⟨edge, hedge, rfl⟩ := List.mem_map.mp hmem
    exact ⟨edge, hedge, (hends edge).mp hname⟩
  · rintro ⟨edge, hedge, hname⟩
    exact ⟨_, List.mem_map_of_mem hedge, (hends edge).mpr hname⟩

def turnKey (up : Bool) (pair : ℕ × ℕ) : ℕ × ℕ := if up then ordered pair else (ordered pair).swap

theorem ordered_turnKey (up : Bool) (pair : ℕ × ℕ) : ordered (turnKey up pair) = ordered pair := by
  unfold turnKey
  split
  · exact ordered_ordered pair
  · rw [ordered_swap, ordered_ordered]

theorem edgeEntries_turned (h : Restores raw fields) (up : Bool) :
    edgeEntries (turned raw up fields) =
      (edgeEntries fields).map fun entry => (turnKey up entry.1, entry.2) := by
  rw [edgeEntries_eq, edgeEntries_eq, nodeList_turned h, parsedEdges_turned h, List.map_map, List.map_map]
  refine List.map_congr_left fun edge _ => ?_
  generalize hi : (nodeList fields).idxOf edge.start = i
  generalize hj : (nodeList fields).idxOf edge.stop = j
  have hturn : turn (nodeList fields) up edge =
      if decide (i ≤ j) = up then edge else ⟨edge.stop, edge.start, edge.weight⟩ := by rw [turn, hi, hj]
  simp only [Function.comp_apply, hturn, turnKey, ordered, hi, hj]
  by_cases hle : i ≤ j
  · cases up with
    | true => simp [hle, hi, hj]
    | false => simp [hle, hi, hj]
  · cases up with
    | true => simp [hle, hi, hj]
    | false => simp [hle, hi, hj]

theorem undEntries_turned (h : Restores raw fields) (up : Bool) :
    (edgeEntries (turned raw up fields)).map undEntry = (edgeEntries fields).map undEntry := by
  rw [edgeEntries_turned h, List.map_map]
  refine List.map_congr_left fun entry _ => ?_
  exact Prod.ext (ordered_turnKey up entry.1) rfl

/-- Turned up and turned down, an edge between different nodes leads to different nodes. -/
theorem turned_ne (h : Restores raw fields) {edge : ParsedEdge} (hedge : edge ∈ parsedEdges fields)
    (hends : edge.start ≠ edge.stop) :
    tally (edgeEntries (turned raw true fields)) ≠ tally (edgeEntries (turned raw false fields)) := by
  intro heq
  obtain ⟨hstart, hstop⟩ := ends_mem_nodeList hedge
  let pair := ((nodeList fields).idxOf edge.start, (nodeList fields).idxOf edge.stop)
  have hdiff : pair.1 ≠ pair.2 := fun h => hends ((List.idxOf_inj hstart).mp h)
  have hentry : (pair, edge.weight) ∈ edgeEntries fields := by
    rw [edgeEntries_eq]
    exact List.mem_map_of_mem hedge
  have hup : ordered pair ∈ (edgeEntries (turned raw true fields)).map Prod.fst := by
    rw [edgeEntries_turned h, List.map_map]
    exact List.mem_map.mpr ⟨(pair, edge.weight), hentry, rfl⟩
  have hdown := ((tally_eq_iff.mp heq (ordered pair)).1).mp hup
  rw [edgeEntries_turned h, List.map_map] at hdown
  obtain ⟨entry, -, hkey⟩ := List.mem_map.mp hdown
  change (ordered entry.1).swap = ordered pair at hkey
  have hle (pair : ℕ × ℕ) : (ordered pair).1 ≤ (ordered pair).2 := by
    unfold ordered
    split
    · assumption
    · exact (Nat.le_of_not_le ‹_›)
  have hback : (ordered pair).2 ≤ (ordered pair).1 := by
    rw [← hkey]
    exact hle entry.1
  have hsame : (ordered pair).1 = (ordered pair).2 := le_antisymm (hle pair) hback
  refine hdiff ?_
  unfold ordered at hsame
  split at hsame
  · exact hsame
  · exact hsame.symm

/-! ### The result -/

variable {value : Json} {graph : GraphData}

theorem loop_of_mem_undKeys {entries : List ((ℕ × ℕ) × ℚ)} (h : ∀ entry ∈ entries, entry.1.1 = entry.1.2)
    {pair : ℕ × ℕ} (hpair : ordered pair ∈ (entries.map undEntry).map Prod.fst) : pair.1 = pair.2 := by
  obtain hmem | hmem := mem_undKeys.mp hpair
  · obtain ⟨entry, hentry, rfl⟩ := List.mem_map.mp hmem
    exact h entry hentry
  · obtain ⟨entry, hentry, heq⟩ := List.mem_map.mp hmem
    have hloop := h entry hentry
    rw [heq] at hloop
    exact hloop.symm

theorem map_undEntry_loops {entries : List ((ℕ × ℕ) × ℚ)} (h : ∀ entry ∈ entries, entry.1.1 = entry.1.2) :
    entries.map undEntry = entries := by
  refine (List.map_congr_left fun entry hentry => ?_).trans (List.map_id entries)
  have hordered : ordered entry.1 = entry.1 := if_pos (h entry hentry).le
  exact Prod.ext hordered rfl

/-- Where the edges are loops the weights between the nodes say everything. -/
theorem out_eq_of_loops (hloops : ∀ edge ∈ parsedEdges fields, edge.start = edge.stop)
    (h : tally ((edgeEntries fields).map undEntry) = tally ((edgeEntries fields').map undEntry)) :
    tally (edgeEntries fields) = tally (edgeEntries fields') := by
  have hdiag : ∀ entry ∈ edgeEntries fields, entry.1.1 = entry.1.2 := by
    intro entry hentry
    rw [edgeEntries_eq] at hentry
    obtain ⟨edge, hedge, rfl⟩ := List.mem_map.mp hentry
    dsimp only
    rw [hloops edge hedge]
  have hdiag' : ∀ entry ∈ edgeEntries fields', entry.1.1 = entry.1.2 := by
    intro entry hentry
    have hkey : ordered entry.1 ∈ ((edgeEntries fields').map undEntry).map Prod.fst :=
      mem_undKeys.mpr (.inl (List.mem_map_of_mem hentry))
    exact loop_of_mem_undKeys hdiag ((tally_eq_iff.mp h _).1.mpr hkey)
  rwa [map_undEntry_loops hdiag, map_undEntry_loops hdiag'] at h

/-- The payload turned one way has the hash of the payload. -/
theorem outAdj_turned (ideal : IdealHost host)
    (h : Identified host value source (graphOf host (payloadFields value) source))
    (hnodes : nodeList (payloadFields value) ≠ []) (hmicros : InMicros (payloadFields value))
    (hdirected : isDirected (payloadFields value) = true) (hraw : Restores raw (payloadFields value))
    (up : Bool) : tally (edgeEntries (payloadFields value)) =
      tally (edgeEntries (turned raw up (payloadFields value))) := by
  have hfields : payloadFields (.obj (turned raw up (payloadFields value))) =
      turned raw up (payloadFields value) := rfl
  have hparse : parseGraphJsonValue host (.obj (turned raw up (payloadFields value))) source =
      .ok (graphOf host (turned raw up (payloadFields value)) source) :=
    parse_eq_ok.mpr ⟨by rwa [hfields, nodeList_turned hraw], by rw [hfields]⟩
  have hmicros' : InMicros (turned raw up (payloadFields value)) := by
    intro edge hedge
    rw [parsedEdges_turned hraw] at hedge
    obtain ⟨before, hbefore, rfl⟩ := List.mem_map.mp hedge
    have hweight := hmicros before hbefore
    unfold turn
    split <;> exact hweight
  have hturned : isDirected (turned raw up (payloadFields value)) = true := rfl
  have hhash := (@graphHash_eq_iff host _ _ source source ideal hmicros hmicros').mpr
    ⟨hdirected.trans hturned.symm, (nodeList_turned hraw up).symm, by rw [undEntries_turned hraw]⟩
  obtain ⟨-, -, hout⟩ := (h.hash _ _ _ hparse hmicros').mp hhash
  have htables := (outAdj_eq_iff (hdirected.trans hturned.symm) (nodeList_turned hraw up).symm).mp hout
  rwa [hdirected, flatMap_outEntry_true, flatMap_outEntry_true] at htables

/-- **What the graph hash identifies.**  With SHA-256 injective and weights in millionths, the hash of a
graph tells its direction, its nodes and its weighted edges from those of every other graph exactly when
the graph is undirected or has no edge between different nodes; and the order of the rows never matters. -/
theorem hash_identifies_iff (ideal : IdealHost host)
    (hparse : parseGraphJsonValue host value source = .ok graph)
    (hmicros : InMicros (payloadFields value)) :
    Identified host value source graph ↔ graph.directed = false ∨ LoopsOnly value := by
  obtain ⟨hnodes, rfl⟩ := parse_eq_ok.mp hparse
  have hdirection : (graphOf host (payloadFields value) source).directed =
      isDirected (payloadFields value) := rfl
  rw [hdirection]
  constructor
  · intro h
    by_contra hnot
    obtain ⟨hdirected, hloops⟩ := not_or.mp hnot
    rw [Bool.not_eq_false] at hdirected
    unfold LoopsOnly at hloops
    push Not at hloops
    obtain ⟨edge, hedge, hends⟩ := hloops
    obtain ⟨raw, hraw⟩ := exists_raw (payloadFields value)
    refine turned_ne hraw hedge hends ?_
    rw [← outAdj_turned ideal h hnodes hmicros hdirected hraw true,
      outAdj_turned ideal h hnodes hmicros hdirected hraw false]
  · intro h
    constructor
    · intro value' source' graph' hparse' hmicros'
      obtain ⟨-, rfl⟩ := parse_eq_ok.mp hparse'
      rw [graphHash_eq_iff ideal hmicros hmicros', hdirection]
      change _ ↔ _ = isDirected (payloadFields value') ∧ nodeList (payloadFields value) =
        nodeList (payloadFields value') ∧ _
      refine and_congr_right fun hsame => and_congr_right fun hsame' => ?_
      rw [outAdj_eq_iff hsame hsame']
      refine ⟨fun hund => ?_, und_eq_of_out_eq⟩
      obtain hundirected | hloops := h
      · rw [hundirected]
        exact out_eq_of_und_eq hund
      · cases hdirected : isDirected (payloadFields value) with
        | true =>
          rw [flatMap_outEntry_true, flatMap_outEntry_true]
          exact out_eq_of_loops hloops hund
        | false => exact out_eq_of_und_eq hund
    · intro value' hrearranged
      have hgraph := @graphOf_rearranged host _ _ source hrearranged
      have hsame : nodeList (payloadFields value') = nodeList (payloadFields value) :=
        congrArg GraphData.nodes hgraph
      exact parse_eq_ok.mpr ⟨hsame ▸ hnodes, hgraph.symm⟩

end Payloads

/-! ### One edge -/

def oneEdge (directed : Bool) (start stop : String) : Json :=
  Json.ofFields [("directed", .bool directed),
    ("edges", .arr [Json.ofFields [("from", .str start), ("to", .str stop)]])]

theorem inMicros_oneEdge : InMicros (payloadFields (oneEdge true "a" "b")) ∧
    InMicros (payloadFields (oneEdge true "b" "a")) ∧ InMicros (payloadFields (oneEdge false "a" "b")) := by
  have hone (directed : Bool) (start stop : String)
      (hedges : parsedEdges (payloadFields (oneEdge directed start stop)) = [⟨start, stop, 1⟩]) :
      InMicros (payloadFields (oneEdge directed start stop)) := by
    intro edge hedge
    rw [hedges, List.mem_singleton] at hedge
    subst hedge
    exact ⟨10 ^ 6, by norm_num⟩
  exact ⟨hone _ _ _ (by decide +kernel), hone _ _ _ (by decide +kernel), hone _ _ _ (by decide +kernel)⟩

/-- An undirected edge is identified. -/
theorem undirected_identified :
    ∃ graph, parseGraphJsonValue plainHost (oneEdge false "a" "b") "" = .ok graph ∧
      Identified plainHost (oneEdge false "a" "b") "" graph := by
  have hparse : parseGraphJsonValue plainHost (oneEdge false "a" "b") "" =
      .ok (graphOf plainHost (payloadFields (oneEdge false "a" "b")) "") :=
    parse_eq_ok.mpr ⟨by decide, rfl⟩
  exact ⟨_, hparse, (hash_identifies_iff plainHost_ideal hparse inMicros_oneEdge.2.2).mpr (.inl rfl)⟩

/-- An edge from `a` to `b` and one from `b` to `a` are different graphs with one hash. -/
theorem reversed_edge_same_hash :
    ¬∀ value value' graph graph', parseGraphJsonValue plainHost value "" = .ok graph →
      parseGraphJsonValue plainHost value' "" = .ok graph' → InMicros (payloadFields value) →
        InMicros (payloadFields value') → (graph.graphHash = graph'.graphHash ↔
          graph.directed = graph'.directed ∧ graph.nodes = graph'.nodes ∧
            graph.outAdj = graph'.outAdj) := by
  intro h
  have hparse (start stop : String) (hnodes : nodeList (payloadFields (oneEdge true start stop)) ≠ []) :
      parseGraphJsonValue plainHost (oneEdge true start stop) "" =
        .ok (graphOf plainHost (payloadFields (oneEdge true start stop)) "") :=
    parse_eq_ok.mpr ⟨hnodes, rfl⟩
  have hiff := h _ _ _ _ (hparse "a" "b" (by decide)) (hparse "b" "a" (by decide))
    inMicros_oneEdge.1 inMicros_oneEdge.2.1
  have hund : tally ((edgeEntries (payloadFields (oneEdge true "a" "b"))).map undEntry) =
      tally ((edgeEntries (payloadFields (oneEdge true "b" "a"))).map undEntry) :=
    ExtTreeMap.toList_inj.mp (by decide +kernel)
  have hhash : (graphOf plainHost (payloadFields (oneEdge true "a" "b")) "").graphHash =
      (graphOf plainHost (payloadFields (oneEdge true "b" "a")) "").graphHash :=
    (graphHash_eq_iff plainHost_ideal inMicros_oneEdge.1 inMicros_oneEdge.2.1).mpr
      ⟨by decide, by decide, hund⟩
  have hout : (graphOf plainHost (payloadFields (oneEdge true "a" "b")) "").outAdj ≠
      (graphOf plainHost (payloadFields (oneEdge true "b" "a")) "").outAdj := by
    decide +kernel
  exact hout (hiff.mp hhash).2.2

end Protheus.GraphToolkit
