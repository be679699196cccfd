import Protheus.Lib.Distance
import Protheus.Rag.Ingest

/-!
`memory_causal_retrieve_payload` of `rag_runtime.rs`: the trace of a causality graph from
a seed.

The loop marks a node when it takes it out of its queue, and lists it then if the graph
has it.  `Shadows` ties it to the search of `Lib/Distance`, whose visits it lists.
-/

namespace Protheus.Rag

open Std (ExtTreeMap)
open Distance RustStd

structure CausalNode where
  id : String
  eventType : String
  summary : String
  deriving DecidableEq

structure CausalEdge where
  start : String
  stop : String
  deriving DecidableEq

structure CausalityGraph where
  nodes : List CausalNode
  edges : List CausalEdge

/-- What stands at the path of the graph. -/
inductive GraphFile where
  | missing
  | invalid
  | graph (graph : CausalityGraph)

structure RetrieveArgs where
  q : Option String := none
  depth : Option String := none
  graphPath : String := ""

structure TraceRow where
  id : String
  depth : ℕ
  eventType : String
  summary : String
  deriving DecidableEq

structure Retrieved where
  query : String
  seed : String
  depth : ℕ
  traceCount : ℕ
  trace : List TraceRow
  graphPath : String
  deriving DecidableEq

/-! ## The loop -/

/-- `adjacency`. -/
def adjacency (edges : List CausalEdge) : ExtTreeMap String (List String) :=
  edges.foldl (fun rows edge => rows.insert edge.start ((rows[edge.start]?).getD [] ++ [edge.stop])) ∅

def CausalNode.row (node : CausalNode) (depth : ℕ) : TraceRow :=
  { id := node.id, depth, eventType := node.eventType, summary := node.summary }

/-- The row of a node that is taken out, if the graph has it. -/
def CausalityGraph.row? (graph : CausalityGraph) (id : String) (depth : ℕ) : Option TraceRow :=
  (graph.nodes.find? (·.id = id)).map (·.row depth)

/-- The state of the loop. -/
structure Traversal where
  visited : List String := []
  queue : List (String × ℕ)
  trace : List TraceRow := []

def traverseTurn (graph : CausalityGraph) (rows : ExtTreeMap String (List String)) (depth : ℕ)
    (s : Traversal) : Traversal :=
  match s.queue with
  | [] => s
  | (cur, d) :: queue =>
    if s.visited.contains cur then { s with queue }
    else
      let trace := match graph.row? cur d with
        | some row => s.trace ++ [row]
        | none => s.trace
      let visited := s.visited ++ [cur]
      if depth ≤ d then { visited, queue, trace }
      else { visited, queue := queue ++ ((rows[cur]?).getD []).map (·, d + 1), trace }

/-- So many turns of the loop. -/
def traverse (graph : CausalityGraph) (rows : ExtTreeMap String (List String)) (depth : ℕ) :
    ℕ → Traversal → Traversal
  | 0, s => s
  | turns + 1, s => traverse graph rows depth turns (traverseTurn graph rows depth s)

/-- The loop from a seed, for as many turns as the graph has edges and one more. -/
def traverseFrom (graph : CausalityGraph) (seed : String) (depth : ℕ) : Traversal :=
  traverse graph (adjacency graph.edges) depth (graph.edges.length + 1) { queue := [(seed, 0)] }

/-! ## The payload -/

def CausalNode.speaksOf (node : CausalNode) (q : String) : Bool :=
  strContains (toAsciiLowercase node.summary) (toAsciiLowercase q) ||
    strContains (toAsciiLowercase node.eventType) (toAsciiLowercase q)

/-- The node a query starts from. -/
def seedOf (graph : CausalityGraph) (q : String) : String :=
  let first := graph.nodes.head?.map (·.id)
  if q = "" then first.getD ""
  else (((graph.nodes.find? (·.speaksOf q)).map (·.id)).or first).getD ""

/-- `memory_causal_retrieve_payload`. -/
def memoryCausalRetrievePayload (args : RetrieveArgs) : GraphFile → Except String Retrieved
  | .missing => .error "causality_graph_missing"
  | .invalid => .error "causality_graph_invalid"
  | .graph graph =>
    let query := cleanText (args.q.getD "") 200
    let depth := parseUsize args.depth 1 6 2
    let seed := seedOf graph query
    let trace := (traverseFrom graph seed depth).trace
    .ok { query, seed, depth, traceCount := trace.length, trace, graphPath := args.graphPath }

/-! ## The trace -/

/-- The edges as pairs of nodes. -/
def CausalityGraph.pairs (graph : CausalityGraph) : List (String × String) :=
  graph.edges.map fun edge => (edge.start, edge.stop)

/-- So many edges, and no fewer, lead from a seed to a node. -/
def CausalityGraph.Away (graph : CausalityGraph) (seed : String) (depth : ℕ) (id : String) : Prop :=
  IsDistance (targets graph.pairs) seed depth id

/-- A trace lists the nodes of a graph up to a depth, each once with its distance from the
seed, the nearer ones first. -/
structure Lists (graph : CausalityGraph) (seed : String) (depth : ℕ) (trace : List TraceRow) : Prop where
  rows : ∀ row, row ∈ trace ↔ ∃ node ∈ graph.nodes, row = node.row row.depth ∧ row.depth ≤ depth ∧
    graph.Away seed row.depth node.id
  once : (trace.map (·.id)).Nodup
  ordered : trace.Pairwise fun a b => a.depth ≤ b.depth

section Trace

variable {graph : CausalityGraph} {seed : String} {depth : ℕ}

theorem getElem?_adjacency_foldl (edges : List CausalEdge) (cur : String) :
    ∀ rows : ExtTreeMap String (List String),
      ((edges.foldl (fun rows edge =>
          rows.insert edge.start ((rows[edge.start]?).getD [] ++ [edge.stop])) rows)[cur]?).getD [] =
        (rows[cur]?).getD [] ++ targets (edges.map fun edge => (edge.start, edge.stop)) cur := by
  induction edges with
  | nil => simp [targets]
  | cons edge edges ih =>
    intro rows
    rw [List.foldl_cons, ih, ExtTreeMap.getElem?_insert, List.map_cons, targets, targets]
    by_cases hcur : edge.start = cur
    · simp [hcur]
    · simp [hcur]

/-- The rows of the adjacency are where the edges lead. -/
theorem getElem?_adjacency (edges : List CausalEdge) (cur : String) :
    ((adjacency edges)[cur]?).getD [] = targets (edges.map fun edge => (edge.start, edge.stop)) cur := by
  rw [adjacency, getElem?_adjacency_foldl]
  simp

/-- A state of the loop and one of the search that have visited the same nodes. -/
structure Shadows (graph : CausalityGraph) (s : Traversal) (t : Search String) : Prop where
  visited : s.visited = t.visited
  queue : s.queue = t.queue
  trace : s.trace = t.visits.filterMap fun row => graph.row? row.1 row.2

theorem Shadows.turn {s : Traversal} {t : Search String} (h : Shadows graph s t) :
    Shadows graph (traverseTurn graph (adjacency graph.edges) depth s)
      (turn graph.pairs depth t) := by
  obtain ⟨hnil, hturn⟩ | ⟨cur, d, rest, hqueue, hcur, hturn⟩ | ⟨cur, d, rest, hqueue, hcur, hturn⟩ :=
    turn_cases graph.pairs depth t
  · rw [hturn, traverseTurn, h.queue, hnil]
    exact h
  · rw [hturn, traverseTurn, h.queue, hqueue]
    dsimp only
    rw [if_pos (by simpa [h.visited] using hcur)]
    exact ⟨h.visited, rfl, h.trace⟩
  · rw [hturn, traverseTurn, h.queue, hqueue]
    dsimp only
    rw [if_neg (by simpa [h.visited] using hcur), getElem?_adjacency]
    have hvisited : s.visited ++ [cur] = (t.visits ++ [(cur, d)]).map Prod.fst := by
      rw [h.visited, List.map_append]
      rfl
    have htrace : (match graph.row? cur d with
        | some row => s.trace ++ [row]
        | none => s.trace) = (t.visits ++ [(cur, d)]).filterMap fun row => graph.row? row.1 row.2 := by
      rw [List.filterMap_append, ← h.trace]
      cases hrow : graph.row? cur d with
      | none => simp [hrow]
      | some row => simp [hrow]
    split
    · exact ⟨hvisited, (List.append_nil _).symm, htrace⟩
    · exact ⟨hvisited, rfl, htrace⟩

theorem Shadows.traverse : ∀ {turns : ℕ} {s : Traversal} {t : Search String}, Shadows graph s t →
    Shadows graph (traverse graph (adjacency graph.edges) depth turns s) (search graph.pairs depth turns t)
  | 0, _, _, h => h
  | turns + 1, _, _, h => @Shadows.traverse turns _ _ h.turn

theorem shadows_traverseFrom (graph : CausalityGraph) (seed : String) (depth : ℕ) :
    Shadows graph (traverseFrom graph seed depth)
      (search graph.pairs depth (graph.pairs.length + 1) { queue := [(seed, 0)] }) := by
  have hlength : graph.pairs.length = graph.edges.length := List.length_map _
  rw [hlength]
  exact Shadows.traverse ⟨rfl, rfl, rfl⟩

/-- A row of a node that the graph has. -/
theorem row?_eq_some (hdistinct : (graph.nodes.map (·.id)).Nodup) {id : String} {d : ℕ} {row : TraceRow} :
    graph.row? id d = some row ↔ ∃ node ∈ graph.nodes, node.id = id ∧ row = node.row d := by
  rw [CausalityGraph.row?, Option.map_eq_some_iff]
  constructor
  · rintro ⟨node, hfind, rfl⟩
    exact ⟨node, List.mem_of_find?_eq_some hfind, by simpa using List.find?_some hfind, rfl⟩
  · rintro ⟨node, hnode, hid, rfl⟩
    refine ⟨node, ?_, rfl⟩
    cases hfind : graph.nodes.find? (·.id = id) with
    | none => exact absurd hid (by simpa using List.find?_eq_none.mp hfind node hnode)
    | some other =>
      have hother : other.id = id := by simpa using List.find?_some hfind
      rw [List.inj_on_of_nodup_map hdistinct (List.mem_of_find?_eq_some hfind) hnode
        (hother.trans hid.symm)]

theorem lists_traverseFrom (hdistinct : (graph.nodes.map (·.id)).Nodup) (seed : String) (depth : ℕ) :
    (traverseFrom graph seed depth).queue = [] ∧
      Lists graph seed depth (traverseFrom graph seed depth).trace := by
  have hshadow := shadows_traverseFrom graph seed depth
  obtain ⟨hover, hsound, hvisits⟩ := search_start graph.pairs depth seed
  generalize search graph.pairs depth (graph.pairs.length + 1) { queue := [(seed, 0)] } = t at *
  refine ⟨hshadow.queue.trans hover, ?_, ?_, ?_⟩
  · intro row
    rw [hshadow.trace, List.mem_filterMap]
    constructor
    · rintro ⟨⟨id, d⟩, hvisit, hrow⟩
      obtain ⟨node, hnode, rfl, rfl⟩ := (row?_eq_some hdistinct).mp hrow
      obtain ⟨hd, haway⟩ := (hvisits node.id d).mp hvisit
      exact ⟨node, hnode, rfl, hd, haway⟩
    · rintro ⟨node, hnode, hrow, hd, haway⟩
      exact ⟨(node.id, row.depth), (hvisits _ _).mpr ⟨hd, haway⟩,
        (row?_eq_some hdistinct).mpr ⟨node, hnode, rfl, hrow⟩⟩
  · have hids : ((t.visits.filterMap fun row => graph.row? row.1 row.2).map (·.id)).Sublist
        (t.visits.map Prod.fst) := by
      induction t.visits with
      | nil => exact .slnil
      | cons visit visits ih =>
        rw [List.map_cons, List.filterMap_cons]
        cases hrow : graph.row? visit.1 visit.2 with
        | none => exact ih.cons _
        | some row =>
          obtain ⟨node, -, hid, rfl⟩ := (row?_eq_some hdistinct).mp hrow
          rw [← hid]
          exact ih.cons_cons _
    rw [hshadow.trace]
    exact hsound.nodup.sublist hids
  · have hsorted : t.visits.Pairwise fun a b => a.2 ≤ b.2 :=
      (List.pairwise_append.mp hsound.sorted).1
    rw [hshadow.trace]
    refine hsorted.filterMap _ fun a b hab row hrow row' hrow' => ?_
    obtain ⟨node, -, -, rfl⟩ := (row?_eq_some hdistinct).mp hrow
    obtain ⟨node', -, -, rfl⟩ := (row?_eq_some hdistinct).mp hrow'
    exact hab

/-- **A retrieval lists distances.**  For every graph whose nodes differ in their ids the loop ends, from
every seed and for every bound on the depth, and its trace lists the nodes up to the bound with their
distances from the seed; and the trace of every answer is the one for the seed and the depth it reports,
which are those of its arguments. -/
theorem retrieval_lists_distances (graph : CausalityGraph) (hdistinct : (graph.nodes.map (·.id)).Nodup) :
    (∀ seed depth, (traverseFrom graph seed depth).queue = [] ∧
      Lists graph seed depth (traverseFrom graph seed depth).trace) ∧
    ∀ args, ∃ out, memoryCausalRetrievePayload args (.graph graph) = .ok out ∧
      out.seed = seedOf graph (cleanText (args.q.getD "") 200) ∧ out.depth = parseUsize args.depth 1 6 2 ∧
        out.traceCount = out.trace.length ∧ Lists graph out.seed out.depth out.trace := by
  refine ⟨lists_traverseFrom hdistinct, fun args => ?_⟩
  have hlists := lists_traverseFrom hdistinct (seedOf graph (cleanText (args.q.getD "") 200))
    (parseUsize args.depth 1 6 2)
  refine ⟨_, rfl, ?_⟩
  dsimp only
  exact ⟨rfl, rfl, rfl, hlists.2⟩

/-- A cycle of three with an edge that is there twice and a loop. -/
theorem ring_lists_distances :
    let graph : CausalityGraph :=
      { nodes := [⟨"a", "event", ""⟩, ⟨"b", "event", ""⟩, ⟨"c", "event", ""⟩]
        edges := [⟨"a", "b"⟩, ⟨"a", "b"⟩, ⟨"b", "b"⟩, ⟨"b", "x"⟩, ⟨"x", "c"⟩, ⟨"b", "c"⟩, ⟨"c", "a"⟩] }
    (traverseFrom graph "a" 2).trace.map (fun row => (row.id, row.depth)) = [("a", 0), ("b", 1), ("c", 2)] ∧
      Lists graph "a" 2 (traverseFrom graph "a" 2).trace := by
  intro graph
  exact ⟨by decide, ((retrieval_lists_distances graph (by decide)).1 "a" 2).2⟩

end Trace

end Protheus.Rag
