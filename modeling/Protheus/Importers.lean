import Protheus.Decompose.Text
import Protheus.Json
import Protheus.Lib.Labels

/-!
The importers of `core/layer2/execution/src/importers.rs`: what a dump of another agent stack
comes to in the canonical lists.

Each source item becomes one entity that carries it unchanged, under an id made of its name by
`normalize_token` or numbered by its place.  Names that come to one token come to one id: when
the ids of a list differ is said by `Labels.Apart` and `Labels.Block.Meets`
(`entities_of_items`).
-/

namespace Protheus.Importers

open RustStd Labels
open MemoryIndex (lowerChar)

/-! ## Tokens -/

/-- The characters `normalize_token` keeps. -/
def isAllowed (ch : Char) : Bool :=
  ('a' ≤ ch && ch ≤ 'z') || ch.isDigit || ['_', '.', ':', '-'].contains ch

/-- One character: what is put out, and whether it ends in an underscore. -/
def tokenStep (state : List Char × Bool) (ch : Char) : List Char × Bool :=
  let mapped := if isAllowed ch then ch else '_'
  if mapped = '_' then
    if state.2 then state else (state.1 ++ ['_'], true)
  else (state.1 ++ [mapped], false)

/-- `normalize_token`. -/
def normalizeToken (input : String) : String :=
  let out := (((trim input).toList.flatMap lowerChar).foldl tokenStep ([], false)).1
  String.ofList (trimMatches '_' out)

/-- The token of a text, if anything is left of it. -/
def token? (text : String) : Option String := some (normalizeToken text) |>.filter (· ≠ "")

/-! ## What an importer returns -/

/-- The canonical lists. -/
structure Entities (α : Type*) where
  agents : List α := []
  tasks : List α := []
  workflows : List α := []
  tools : List α := []
  records : List α := []

namespace Entities

variable {α β : Type*}

def map (f : α → β) (e : Entities α) : Entities β where
  agents := e.agents.map f
  tasks := e.tasks.map f
  workflows := e.workflows.map f
  tools := e.tools.map f
  records := e.records.map f

def count (e : Entities α) : ℕ :=
  e.agents.length + e.tasks.length + e.workflows.length + e.tools.length + e.records.length

end Entities

/-- The payload of the answer; a `usize` that counts what is in memory does not wrap. -/
structure Imported where
  entities : Entities Json
  sourceItemCount : ℕ
  mappedItemCount : ℕ

/-- The answer. -/
def Imported.toJson (imported : Imported) : Json :=
  .ofFields [
    ("ok", .bool true),
    ("payload", .ofFields [
      ("entities", .ofFields [
        ("agents", .arr imported.entities.agents),
        ("tasks", .arr imported.entities.tasks),
        ("workflows", .arr imported.entities.workflows),
        ("tools", .arr imported.entities.tools),
        ("records", .arr imported.entities.records)]),
      ("source_item_count", .ofNat imported.sourceItemCount),
      ("mapped_item_count", .ofNat imported.mappedItemCount),
      ("warnings", .arr [])])]

/-- An importer from text to text; `fromStr` is `serde_json::from_str`. -/
def runImporter (fromStr : String → Except String Json) (printFloat : ℚ → String)
    (importer : Json → Imported) (payload : String) : Except String String :=
  match fromStr payload with
  | .error err => .error s!"payload_json_parse_failed:{err}"
  | .ok parsed => .ok ((importer parsed).toJson.render printFloat)

/-- The array under a key of the payload, empty when there is none. -/
def rowsOf (parsed : Json) (key : String) : List Json := ((parsed.get? key).bind Json.asArray).getD []

/-! ## The generic importer -/

def record (id bucket : String) (source : Json) : Json :=
  .ofFields [("id", .str id), ("bucket", .str bucket), ("source", source)]

/-- The word the records of an array are numbered under. -/
def recordPrefix (bucket : String) : String :=
  let base := normalizeToken bucket
  if base = "" then "record" else base

/-- The id of a record that stands alone, with so many records before it. -/
def recordId (before : ℕ) (bucket : String) : String :=
  let base := normalizeToken bucket
  if base = "" then numbered "record" before else base

/-- One field of the payload: the records and the items counted so far. -/
def genericStep (state : List Json × ℕ) (field : String × Json) : List Json × ℕ :=
  let bucket := field.1
  match field.2.asArray with
  | some rows =>
    (state.1 ++ rows.mapIdx fun idx row => record (numbered (recordPrefix bucket) idx) bucket row,
      state.2 + rows.length)
  | none => (state.1 ++ [record (recordId state.1.length bucket) bucket field.2], state.2 + 1)

/-- `run_importer_generic_json_json`, on the parsed payload. -/
def importGenericJson (parsed : Json) : Imported :=
  let obj := parsed.asObject.getD []
  let (records, sourceItemCount) := obj.foldl genericStep ([], 0)
  { entities := { records }, sourceItemCount, mappedItemCount := records.length }

/-- `run_importer_generic_json_json`. -/
def runImporterGenericJsonJson (fromStr : String → Except String Json) (printFloat : ℚ → String) :
    String → Except String String :=
  runImporter fromStr printFloat importGenericJson

/-! ## The OpenFang importer -/

/-- A text of a row, trimmed, if anything is left of it. -/
def rowText? (row : Json) (key : String) : Option String :=
  (((row.get? key).bind Json.asStr).map trim).filter (· ≠ "")

def rowName? (row : Json) : Option String := (rowText? row "name").or (rowText? row "id")

/-- `coerce_row_name`. -/
def coerceRowName (row : Json) (kind : String) (idx : ℕ) : String := (rowName? row).getD (numbered kind idx)

def mapOpenfangRow (kind : String) (idx : ℕ) (row : Json) : Json :=
  let name := coerceRowName row kind idx
  let id := (token? name).getD (numbered kind idx)
  .ofFields [("id", .str id), ("name", .str name), ("source_kind", .str kind), ("source", row)]

/-- `map_openfang_rows`. -/
def mapOpenfangRows (rows : List Json) (kind : String) : List Json := rows.mapIdx (mapOpenfangRow kind)

/-- `run_importer_openfang_json`, on the parsed payload. -/
def importOpenfang (parsed : Json) : Imported :=
  let sourceAgents := rowsOf parsed "agents"
  let sourceTasks := rowsOf parsed "tasks"
  let sourceWorkflows := rowsOf parsed "workflows"
  let sourceTools := rowsOf parsed "tools"
  let agents := mapOpenfangRows sourceAgents "agent"
  let tasks := mapOpenfangRows sourceTasks "task"
  let workflows := mapOpenfangRows sourceWorkflows "workflow"
  let tools := mapOpenfangRows sourceTools "tool"
  { entities := { agents, tasks, workflows, tools }
    sourceItemCount :=
      sourceAgents.length + sourceTasks.length + sourceWorkflows.length + sourceTools.length
    mappedItemCount := agents.length + tasks.length + workflows.length + tools.length }

/-- `run_importer_openfang_json`. -/
def runImporterOpenfangJson (fromStr : String → Except String Json) (printFloat : ℚ → String) :
    String → Except String String :=
  runImporter fromStr printFloat importOpenfang

/-! ## The workflow graph importer -/

/-- `value_to_plain_string`. -/
def valueToPlainString (printFloat : ℚ → String) : Option Json → String
  | some (.str v) => v
  | some (.num v) => Json.renderNumber printFloat v
  | some (.bool v) => if v then "true" else "false"
  | _ => ""

/-- What a node is known by: its id, or its name. -/
def nodeKey (printFloat : ℚ → String) (node : Json) : String :=
  let id := valueToPlainString printFloat (node.get? "id")
  if id ≠ "" then id else valueToPlainString printFloat (node.get? "name")

def nodeId (printFloat : ℚ → String) (idx : ℕ) (node : Json) : String :=
  let fallback := numbered "node" idx
  let key := nodeKey printFloat node
  let candidate := if key = "" then fallback else key
  (token? candidate).getD fallback

def nodeName (printFloat : ℚ → String) (idx : ℕ) (node : Json) : String :=
  let name := valueToPlainString printFloat (node.get? "name")
  let key := nodeKey printFloat node
  if name ≠ "" then name else if key ≠ "" then key else numbered "node" idx

def edgeFrom (printFloat : ℚ → String) (edge : Json) : String :=
  valueToPlainString printFloat (edge.get? "from")

/-- The edges that start at what a node is known by. -/
def edgesOut (printFloat : ℚ → String) (edges : List Json) (node : Json) : ℕ :=
  edges.countP fun edge => edgeFrom printFloat edge = nodeKey printFloat node

/-- The entity of one node. -/
def workflow (printFloat : ℚ → String) (edges : List Json) (idx : ℕ) (node : Json) : Json :=
  .ofFields [
    ("id", .str (nodeId printFloat idx node)),
    ("name", .str (nodeName printFloat idx node)),
    ("edges_out", .ofNat (edgesOut printFloat edges node)),
    ("source", node)]

/-- `run_importer_workflow_graph_json`, on the parsed payload. -/
def importWorkflowGraph (printFloat : ℚ → String) (parsed : Json) : Imported :=
  let nodes := rowsOf parsed "nodes"
  let edges := rowsOf parsed "edges"
  let workflows := nodes.mapIdx (workflow printFloat edges)
  let records := edges.mapIdx fun idx edge => record (numbered "edge" idx) "edge" edge
  { entities := { workflows, records }
    sourceItemCount := nodes.length + edges.length
    mappedItemCount := workflows.length + records.length }

/-- `run_importer_workflow_graph_json`. -/
def runImporterWorkflowGraphJson (fromStr : String → Except String Json) (printFloat : ℚ → String) :
    String → Except String String :=
  runImporter fromStr printFloat (importWorkflowGraph printFloat)

/-! ## Numbered words are tokens -/

/-- Characters a token keeps, none of them an underscore. -/
def IsPlain (l : List Char) : Prop := l ≠ [] ∧ ∀ c ∈ l, isAllowed c = true ∧ c ≠ '_'

instance (l : List Char) : Decidable (IsPlain l) :=
  decidable_of_iff (l ≠ [] ∧ l.all (fun c => isAllowed c && c != '_') = true) (by simp [IsPlain])

theorem isTokenChar_of_isAllowed {c : Char} (h : isAllowed c = true) : Decompose.isTokenChar c = true := by
  simp only [isAllowed, Bool.or_eq_true, List.contains_iff_mem] at h
  simp only [Decompose.isTokenChar, Bool.or_eq_true, List.contains_iff_mem]
  refine h.imp_right fun hmem => ?_
  simp only [List.mem_cons, List.not_mem_nil, or_false] at hmem ⊢
  tauto

theorem foldl_tokenStep_plain {l : List Char} (h : IsPlain l) (state : List Char × Bool) :
    l.foldl tokenStep state = (state.1 ++ l, false) := by
  obtain ⟨hne, hl⟩ := h
  induction l generalizing state with
  | nil => exact absurd rfl hne
  | cons c l ih =>
    obtain ⟨hallowed, hother⟩ := hl c (.head _)
    have hstep : tokenStep state c = (state.1 ++ [c], false) := by
      simp only [tokenStep, if_pos hallowed, if_neg hother]
    rw [List.foldl_cons, hstep]
    by_cases hnil : l = []
    · rw [hnil]
      rfl
    · rw [ih _ hnil fun d hd => hl d (.tail _ hd), List.append_assoc]
      rfl

theorem isPlain_digits (n : ℕ) : IsPlain (toString n).toList := by
  constructor
  · exact fun h => Nat.repr_ne_empty (String.toList_injective h)
  · intro c hc
    have hdigit := RustStd.isDigit_of_mem_toString hc
    refine ⟨by simp [isAllowed, hdigit], ?_⟩
    rintro rfl
    cases hdigit

theorem normalizeToken_numbered {word : String} (hword : IsPlain word.toList) (k : ℕ) :
    normalizeToken (numbered word k) = numbered word k := by
  have hdigits := isPlain_digits (k + 1)
  have hlist := toList_numbered word k
  have hkept : ∀ c ∈ (numbered word k).toList, isAllowed c = true := by
    intro c hc
    rw [hlist] at hc
    rcases List.mem_append.mp hc with hmem | hmem
    · exact (hword.2 c hmem).1
    · rcases List.mem_cons.mp hmem with rfl | hmem
      · rfl
      · exact (hdigits.2 c hmem).1
  have htrim : trim (numbered word k) = numbered word k :=
    trim_eq_self fun c hc => (Decompose.of_isTokenChar (isTokenChar_of_isAllowed (hkept c hc))).1
  have hlower : (numbered word k).toList.flatMap lowerChar = (numbered word k).toList :=
    Decompose.flatMap_lowerChar fun c hc => isTokenChar_of_isAllowed (hkept c hc)
  have hfold : (numbered word k).toList.foldl tokenStep ([], false) = ((numbered word k).toList, false) := by
    rw [hlist, List.foldl_append, foldl_tokenStep_plain hword, List.foldl_cons, foldl_tokenStep_plain hdigits]
    simp [tokenStep]
  have hmatches : trimMatches '_' (numbered word k).toList = (numbered word k).toList := by
    refine trimMatches_eq_self (fun d hd => ?_) (fun d hd => ?_)
    · rw [hlist, List.head?_append_of_ne_nil _ hword.1] at hd
      exact (hword.2 d (List.mem_of_mem_head? hd)).2
    · rw [hlist, List.getLast?_append_of_ne_nil _ (List.cons_ne_nil _ _), List.getLast?_cons_of_ne_nil hdigits.1] at hd
      exact (hdigits.2 d (List.mem_of_mem_getLast? hd)).2
  rw [normalizeToken, htrim, hlower, hfold, hmatches, String.ofList_toList]

theorem token?_numbered {word : String} (hword : IsPlain word.toList) (k : ℕ) :
    token? (numbered word k) = some (numbered word k) := by
  have hne : numbered word k ≠ "" := fun h => by
    have hlist := congrArg String.toList h
    rw [toList_numbered] at hlist
    simp at hlist
  simp [token?, normalizeToken_numbered hword, hne]

/-! ## Reading the entities -/

def idsOf (entities : List Json) : List (Option Json) := entities.map (·.get? "id")

/-- What the entities carry. -/
def sourcesOf (entities : List Json) : List (Option Json) := entities.map (·.get? "source")

/-- Entities that carry their items, whatever their places. -/
theorem sourcesOf_mapIdx {f : ℕ → Json → Json} (h : ∀ idx row, (f idx row).get? "source" = some row)
    (rows : List Json) : sourcesOf (rows.mapIdx f) = rows.map some :=
  List.ext_getElem (by simp [sourcesOf]) (by simp [sourcesOf, h])

/-- Entities under the labels of their items. -/
theorem idsOf_mapIdx {f : ℕ → Json → Json} {spare : ℕ → String} {own : Json → Option String}
    (h : ∀ idx row, (f idx row).get? "id" = some (.str ((own row).getD (spare idx)))) (rows : List Json) :
    idsOf (rows.mapIdx f) = (labels spare (rows.map own)).map fun id => some (.str id) :=
  List.ext_getElem (by simp [idsOf, labels]) (by simp [idsOf, labels, h])

/-- One entity for each item, in the item's list and at its place. -/
structure OneForEach (imported : Imported) (items : Entities Json) : Prop where
  sources : imported.entities.map (·.get? "source") = items.map some
  sourceItemCount : imported.sourceItemCount = imported.entities.count
  mappedItemCount : imported.mappedItemCount = imported.entities.count

theorem nodup_ids_iff {entities : List Json} {ids : List String}
    (h : idsOf entities = ids.map fun id => some (.str id)) : (idsOf entities).Nodup ↔ ids.Nodup := by
  rw [h]
  exact List.nodup_map_iff fun a b heq => Json.str.inj (Option.some.inj heq)

theorem record_id (id bucket : String) (source : Json) :
    (record id bucket source).get? "id" = some (.str id) :=
  Json.get?_ofFields_mem (by simp) (by simp)

theorem record_source (id bucket : String) (source : Json) :
    (record id bucket source).get? "source" = some source :=
  Json.get?_ofFields_mem (by simp) (by simp)

/-! ## The generic importer -/

def fieldItems (value : Json) : List Json :=
  match value.asArray with
  | some rows => rows
  | none => [value]

def fieldRecords (before : ℕ) (field : String × Json) : List Json :=
  match field.2.asArray with
  | some rows => rows.mapIdx fun idx row => record (numbered (recordPrefix field.1) idx) field.1 row
  | none => [record (recordId before field.1) field.1 field.2]

/-- The ids a field gives. -/
def fieldBlock (before : ℕ) (field : String × Json) : Block String String :=
  match field.2.asArray with
  | some rows => .run (recordPrefix field.1) rows.length
  | none => .one (recordId before field.1)

/-- The blocks of ids of the fields, with so many records before them. -/
def fieldBlocks : ℕ → List (String × Json) → List (Block String String)
  | _, [] => []
  | before, field :: rest =>
    fieldBlock before field :: fieldBlocks (before + (fieldItems field.2).length) rest

theorem genericStep_eq (state : List Json × ℕ) (field : String × Json) :
    genericStep state field =
      (state.1 ++ fieldRecords state.1.length field, state.2 + (fieldItems field.2).length) := by
  unfold genericStep fieldRecords fieldItems
  cases field.2.asArray with
  | none => rfl
  | some rows => rfl

theorem sources_fieldRecords (before : ℕ) (field : String × Json) :
    sourcesOf (fieldRecords before field) = (fieldItems field.2).map some := by
  unfold fieldRecords fieldItems
  cases field.2.asArray with
  | none => rw [sourcesOf, List.map_singleton, record_source, List.map_singleton]
  | some rows =>
    exact sourcesOf_mapIdx (fun _ row => record_source _ _ row) rows

theorem ids_fieldRecords (before : ℕ) (field : String × Json) :
    idsOf (fieldRecords before field) =
      ((fieldBlock before field).labels numbered).map fun id => some (.str id) := by
  unfold fieldRecords fieldBlock
  cases field.2.asArray with
  | none => rw [idsOf, List.map_singleton, record_id, Block.labels, List.map_singleton]
  | some rows =>
    exact List.ext_getElem (by simp [idsOf, Block.labels]) fun i h h' => by simp [idsOf, record_id, Block.labels]

theorem length_fieldRecords (before : ℕ) (field : String × Json) :
    (fieldRecords before field).length = (fieldItems field.2).length := by
  simpa [sourcesOf] using congrArg List.length (sources_fieldRecords before field)

/-- All fields: the items in their order, each carried by one record, under the ids of the blocks. -/
theorem foldl_genericStep (fields : List (String × Json)) (state : List Json × ℕ) :
    let out := fields.foldl genericStep state
    sourcesOf out.1 = sourcesOf state.1 ++ (fields.flatMap fun field => fieldItems field.2).map some ∧
      idsOf out.1 = idsOf state.1 ++
        ((fieldBlocks state.1.length fields).flatMap (Block.labels numbered)).map (fun id => some (.str id)) ∧
      out.2 = state.2 + (fields.flatMap fun field => fieldItems field.2).length := by
  induction fields generalizing state with
  | nil => simp [fieldBlocks]
  | cons field fields ih =>
    obtain ⟨hsources, hids, hcount⟩ := ih (genericStep state field)
    rw [List.foldl_cons]
    refine ⟨hsources.trans ?_, hids.trans ?_, hcount.trans ?_⟩
    · rw [genericStep_eq, sourcesOf, List.map_append, ← sourcesOf, ← sourcesOf, sources_fieldRecords,
        List.flatMap_cons, List.map_append, List.append_assoc]
    · rw [genericStep_eq, idsOf, List.map_append, ← idsOf, ← idsOf, ids_fieldRecords, fieldBlocks,
        List.flatMap_cons, List.map_append, List.append_assoc, List.length_append, length_fieldRecords]
    · rw [genericStep_eq, List.flatMap_cons, List.length_append, Nat.add_assoc]

def genericItems (parsed : Json) : Entities Json where
  records := (parsed.asObject.getD []).flatMap fun field => fieldItems field.2

theorem oneForEach_generic (parsed : Json) : OneForEach (importGenericJson parsed) (genericItems parsed) := by
  obtain ⟨hsources, -, hcount⟩ := foldl_genericStep (parsed.asObject.getD []) ([], 0)
  have hlength := congrArg List.length hsources
  rw [sourcesOf, List.length_map] at hlength
  constructor
  · simp only [Entities.map, importGenericJson, genericItems, List.map_nil, Entities.mk.injEq, true_and]
    exact hsources
  · simp only [Entities.count, importGenericJson, List.length_nil, Nat.zero_add]
    rw [hcount, hlength]
    simp [sourcesOf]
  · simp only [Entities.count, importGenericJson, List.length_nil, Nat.zero_add]

theorem nodup_generic_iff (parsed : Json) : (idsOf (importGenericJson parsed).entities.records).Nodup ↔
    (fieldBlocks 0 (parsed.asObject.getD [])).Pairwise fun a b => ¬ a.Meets numbered b := by
  obtain ⟨-, hids, -⟩ := foldl_genericStep (parsed.asObject.getD []) ([], 0)
  exact (nodup_ids_iff hids).trans (Block.nodup_blocks_iff numbered_inj _)

/-! ## The OpenFang importer -/

def rowToken? (row : Json) : Option String := (rowName? row).bind token?

theorem mapOpenfangRow_source (kind : String) (idx : ℕ) (row : Json) :
    (mapOpenfangRow kind idx row).get? "source" = some row :=
  Json.get?_ofFields_mem (by simp) (by simp)

/-- A row's id is the token of its name, or numbered by its place. -/
theorem mapOpenfangRow_id {kind : String} (hkind : IsPlain kind.toList) (idx : ℕ) (row : Json) :
    (mapOpenfangRow kind idx row).get? "id" = some (.str ((rowToken? row).getD (numbered kind idx))) := by
  have hid : (token? (coerceRowName row kind idx)).getD (numbered kind idx) =
      (rowToken? row).getD (numbered kind idx) := by
    unfold coerceRowName rowToken?
    cases rowName? row with
    | none => rw [Option.getD_none, token?_numbered hkind, Option.bind_none, Option.getD_some, Option.getD_none]
    | some name => rw [Option.getD_some, Option.bind_some]
  rw [← hid, mapOpenfangRow]
  exact Json.get?_ofFields_mem (by simp) (by simp)

theorem nodup_openfang_iff {kind : String} (hkind : IsPlain kind.toList) (rows : List Json) :
    (idsOf (mapOpenfangRows rows kind)).Nodup ↔ Apart (numbered kind) (rows.map rowToken?) :=
  (nodup_ids_iff (idsOf_mapIdx (mapOpenfangRow_id hkind) rows)).trans
    (nodup_labels_iff (numbered_injective kind))

def openfangItems (parsed : Json) : Entities Json where
  agents := rowsOf parsed "agents"
  tasks := rowsOf parsed "tasks"
  workflows := rowsOf parsed "workflows"
  tools := rowsOf parsed "tools"

theorem oneForEach_openfang (parsed : Json) : OneForEach (importOpenfang parsed) (openfangItems parsed) := by
  have hsources (kind : String) (rows : List Json) :
      sourcesOf (mapOpenfangRows rows kind) = rows.map some :=
    sourcesOf_mapIdx (mapOpenfangRow_source kind) rows
  constructor
  · simp only [sourcesOf] at hsources
    simp only [Entities.map, importOpenfang, openfangItems, hsources, List.map_nil]
  · simp [Entities.count, importOpenfang, mapOpenfangRows]
  · simp [Entities.count, importOpenfang]

/-! ## The workflow graph importer -/

section Graph

variable (printFloat : ℚ → String)

/-- The token of what a node is known by. -/
def nodeToken? (node : Json) : Option String := token? (nodeKey printFloat node)

theorem token?_empty : token? "" = none := by decide

theorem workflow_source (edges : List Json) (idx : ℕ) (node : Json) :
    (workflow printFloat edges idx node).get? "source" = some node :=
  Json.get?_ofFields_mem (by simp) (by simp)

theorem workflow_edgesOut (edges : List Json) (idx : ℕ) (node : Json) :
    (workflow printFloat edges idx node).get? "edges_out" = some (.ofNat (edgesOut printFloat edges node)) :=
  Json.get?_ofFields_mem (by simp) (by simp)

/-- A node's id is the token of what it is known by, or numbered by its place. -/
theorem workflow_id (edges : List Json) (idx : ℕ) (node : Json) :
    (workflow printFloat edges idx node).get? "id" =
      some (.str ((nodeToken? printFloat node).getD (numbered "node" idx))) := by
  have hnode : IsPlain "node".toList := by decide
  have hid : nodeId printFloat idx node = (nodeToken? printFloat node).getD (numbered "node" idx) := by
    unfold nodeId nodeToken?
    dsimp only
    split
    · rename_i hempty
      rw [hempty, token?_numbered hnode, token?_empty]
      rfl
    · rfl
  rw [← hid]
  exact Json.get?_ofFields_mem (by simp) (by simp)

theorem nodup_workflows_iff (parsed : Json) :
    (idsOf (importWorkflowGraph printFloat parsed).entities.workflows).Nodup ↔
      Apart (numbered "node") ((rowsOf parsed "nodes").map (nodeToken? printFloat)) :=
  (nodup_ids_iff (idsOf_mapIdx (workflow_id printFloat (rowsOf parsed "edges")) _)).trans
    (nodup_labels_iff (numbered_injective "node"))

theorem nodup_edges (parsed : Json) :
    (idsOf (importWorkflowGraph printFloat parsed).entities.records).Nodup := by
  have hids : idsOf (importWorkflowGraph printFloat parsed).entities.records =
      ((Block.run "edge" (rowsOf parsed "edges").length).labels numbered).map fun id => some (.str id) :=
    List.ext_getElem (by simp [idsOf, importWorkflowGraph, Block.labels]) fun i h h' => by
      simp [idsOf, importWorkflowGraph, record_id, Block.labels]
  exact (nodup_ids_iff hids).mpr (Block.nodup_labels numbered_inj _)

/-- The items of a payload for the workflow graph importer. -/
def graphItems (parsed : Json) : Entities Json where
  workflows := rowsOf parsed "nodes"
  records := rowsOf parsed "edges"

theorem oneForEach_graph (parsed : Json) :
    OneForEach (importWorkflowGraph printFloat parsed) (graphItems parsed) := by
  constructor
  · have hnodes := sourcesOf_mapIdx (workflow_source printFloat (rowsOf parsed "edges")) (rowsOf parsed "nodes")
    have hedges := sourcesOf_mapIdx (f := fun idx edge => record (numbered "edge" idx) "edge" edge)
      (fun idx edge => record_source _ _ edge) (rowsOf parsed "edges")
    simp only [sourcesOf] at hnodes hedges
    simp only [Entities.map, importWorkflowGraph, graphItems, hnodes, hedges, List.map_nil]
  · simp [Entities.count, importWorkflowGraph]
  · simp [Entities.count, importWorkflowGraph]

/-- How many of a list go to each of some keys, together. -/
theorem sum_countP_eq {α κ : Type*} [DecidableEq κ] (f : α → κ) {keys : List κ} (hkeys : keys.Nodup)
    (l : List α) : (keys.map fun key => l.countP (f · = key)).sum = l.countP (f · ∈ keys) := by
  have hone (a : α) : (keys.map fun key => if f a = key then 1 else 0).sum = keys.count (f a) := by
    clear hkeys
    induction keys with
    | nil => rfl
    | cons key keys ih =>
      rw [List.map_cons, List.sum_cons, ih, List.count_cons, Nat.add_comm]
      by_cases hkey : f a = key
      · simp [hkey]
      · simp [hkey, Ne.symm hkey]
  induction l with
  | nil => simp
  | cons a l ih =>
    simp only [List.countP_cons, List.sum_map_add, ih, decide_eq_true_eq]
    rw [hone, hkeys.count]

def nodeOwnId (node : Json) : String := valueToPlainString printFloat (node.get? "id")

/-- Each edge that starts at a node is counted at that node only. -/
theorem sum_edgesOut {nodes : List Json} (edges : List Json)
    (hdistinct : (nodes.map (nodeOwnId printFloat)).Nodup) (hne : ∀ node ∈ nodes, nodeOwnId printFloat node ≠ "") :
    (nodes.map (edgesOut printFloat edges)).sum =
      edges.countP fun edge => edgeFrom printFloat edge ∈ nodes.map (nodeOwnId printFloat) := by
  have hkey : ∀ node ∈ nodes, nodeKey printFloat node = nodeOwnId printFloat node :=
    fun node hnode => if_pos (hne node hnode)
  rw [← sum_countP_eq (edgeFrom printFloat) hdistinct edges, List.map_map]
  refine congrArg List.sum (List.map_congr_left fun node hnode => ?_)
  rw [edgesOut, hkey node hnode]
  rfl

end Graph

/-! ## Items and entities -/

/-- **One entity for each item, under ids that differ unless names come to one.**  Each importer
returns one entity for each source item, which it carries, and counts both alike.  The ids of a
list differ exactly when no two names have one token and none is the numbered word of an item
without one; of the generic records, when no two fields' blocks of ids meet.  In a graph whose
nodes have ids of their own, each edge from a node is counted once.  This is what the commands
answer. -/
theorem entities_of_items (printFloat : ℚ → String) (parsed : Json) :
    let generic := importGenericJson parsed
    let openfang := importOpenfang parsed
    let graph := importWorkflowGraph printFloat parsed
    let nodes := rowsOf parsed "nodes"
    let edges := rowsOf parsed "edges"
    (∀ (fromStr : String → Except String Json) text, fromStr text = .ok parsed →
      runImporterGenericJsonJson fromStr printFloat text = .ok (generic.toJson.render printFloat) ∧
      runImporterOpenfangJson fromStr printFloat text = .ok (openfang.toJson.render printFloat) ∧
      runImporterWorkflowGraphJson fromStr printFloat text = .ok (graph.toJson.render printFloat)) ∧
    (OneForEach generic (genericItems parsed) ∧ OneForEach openfang (openfangItems parsed) ∧
      OneForEach graph (graphItems parsed)) ∧
    ((idsOf generic.entities.records).Nodup ↔
      (fieldBlocks 0 (parsed.asObject.getD [])).Pairwise fun a b => ¬ a.Meets numbered b) ∧
    ((idsOf openfang.entities.agents).Nodup ↔
      Apart (numbered "agent") ((rowsOf parsed "agents").map rowToken?)) ∧
    ((idsOf openfang.entities.tasks).Nodup ↔
      Apart (numbered "task") ((rowsOf parsed "tasks").map rowToken?)) ∧
    ((idsOf openfang.entities.workflows).Nodup ↔
      Apart (numbered "workflow") ((rowsOf parsed "workflows").map rowToken?)) ∧
    ((idsOf openfang.entities.tools).Nodup ↔
      Apart (numbered "tool") ((rowsOf parsed "tools").map rowToken?)) ∧
    ((idsOf graph.entities.workflows).Nodup ↔
      Apart (numbered "node") (nodes.map (nodeToken? printFloat))) ∧
    (idsOf graph.entities.records).Nodup ∧
    graph.entities.workflows.map (·.get? "edges_out") =
      nodes.map (fun node => some (.ofNat (edgesOut printFloat edges node))) ∧
    ((nodes.map (nodeOwnId printFloat)).Nodup → (∀ node ∈ nodes, nodeOwnId printFloat node ≠ "") →
      (nodes.map (edgesOut printFloat edges)).sum =
        edges.countP fun edge => edgeFrom printFloat edge ∈ nodes.map (nodeOwnId printFloat)) := by
  refine ⟨fun fromStr text hparse => ?_,
    ⟨oneForEach_generic parsed, oneForEach_openfang parsed, oneForEach_graph printFloat parsed⟩,
    nodup_generic_iff parsed, nodup_openfang_iff (by decide) _, nodup_openfang_iff (by decide) _,
    nodup_openfang_iff (by decide) _, nodup_openfang_iff (by decide) _, nodup_workflows_iff printFloat parsed,
    nodup_edges printFloat parsed, ?_, sum_edgesOut printFloat _⟩
  · simp only [runImporterGenericJsonJson, runImporterOpenfangJson, runImporterWorkflowGraphJson, runImporter,
      hparse, and_self]
  · exact List.ext_getElem (by simp [importWorkflowGraph]) fun i h h' => by
      simp [importWorkflowGraph, workflow_edgesOut]

/-- Two nodes and the edges from them and from elsewhere. -/
def smallGraph : Json :=
  .ofFields [
    ("nodes", .arr [.ofFields [("id", .str "a")], .ofFields [("id", .str "b")]]),
    ("edges", .arr [.ofFields [("from", .str "a")], .ofFields [("from", .str "b")],
      .ofFields [("from", .str "a")], .ofFields [("from", .str "c")]])]

theorem entities_of_items_guard :
    ((rowsOf smallGraph "nodes").map (edgesOut (fun _ => "") (rowsOf smallGraph "edges"))).sum = 3 :=
  ((entities_of_items (fun _ => "") smallGraph).2.2.2.2.2.2.2.2.2.2 (by decide) (by decide)).trans
    (by decide)

/-- Names that differ in case only: two fields, two agents, two nodes. -/
def twoCases : Json :=
  .ofFields [
    ("A", .bool true),
    ("a", .bool true),
    ("agents", .arr [.ofFields [("name", .str "Planner")], .ofFields [("name", .str "planner")]]),
    ("nodes", .arr [.ofFields [("id", .str "A")], .ofFields [("id", .str "a")]])]

/-- Names that differ come to one id, in each importer. -/
theorem names_meet :
    (((twoCases.asObject.getD []).map Prod.fst).Nodup ∧
      ¬ (idsOf (importGenericJson twoCases).entities.records).Nodup) ∧
    (((rowsOf twoCases "agents").map rowName?).Nodup ∧
      ¬ (idsOf (importOpenfang twoCases).entities.agents).Nodup) ∧
    (((rowsOf twoCases "nodes").map (nodeOwnId fun _ => "")).Nodup ∧
      ¬ (idsOf (importWorkflowGraph (fun _ => "") twoCases).entities.workflows).Nodup) := by
  decide +kernel

end Protheus.Importers
