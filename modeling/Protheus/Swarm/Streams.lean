import Mathlib.Data.List.Sort
import Protheus.Lib.Groups
import Protheus.Swarm.State

/-!
The streams of a session's turns.

`stream_emit` appends its chunks to the row list of the key `session:turn` and renders that list.
`stream_render` takes the lists of every key that starts with the session and ends with the turn and
sorts them by the sequence number, which counts the chunks of one call of `stream_emit`.  The two
agree on a turn exactly when no other turn has such a key and the turn's chunks come in the order of
their sequence numbers (`streamRender_eq_emitted_iff`).
-/

namespace Protheus.Swarm

open Std (ExtTreeMap)

/-- What `stream_emit` reads and edits of a session. -/
structure StreamSession where
  agentLabel : Option String := none
  role : Option String := none
  streamTurnIds : List String := []

/-- The receipt of a chunk, the row of a registry list. -/
structure StreamChunk where
  chunkId : String
  sessionId : String
  turnId : String
  agentLabel : String
  delimiter : String
  content : String
  isPartial : Bool
  sequence : ℕ
  timestampMs : ℕ
  deriving DecidableEq

/-- The sessions and the `stream_registry` of the state. -/
structure StreamState where
  sessions : ExtTreeMap String StreamSession
  streamRegistry : ExtTreeMap String (List StreamChunk) := ∅

/-- A call of `stream_emit`, with the time it reads for a turn of no name and at each chunk. -/
structure StreamCall where
  sessionId : String
  turnId : Option String
  agentLabel : Option String := none
  chunks : List Json
  nowMs : ℕ := 0
  clock : ℕ → ℕ := fun _ => 0

/-- The key of a turn's row list. -/
def streamKey (sessionId turnId : String) : String := sessionId ++ ":" ++ turnId

def StreamChunk.key (chunk : StreamChunk) : String := streamKey chunk.sessionId chunk.turnId

def StreamCall.turn (host : Host) (call : StreamCall) : String :=
  call.turnId.getD ("turn-" ++ shortDigest host (Json.ofFields
    [("session_id", .str call.sessionId), ("ts", Json.ofNat call.nowMs), ("kind", .str "stream")]))

/-- One turn of the loop of `stream_emit`: the receipt of a chunk. -/
def chunkReceipt (host : Host) (call : StreamCall) (label : String) (chunk : Json) (idx : ℕ) :
    StreamChunk :=
  let raw : Json := if chunk.isObject then chunk else Json.ofFields [("content", chunk)]
  let total := call.chunks.length
  let delimiter := (((raw.get? "delimiter").or (raw.get? "boundary")).bind Json.asStr).getD
    (if idx = 0 then "agent_start" else if idx + 1 = total then "agent_end" else "agent_delta")
  let content :=
    match (raw.get? "content").or (raw.get? "text") with
    | some (.str text) => text
    | some other => other.render host.printFloat
    | none => ""
  { chunkId := "chunk-" ++ shortDigest host (Json.ofFields
      [("session_id", .str call.sessionId), ("turn_id", .str (call.turn host)),
        ("idx", Json.ofNat idx), ("content", .str content)])
    sessionId := call.sessionId
    turnId := call.turn host
    agentLabel := label
    delimiter
    content
    isPartial := idx + 1 ≠ total
    sequence := idx
    timestampMs := call.clock idx }

/-- `render_stream_chunks`. -/
def renderStreamChunks (chunks : List StreamChunk) : String :=
  String.join (chunks.map fun row =>
    "<agent:" ++ row.agentLabel ++ ":" ++ row.delimiter ++ ">" ++ row.content)

/-- The receipt of `stream_emit`. -/
structure StreamEmitted where
  sessionId : String
  turnId : String
  chunkCount : ℕ
  chunks : List StreamChunk
  rendered : String

/-- The label the chunks of a call carry. -/
def StreamState.label (state : StreamState) (call : StreamCall) : String :=
  (call.agentLabel.or (state.sessions[call.sessionId]?.bind fun session =>
    session.agentLabel.or session.role)).getD call.sessionId

/-- `stream_emit`. -/
def streamEmit (host : Host) (state : StreamState) (call : StreamCall) :
    Except String (StreamEmitted × StreamState) :=
  if call.sessionId ∉ state.sessions then .error ("unknown_session:" ++ call.sessionId)
  else if call.chunks.isEmpty then .error "stream_chunks_required"
  else
    let turnId := call.turn host
    let label := state.label call
    let emitted := call.chunks.mapIdx fun idx chunk => chunkReceipt host call label chunk idx
    let streamRegistry := emitted.foldl (Groups.add StreamChunk.key) state.streamRegistry
    let sessions := state.sessions.modify call.sessionId fun session =>
      if turnId ∈ session.streamTurnIds then session
      else { session with streamTurnIds := session.streamTurnIds ++ [turnId] }
    .ok ({ sessionId := call.sessionId
           turnId
           chunkCount := emitted.length
           chunks := emitted
           rendered := renderStreamChunks
             (streamRegistry[streamKey call.sessionId turnId]?.getD []) },
         { sessions, streamRegistry })

/-- Whether `stream_render` takes the rows of a key. -/
def selects (sessionId : String) (turnId : Option String) (key : String) : Bool :=
  decide ((sessionId ++ ":").toList <+: key.toList) &&
    match turnId with
    | none => true
    | some turn => decide ((":" ++ turn).toList <:+ key.toList)

/-- The receipt of `stream_render`. -/
structure StreamRendered where
  sessionId : String
  turnId : Option String
  chunkCount : ℕ
  chunks : List StreamChunk
  rendered : String

/-- The rows `stream_render` takes, in the order of their keys. -/
def selectedRows (state : StreamState) (sessionId : String) (turnId : Option String) :
    List StreamChunk :=
  state.streamRegistry.toList.flatMap fun group =>
    if selects sessionId turnId group.1 then group.2 else []

/-- `stream_render`. -/
def streamRender (state : StreamState) (sessionId : String) (turnId : Option String) :
    Except String StreamRendered :=
  if sessionId ∉ state.sessions then .error ("unknown_session:" ++ sessionId)
  else
    let rows := (selectedRows state sessionId turnId).insertionSort fun a b => a.sequence ≤ b.sequence
    .ok { sessionId, turnId, chunkCount := rows.length, chunks := rows,
          rendered := renderStreamChunks rows }

/-! ## Runs of `stream_emit` -/

/-- The state after a call. -/
def emitStep (host : Host) (state : StreamState) (call : StreamCall) : StreamState :=
  match streamEmit host state call with
  | .ok (_, state') => state'
  | .error _ => state

/-- The receipt of a call that is accepted. -/
def emitReceipt (host : Host) (state : StreamState) (call : StreamCall) : List StreamEmitted :=
  match streamEmit host state call with
  | .ok (receipt, _) => [receipt]
  | .error _ => []

/-- The receipts of a list of calls. -/
def emitReceipts (host : Host) (state : StreamState) (calls : List StreamCall) :
    List StreamEmitted :=
  Runs.logs (emitStep host) (emitReceipt host) state calls

/-- A receipt for a turn of a session. -/
def StreamEmitted.For (sessionId turnId : String) (receipt : StreamEmitted) : Prop :=
  receipt.sessionId = sessionId ∧ receipt.turnId = turnId

instance (sessionId turnId : String) (receipt : StreamEmitted) :
    Decidable (receipt.For sessionId turnId) :=
  inferInstanceAs (Decidable (_ ∧ _))

/-- The chunks emitted for a turn of a session, in the order of their emission. -/
def emittedFor (receipts : List StreamEmitted) (sessionId turnId : String) : List StreamChunk :=
  (receipts.filter (·.For sessionId turnId)).flatMap StreamEmitted.chunks

/-- The call is one that `stream_emit` accepts. -/
def StreamState.Accepts (state : StreamState) (call : StreamCall) : Prop :=
  call.sessionId ∈ state.sessions ∧ call.chunks ≠ []

instance (state : StreamState) (call : StreamCall) : Decidable (state.Accepts call) :=
  inferInstanceAs (Decidable (_ ∧ _))

/-- A call for a turn of a session. -/
def StreamCall.For (host : Host) (sessionId turnId : String) (call : StreamCall) : Prop :=
  call.sessionId = sessionId ∧ call.turn host = turnId

instance (host : Host) (sessionId turnId : String) (call : StreamCall) :
    Decidable (call.For host sessionId turnId) :=
  inferInstanceAs (Decidable (_ ∧ _))

/-- A rendered turn is made of the chunks emitted for it in their order, and reads as the receipt of
the last of its calls. -/
def RendersEmitted (host : Host) (state : StreamState) (calls : List StreamCall)
    (sessionId turnId : String) : Prop :=
  ∃ answer, streamRender (Runs.run (emitStep host) state calls) sessionId (some turnId) = .ok answer ∧
    answer.chunks = emittedFor (emitReceipts host state calls) sessionId turnId ∧
    ∀ last, ((emitReceipts host state calls).filter (·.For sessionId turnId)).getLast? = some last →
      answer.rendered = last.rendered

/-- No accepted call for another turn writes under a key that the turn is rendered from, and of the
accepted calls for the turn each but the last has one chunk. -/
def EmittedInOrder (host : Host) (state : StreamState) (calls : List StreamCall) (sessionId turnId : String) :
    Prop :=
  (∀ call ∈ calls, state.Accepts call →
    selects sessionId (some turnId) (streamKey call.sessionId (call.turn host)) = true →
      call.For host sessionId turnId) ∧
  ∀ call ∈ (calls.filter fun call => state.Accepts call ∧ call.For host sessionId turnId).dropLast,
    call.chunks.length = 1

/-! ## One call -/

variable {host : Host} {state state' : StreamState} {call : StreamCall} {calls : List StreamCall}
  {receipt : StreamEmitted} {receipts : List StreamEmitted} {sessionId turnId : String}

/-- What an accepted call does. -/
structure Emits (host : Host) (state : StreamState) (call : StreamCall) (receipt : StreamEmitted)
    (state' : StreamState) : Prop where
  accepted : state.Accepts call
  session : receipt.sessionId = call.sessionId
  turn : receipt.turnId = call.turn host
  length : receipt.chunks.length = call.chunks.length
  chunks_for : ∀ chunk ∈ receipt.chunks, chunk.sessionId = receipt.sessionId ∧
    chunk.turnId = receipt.turnId
  sequences : receipt.chunks.map StreamChunk.sequence = List.range receipt.chunks.length
  registry : state'.streamRegistry =
    receipt.chunks.foldl (Groups.add StreamChunk.key) state.streamRegistry
  rendered : receipt.rendered = renderStreamChunks
    (state'.streamRegistry[streamKey receipt.sessionId receipt.turnId]?.getD [])
  sessions : ∀ name, name ∈ state'.sessions ↔ name ∈ state.sessions

theorem streamEmit_ok (h : streamEmit host state call = .ok (receipt, state')) :
    Emits host state call receipt state' := by
  unfold streamEmit at h
  dsimp only at h
  split at h
  · cases h
  · rename_i hsession
    split at h
    · cases h
    · rename_i hchunks
      cases h
      refine ⟨⟨not_not.mp hsession, fun hnil => hchunks (by rw [hnil]; rfl)⟩, rfl, rfl, by simp, ?_,
        ?_, rfl, rfl, fun name => ExtTreeMap.mem_modify⟩
      · intro chunk hchunk
        obtain ⟨idx, hidx, rfl⟩ := List.mem_mapIdx.mp hchunk
        exact ⟨rfl, rfl⟩
      · refine List.ext_getElem (by simp) fun idx hidx _ => ?_
        simp [chunkReceipt]

theorem streamEmit_error (h : ¬ state.Accepts call) :
    ∃ reason, streamEmit host state call = .error reason := by
  unfold streamEmit
  dsimp only
  split
  · exact ⟨_, rfl⟩
  · rename_i hsession
    split
    · exact ⟨_, rfl⟩
    · rename_i hchunks
      refine absurd ⟨not_not.mp hsession, fun hnil => hchunks (by rw [hnil]; rfl)⟩ h

/-- A call is refused and leaves the state, or does what an accepted call does. -/
theorem emitStep_cases (host : Host) (state : StreamState) (call : StreamCall) :
    (¬ state.Accepts call ∧ emitStep host state call = state ∧ emitReceipt host state call = []) ∨
    ∃ receipt, Emits host state call receipt (emitStep host state call) ∧
      emitReceipt host state call = [receipt] := by
  by_cases haccepts : state.Accepts call
  · right
    cases hemit : streamEmit host state call with
    | error reason =>
      unfold streamEmit at hemit
      rw [if_neg (not_not.mpr haccepts.1), if_neg (by simpa using haccepts.2)] at hemit
      cases hemit
    | ok done =>
      obtain ⟨receipt, state'⟩ := done
      have hstep : emitStep host state call = state' := by rw [emitStep, hemit]
      refine ⟨receipt, hstep ▸ streamEmit_ok hemit, ?_⟩
      rw [emitReceipt, hemit]
  · left
    obtain ⟨reason, hemit⟩ := @streamEmit_error host state call haccepts
    exact ⟨haccepts, by rw [emitStep, hemit], by rw [emitReceipt, hemit]⟩

/-- No call makes or ends a session. -/
theorem mem_sessions_emitStep (name : String) :
    name ∈ (emitStep host state call).sessions ↔ name ∈ state.sessions := by
  obtain ⟨-, hstep, -⟩ | ⟨receipt, hemits, -⟩ := emitStep_cases host state call
  · rw [hstep]
  · exact hemits.sessions name

theorem accepts_emitStep {other : StreamCall} :
    (emitStep host state call).Accepts other ↔ state.Accepts other :=
  and_congr (mem_sessions_emitStep other.sessionId) Iff.rfl

/-! ## Runs -/

theorem mem_sessions_run (name : String) :
    name ∈ (Runs.run (emitStep host) state calls).sessions ↔ name ∈ state.sessions := by
  induction calls generalizing state with
  | nil => exact Iff.rfl
  | cons call calls ih => exact ih.trans (mem_sessions_emitStep name)

/-- The receipts are those of the accepted calls. -/
theorem map_emitReceipts :
    (emitReceipts host state calls).map (fun receipt =>
        (receipt.sessionId, receipt.turnId, receipt.chunks.length)) =
      (calls.filter (state.Accepts ·)).map fun call =>
        (call.sessionId, call.turn host, call.chunks.length) := by
  induction calls generalizing state with
  | nil => rfl
  | cons call calls ih =>
    have hrest : calls.filter ((emitStep host state call).Accepts ·) =
        calls.filter (state.Accepts ·) :=
      List.filter_congr fun other _ => decide_eq_decide.mpr accepts_emitStep
    rw [emitReceipts, Runs.logs, List.map_append]
    have ih := @ih (emitStep host state call)
    rw [emitReceipts, hrest] at ih
    rw [ih]
    obtain ⟨hrefused, -, hreceipt⟩ | ⟨receipt, hemits, hreceipt⟩ := emitStep_cases host state call
    · rw [hreceipt, List.filter_cons_of_neg (by simpa using hrefused), List.map_nil, List.nil_append]
    · rw [hreceipt, List.filter_cons_of_pos (by simpa using hemits.accepted), List.map_singleton,
        hemits.session, hemits.turn, hemits.length]
      rfl

/-- The chunks of a receipt name its session and its turn. -/
def ChunksFor (receipts : List StreamEmitted) : Prop :=
  ∀ receipt ∈ receipts, ∀ chunk ∈ receipt.chunks,
    chunk.sessionId = receipt.sessionId ∧ chunk.turnId = receipt.turnId

/-- What is known of the registry and the receipts of a run from an empty registry. -/
structure StreamsRecorded (state : StreamState) (receipts : List StreamEmitted) : Prop where
  registry : state.streamRegistry =
    Groups.groupBy StreamChunk.key (receipts.flatMap StreamEmitted.chunks)
  nonempty : ∀ receipt ∈ receipts, receipt.chunks ≠ []
  chunks_for : ChunksFor receipts
  sequences : ∀ receipt ∈ receipts,
    receipt.chunks.map StreamChunk.sequence = List.range receipt.chunks.length
  rendered : ∀ early receipt late, receipts = early ++ receipt :: late →
    receipt.rendered = renderStreamChunks
      (((early ++ [receipt]).flatMap StreamEmitted.chunks).filter
        (StreamChunk.key · = streamKey receipt.sessionId receipt.turnId))

/-- The list of a key holds its rows. -/
theorem getD_groupBy {rows : List StreamChunk} {key : String} :
    (Groups.groupBy StreamChunk.key rows)[key]?.getD [] = rows.filter (StreamChunk.key · = key) := by
  rw [Groups.getElem?_groupBy]
  split
  · rename_i hnone
    rw [hnone]
    rfl
  · rfl

theorem StreamsRecorded.emitStep (h : StreamsRecorded state receipts) :
    StreamsRecorded (emitStep host state call) (receipts ++ emitReceipt host state call) := by
  obtain ⟨-, hstep, hreceipt⟩ | ⟨receipt, hemits, hreceipt⟩ := emitStep_cases host state call
  · rwa [hstep, hreceipt, List.append_nil]
  · rw [hreceipt]
    have hregistry : (Swarm.emitStep host state call).streamRegistry =
        Groups.groupBy StreamChunk.key ((receipts ++ [receipt]).flatMap StreamEmitted.chunks) := by
      rw [hemits.registry, h.registry, List.flatMap_append, List.flatMap_singleton, Groups.groupBy,
        Groups.groupBy, List.foldl_append]
    have hne : receipt.chunks ≠ [] := by
      intro hnil
      have hlength := hemits.length
      rw [hnil] at hlength
      exact hemits.accepted.2 (List.length_eq_zero_iff.mp hlength.symm)
    refine ⟨hregistry, ?_, ?_, ?_, ?_⟩
    · exact List.forall_mem_append.mpr ⟨h.nonempty, List.forall_mem_singleton.mpr hne⟩
    · exact List.forall_mem_append.mpr
        ⟨h.chunks_for, List.forall_mem_singleton.mpr hemits.chunks_for⟩
    · exact List.forall_mem_append.mpr ⟨h.sequences, List.forall_mem_singleton.mpr hemits.sequences⟩
    · intro early other late hsplit
      cases late using List.reverseRecOn with
      | nil =>
        obtain ⟨rfl, hlast⟩ := List.append_inj' hsplit rfl
        obtain rfl := List.singleton_inj.mp hlast
        rw [hemits.rendered, hregistry, getD_groupBy]
      | append_singleton late last =>
        rw [← List.cons_append, ← List.append_assoc] at hsplit
        obtain ⟨hsplit, -⟩ := List.append_inj' hsplit rfl
        exact h.rendered early other late hsplit

theorem recorded_run (sessions : ExtTreeMap String StreamSession) (calls : List StreamCall) :
    StreamsRecorded (Runs.run (emitStep host) { sessions } calls)
      (emitReceipts host { sessions } calls) := by
  have hempty : StreamsRecorded { sessions } [] :=
    ⟨rfl, by simp, fun _ h => absurd h List.not_mem_nil, by simp, fun early receipt late h => absurd h (by simp)⟩
  exact @Runs.logs_invariant _ _ (Swarm.emitStep host) _ (emitReceipt host) StreamsRecorded
    (fun _ _ _ h => StreamsRecorded.emitStep h) calls { sessions } [] hempty

/-! ## What is rendered -/

/-- Rows counted from zero in each part of a list come in order just where every part but the last is
of one row. -/
theorem pairwise_flatMap_range {lengths : List ℕ} (hpos : ∀ n ∈ lengths, 0 < n) :
    (lengths.flatMap List.range).Pairwise (· ≤ ·) ↔ ∀ n ∈ lengths.dropLast, n = 1 := by
  induction lengths with
  | nil => simp
  | cons n lengths ih =>
    obtain ⟨hn, hrest⟩ := List.forall_mem_cons.mp hpos
    cases lengths with
    | nil => simpa using List.pairwise_le_range
    | cons m lengths =>
      rw [List.flatMap_cons, List.pairwise_append, ih hrest, List.dropLast_cons_cons,
        List.forall_mem_cons]
      have hzero : 0 ∈ (m :: lengths).flatMap List.range :=
        List.mem_flatMap.mpr ⟨m, List.mem_cons_self, List.mem_range.mpr (hrest m List.mem_cons_self)⟩
      constructor
      · rintro ⟨-, hlater, hbelow⟩
        have hlast := hbelow (n - 1) (List.mem_range.mpr (by omega)) 0 hzero
        exact ⟨by omega, hlater⟩
      · rintro ⟨rfl, hlater⟩
        refine ⟨List.pairwise_le_range, hlater, fun a ha b _ => ?_⟩
        have ha := List.mem_range.mp ha
        omega

/-- The key of a turn is one that the turn is rendered from. -/
theorem selects_streamKey : selects sessionId (some turnId) (streamKey sessionId turnId) = true := by
  rw [selects, Bool.and_eq_true, decide_eq_true_iff, decide_eq_true_iff, streamKey]
  constructor
  · exact ⟨turnId.toList, by simp⟩
  · exact ⟨sessionId.toList, by simp⟩

/-- The chunks for a turn are the rows that name it. -/
theorem ChunksFor.emittedFor_eq (h : ChunksFor receipts) :
    emittedFor receipts sessionId turnId =
      (receipts.flatMap StreamEmitted.chunks).filter fun chunk =>
        chunk.sessionId = sessionId ∧ chunk.turnId = turnId := by
  induction receipts with
  | nil => rfl
  | cons receipt receipts ih =>
    obtain ⟨hfirst, hrest⟩ := List.forall_mem_cons.mp h
    rw [List.flatMap_cons, List.filter_append, ← ih hrest, emittedFor, emittedFor]
    by_cases hfor : receipt.For sessionId turnId
    · have hall : receipt.chunks.filter (fun chunk =>
          chunk.sessionId = sessionId ∧ chunk.turnId = turnId) = receipt.chunks := by
        refine List.filter_eq_self.mpr fun chunk hchunk => decide_eq_true ?_
        obtain ⟨hsession, hturn⟩ := hfirst chunk hchunk
        exact ⟨hsession.trans hfor.1, hturn.trans hfor.2⟩
      rw [List.filter_cons_of_pos (by simpa using hfor), List.flatMap_cons, hall]
    · have hnone : receipt.chunks.filter (fun chunk =>
          chunk.sessionId = sessionId ∧ chunk.turnId = turnId) = [] := by
        refine List.filter_eq_nil_iff.mpr fun chunk hchunk hother => hfor ?_
        obtain ⟨hsession, hturn⟩ := hfirst chunk hchunk
        obtain ⟨hs, ht⟩ := of_decide_eq_true hother
        exact ⟨hsession.symm.trans hs, hturn.symm.trans ht⟩
      rw [List.filter_cons_of_neg (by simpa using hfor), hnone, List.nil_append]

/-- No receipt for another turn has a key that the turn is rendered from. -/
def Alone (receipts : List StreamEmitted) (sessionId turnId : String) : Prop :=
  ∀ receipt ∈ receipts,
    selects sessionId (some turnId) (streamKey receipt.sessionId receipt.turnId) = true →
      receipt.For sessionId turnId

/-- Each receipt for the turn but the last is of one chunk. -/
def Single (receipts : List StreamEmitted) (sessionId turnId : String) : Prop :=
  ∀ receipt ∈ (receipts.filter (·.For sessionId turnId)).dropLast, receipt.chunks.length = 1

/-- A row has the key of its receipt. -/
theorem ChunksFor.key_eq (h : ChunksFor receipts) (hreceipt : receipt ∈ receipts)
    {chunk : StreamChunk} (hchunk : chunk ∈ receipt.chunks) :
    chunk.key = streamKey receipt.sessionId receipt.turnId := by
  obtain ⟨hsession, hturn⟩ := h receipt hreceipt chunk hchunk
  rw [StreamChunk.key, hsession, hturn]

/-- Where a turn is alone, the rows under its key are its chunks. -/
theorem ChunksFor.filter_key (h : ChunksFor receipts) (halone : Alone receipts sessionId turnId) :
    (receipts.flatMap StreamEmitted.chunks).filter
        (StreamChunk.key · = streamKey sessionId turnId) =
      emittedFor receipts sessionId turnId := by
  rw [h.emittedFor_eq]
  refine List.filter_congr fun chunk hchunk => decide_eq_decide.mpr ⟨fun hkey => ?_, ?_⟩
  · obtain ⟨receipt, hreceipt, hmem⟩ := List.mem_flatMap.mp hchunk
    obtain ⟨hsession, hturn⟩ := h receipt hreceipt chunk hmem
    have hfor := halone receipt hreceipt (by
      rw [← h.key_eq hreceipt hmem, hkey]
      exact selects_streamKey)
    exact ⟨hsession.trans hfor.1, hturn.trans hfor.2⟩
  · rintro ⟨rfl, rfl⟩
    rfl

/-- The rows a turn is rendered from are its chunks exactly where it is alone and they come in the
order of their sequence numbers. -/
theorem StreamsRecorded.sorted_eq_iff (h : StreamsRecorded state receipts) :
    ((selectedRows state sessionId (some turnId)).insertionSort fun a b => a.sequence ≤ b.sequence) =
        emittedFor receipts sessionId turnId ↔
      Alone receipts sessionId turnId ∧
        (emittedFor receipts sessionId turnId).Pairwise fun a b => a.sequence ≤ b.sequence := by
  constructor
  · intro hrows
    constructor
    · intro receipt hreceipt hselects
      obtain ⟨chunk, hchunk⟩ := List.exists_mem_of_ne_nil _ (h.nonempty receipt hreceipt)
      have hmem : chunk ∈ selectedRows state sessionId (some turnId) := by
        rw [selectedRows, h.registry, Groups.mem_flatMap_groupBy]
        refine ⟨List.mem_flatMap.mpr ⟨receipt, hreceipt, hchunk⟩, ?_⟩
        rwa [h.chunks_for.key_eq hreceipt hchunk]
      have hemitted : chunk ∈ emittedFor receipts sessionId turnId := by
        rw [← hrows]
        exact (List.mem_insertionSort _).mpr hmem
      rw [h.chunks_for.emittedFor_eq] at hemitted
      obtain ⟨hs, ht⟩ := of_decide_eq_true (List.mem_filter.mp hemitted).2
      obtain ⟨hsession, hturn⟩ := h.chunks_for receipt hreceipt chunk hchunk
      exact ⟨hsession.symm.trans hs, hturn.symm.trans ht⟩
    · rw [← hrows]
      exact List.pairwise_insertionSort _ _
  · rintro ⟨halone, hsorted⟩
    have hselected : selectedRows state sessionId (some turnId) =
        emittedFor receipts sessionId turnId := by
      rw [← h.chunks_for.filter_key halone, selectedRows, h.registry]
      refine Groups.flatMap_groupBy selects_streamKey fun chunk hchunk hselects => ?_
      obtain ⟨receipt, hreceipt, hmem⟩ := List.mem_flatMap.mp hchunk
      rw [h.chunks_for.key_eq hreceipt hmem] at hselects ⊢
      obtain ⟨hsession, hturn⟩ := halone receipt hreceipt hselects
      rw [hsession, hturn]
    rw [hselected, hsorted.insertionSort_eq]

/-- The chunks for a turn come in the order of their sequence numbers exactly where each of its
receipts but the last is of one chunk. -/
theorem StreamsRecorded.pairwise_iff (h : StreamsRecorded state receipts) :
    ((emittedFor receipts sessionId turnId).Pairwise fun a b => a.sequence ≤ b.sequence) ↔
      Single receipts sessionId turnId := by
  have hsequences : (emittedFor receipts sessionId turnId).map StreamChunk.sequence =
      ((receipts.filter (·.For sessionId turnId)).map (·.chunks.length)).flatMap List.range := by
    rw [emittedFor, List.map_flatMap, List.flatMap_map]
    refine List.flatMap_congr fun receipt hreceipt => ?_
    exact h.sequences receipt (List.mem_filter.mp hreceipt).1
  have hpos : ∀ n ∈ (receipts.filter (·.For sessionId turnId)).map (·.chunks.length), 0 < n := by
    intro n hn
    obtain ⟨receipt, hreceipt, rfl⟩ := List.mem_map.mp hn
    exact List.length_pos_of_ne_nil (h.nonempty receipt (List.mem_filter.mp hreceipt).1)
  rw [← List.pairwise_map (f := StreamChunk.sequence) (R := (· ≤ ·)), hsequences,
    pairwise_flatMap_range hpos, ← List.map_dropLast, List.forall_mem_map]
  rfl

/-- Where a turn is alone, the receipt of the last of its calls is the text of all its chunks. -/
theorem StreamsRecorded.rendered_last (h : StreamsRecorded state receipts)
    (halone : Alone receipts sessionId turnId)
    (hlast : (receipts.filter (·.For sessionId turnId)).getLast? = some receipt) :
    receipt.rendered = renderStreamChunks (emittedFor receipts sessionId turnId) := by
  obtain ⟨before, hfilter⟩ := List.getLast?_eq_some_iff.mp hlast
  obtain ⟨first, rest, rfl, -, hrest⟩ := List.filter_eq_append_iff.mp hfilter
  obtain ⟨others, late, rfl, hothers, hfor, hlate⟩ := List.filter_eq_cons_iff.mp hrest
  obtain ⟨rfl, rfl⟩ : receipt.For sessionId turnId := of_decide_eq_true hfor
  have hsplit : first ++ (others ++ receipt :: late) = (first ++ others ++ [receipt]) ++ late := by
    simp
  have hearly : ∀ other ∈ first ++ others ++ [receipt],
      other ∈ first ++ (others ++ receipt :: late) := fun other hother => by
    rw [hsplit]
    exact List.mem_append_left _ hother
  have hchunks : ChunksFor (first ++ others ++ [receipt]) := fun other hother =>
    h.chunks_for other (hearly other hother)
  have halone' : Alone (first ++ others ++ [receipt]) receipt.sessionId receipt.turnId :=
    fun other hother => halone other (hearly other hother)
  have hemitted : emittedFor (first ++ (others ++ receipt :: late)) receipt.sessionId receipt.turnId =
      emittedFor (first ++ others ++ [receipt]) receipt.sessionId receipt.turnId := by
    rw [hsplit, emittedFor, emittedFor, List.filter_append, hlate, List.append_nil]
  rw [h.rendered (first ++ others) receipt late (by simp), hchunks.filter_key halone', hemitted]

/-! ## Rendering the emitted chunks -/

/-- A property of the receipts' turns and lengths is one of the accepted calls' own. -/
theorem alone_and_single_iff :
    Alone (emitReceipts host state calls) sessionId turnId ∧
        Single (emitReceipts host state calls) sessionId turnId ↔
      EmittedInOrder host state calls sessionId turnId := by
  have hmap := @map_emitReceipts host state calls
  have halone : Alone (emitReceipts host state calls) sessionId turnId ↔
      ∀ row ∈ (emitReceipts host state calls).map (fun receipt =>
        (receipt.sessionId, receipt.turnId, receipt.chunks.length)),
        selects sessionId (some turnId) (streamKey row.1 row.2.1) = true →
          row.1 = sessionId ∧ row.2.1 = turnId := by
    rw [List.forall_mem_map]
    rfl
  have hsingle : Single (emitReceipts host state calls) sessionId turnId ↔
      ∀ row ∈ (((emitReceipts host state calls).map (fun receipt =>
        (receipt.sessionId, receipt.turnId, receipt.chunks.length))).filter fun row =>
          row.1 = sessionId ∧ row.2.1 = turnId).dropLast, row.2.2 = 1 := by
    rw [List.filter_map, ← List.map_dropLast, List.forall_mem_map]
    rfl
  rw [halone, hsingle, hmap, List.forall_mem_map, List.filter_map, List.filter_filter,
    ← List.map_dropLast, List.forall_mem_map, EmittedInOrder]
  refine and_congr ?_ ?_
  · constructor
    · exact fun h call hcall haccepts => h call (List.mem_filter.mpr ⟨hcall, decide_eq_true haccepts⟩)
    · exact fun h call hcall =>
        h call (List.mem_filter.mp hcall).1 (of_decide_eq_true (List.mem_filter.mp hcall).2)
  · have hfilter : (calls.filter fun call => ((fun row : String × String × ℕ =>
          decide (row.1 = sessionId ∧ row.2.1 = turnId)) ∘ fun call : StreamCall =>
            (call.sessionId, call.turn host, call.chunks.length)) call && decide (state.Accepts call)) =
        calls.filter fun call => state.Accepts call ∧ call.For host sessionId turnId := by
      refine List.filter_congr fun call _ => ?_
      rw [Bool.and_comm, Bool.decide_and]
      rfl
    rw [hfilter]

/-- A turn is rendered as its chunks were emitted exactly where it is alone under the keys it is
rendered from and its calls but the last are of one chunk. -/
theorem rendersEmitted_iff {sessions : ExtTreeMap String StreamSession}
    (hsession : sessionId ∈ sessions) :
    RendersEmitted host { sessions } calls sessionId turnId ↔
      Alone (emitReceipts host { sessions } calls) sessionId turnId ∧
        Single (emitReceipts host { sessions } calls) sessionId turnId := by
  have hrecorded := @recorded_run host sessions calls
  rw [← hrecorded.pairwise_iff, ← hrecorded.sorted_eq_iff]
  have hrender : streamRender (Runs.run (emitStep host) { sessions } calls) sessionId (some turnId) =
      .ok _ := if_neg (not_not.mpr ((mem_sessions_run sessionId).mpr hsession))
  constructor
  · rintro ⟨answer, hanswer, hchunks, -⟩
    rw [hrender] at hanswer
    cases hanswer
    exact hchunks
  · intro hrows
    refine ⟨_, hrender, hrows, fun last hlast => ?_⟩
    rw [hrecorded.rendered_last (hrecorded.sorted_eq_iff.mp hrows).1 hlast, ← hrows]

/-- **A turn is rendered as its chunks were emitted exactly where no other turn writes under a key it
is rendered from and each of its calls but the last emits one chunk.** -/
theorem streamRender_eq_emitted_iff (sessions : ExtTreeMap String StreamSession)
    (calls : List StreamCall) (turnId : String) (hsession : sessionId ∈ sessions) :
    RendersEmitted host { sessions } calls sessionId turnId ↔
      EmittedInOrder host { sessions } calls sessionId turnId :=
  (rendersEmitted_iff hsession).trans alone_and_single_iff

/-- A process whose digest is of no matter. -/
def streamHost : Host where
  digest _ := "0123456789ab"
  printFloat _ := "0.5"
  displayFloat _ := "0.5"

/-- One session. -/
def oneStream : ExtTreeMap String StreamSession := (∅ : ExtTreeMap String StreamSession).insert "s" {}

/-- A call for the turn `t` of the session `s`. -/
def streamTurn (chunks : List String) : StreamCall :=
  { sessionId := "s", turnId := some "t", chunks := chunks.map .str }

theorem streamRender_eq_emitted_turn :
    RendersEmitted streamHost { sessions := oneStream } [streamTurn ["a"], streamTurn ["b", "c"]]
        "s" "t" := by
  refine (streamRender_eq_emitted_iff oneStream _ "t" ExtTreeMap.mem_insert_self).mpr ?_
  unfold EmittedInOrder
  decide

/-- Two calls of two chunks for one turn are rendered in another order than they were emitted in. -/
theorem turn_rendered_out_of_order :
    ¬ RendersEmitted streamHost { sessions := oneStream }
        [streamTurn ["a", "b"], streamTurn ["c", "d"]] "s" "t" := by
  have hsession : "s" ∈ oneStream := ExtTreeMap.mem_insert_self
  rw [rendersEmitted_iff hsession, alone_and_single_iff]
  unfold EmittedInOrder
  decide

end Protheus.Swarm
