import Protheus.Lib.Runs
import Protheus.V8Kernel

/-!
`enqueue` of `swarm_router`: an item is added to the queue file, by a process of its own.

The process loads the file, pushes the new envelope and writes all of it back.  A file
that does not load is taken for an empty queue, the outcome of the write is not looked at,
and the id of the envelope is a prefix and a counter that starts anew in every process.
`enqueues_lose_nothing` says which runs of processes lose nothing nevertheless.  How
`serde_json` reads and prints is outside: `Serde.Lawful` is what is needed of it.
-/

namespace Protheus

namespace SwarmRouter

open RustStd

/-! ## Envelopes -/

/-- `TaskStatus`. -/
inductive TaskStatus
  | pending
  | inProgress
  | complete
  | failed
  deriving DecidableEq

/-- `SwarmEnvelope`. -/
structure SwarmEnvelope where
  id : String
  replyTo : Option String
  route : String
  payload : Json
  priority : UInt8
  status : TaskStatus
  createdUnixMs : UInt64
  deriving DecidableEq

/-- `SwarmEnvelope::validate`. -/
def SwarmEnvelope.validate (envelope : SwarmEnvelope) : Except String Unit :=
  if trim envelope.id = "" then .error "id_required"
  else if '-' ∉ envelope.id.toList then .error "id_must_include_prefix_separator"
  else if trim envelope.route = "" then .error "route_required"
  else if 9 < envelope.priority then .error "priority_out_of_range"
  else .ok ()

/-- `sanitize_prefix`. -/
def sanitizePrefix (input : String) : String :=
  let out := (input.toList.filter fun ch => ch.isAlphanum || ch == '_' || ch == '-').map Char.toLower
  if out.isEmpty then "swarm" else String.ofList out

/-- `{:016x}`. -/
def hex16 (n : UInt64) : String := String.ofList ((Nat.toDigits 16 n.toNat).leftpad 16 '0')

/-- `auto_id`, where the counter of the process stands at `counter`. -/
def autoId (counter : UInt64) (rolePrefix : String) : String :=
  sanitizePrefix rolePrefix ++ "-" ++ hex16 (counter + 1)

/-- `SwarmEnvelope::new_auto`. -/
def SwarmEnvelope.newAuto (counter : UInt64) (rolePrefix route : String) (payload : Json)
    (priority : UInt8) (nowUnixMs : UInt64) : SwarmEnvelope where
  id := autoId counter rolePrefix
  replyTo := none
  route := route
  payload := payload
  priority := priority
  status := .pending
  createdUnixMs := nowUnixMs

/-! ## Queues -/

/-- `QueueArtifact`. -/
structure QueueArtifact where
  schemaVersion : String
  updatedUnixMs : UInt64
  items : List SwarmEnvelope
  deriving DecidableEq

namespace QueueArtifact

/-- `QueueArtifact::default`. -/
def empty (nowUnixMs : UInt64) : QueueArtifact where
  schemaVersion := "swarm_queue_v1"
  updatedUnixMs := nowUnixMs
  items := []

/-- `QueueArtifact::validate`. -/
def validate (queue : QueueArtifact) : Except String Unit :=
  if queue.schemaVersion ≠ "swarm_queue_v1" then .error "queue_schema_mismatch"
  else queue.items.forM SwarmEnvelope.validate

/-- The order of `sort_priority`. -/
def compareItems (a b : SwarmEnvelope) : Ordering :=
  (compare b.priority a.priority).then (compare a.id b.id)

/-- `QueueArtifact::sort_priority`. -/
def sortPriority (queue : QueueArtifact) : QueueArtifact :=
  { queue with items := sortBy compareItems queue.items }

/-- `QueueArtifact::push`. -/
def push (queue : QueueArtifact) (item : SwarmEnvelope) (nowUnixMs : UInt64) :
    Except String QueueArtifact :=
  let item := { item with status := .pending }
  match item.validate with
  | .error e => .error e
  | .ok () =>
    .ok { ({ queue with items := queue.items ++ [item] }).sortPriority with updatedUnixMs := nowUnixMs }

end QueueArtifact

/-! ## The file -/

/-- What stands at the path of the queue. -/
inductive Stored
  | absent
  /-- Something is there, and `read_to_string` answers with an error. -/
  | unreadable (error : String)
  | text (raw : String)
  deriving DecidableEq

/-- How `serde_json` reads and prints. -/
structure Serde where
  /-- `from_str::<QueueArtifact>`. -/
  queueFromStr : String → Except String QueueArtifact
  /-- `to_string_pretty` of a queue. -/
  queueToString : QueueArtifact → Except String String
  /-- `from_str::<Value>`. -/
  valueFromStr : String → Except String Json
  /-- The float that is read where a float was printed. -/
  reread : ℚ → ℚ

/-- What the system answers to the calls of `save`. -/
structure Io where
  /-- The error of `create_dir_all`; `none` where it succeeds, or the path has no parent. -/
  createDirAll : Option String := none
  /-- The error of `write` and what it leaves at the path; `none` where it succeeds. -/
  write : Option (String × Stored) := none

namespace QueueArtifact

/-- `QueueArtifact::save`, with what stands at the path afterwards. -/
def save (serde : Serde) (io : Io) (queue : QueueArtifact) (file : Stored) : Except String Unit × Stored :=
  match queue.validate with
  | .error e => (.error e, file)
  | .ok () =>
    match io.createDirAll with
    | some e => (.error ("queue_parent_create_failed:" ++ e), file)
    | none =>
      match serde.queueToString queue with
      | .error e => (.error ("queue_encode_failed:" ++ e), file)
      | .ok text =>
        match io.write with
        | some (e, left) => (.error ("queue_write_failed:" ++ e), left)
        | none => (.ok (), .text text)

/-- `QueueArtifact::load`. -/
def load (serde : Serde) (nowUnixMs : UInt64) : Stored → Except String QueueArtifact
  | .absent => .ok (empty nowUnixMs)
  | .unreadable e => .error ("queue_read_failed:" ++ e)
  | .text raw =>
    match serde.queueFromStr raw with
    | .error e => .error ("queue_decode_failed:" ++ e)
    | .ok queue =>
      match queue.validate with
      | .error e => .error e
      | .ok () => .ok queue.sortPriority

end QueueArtifact

/-! ## The command -/

/-- A process that runs `enqueue`: its arguments, what its calls of `now_unix_ms` read, and
what the system answers it. -/
structure Process where
  args : List String
  loadedMs : UInt64
  createdMs : UInt64
  pushedMs : UInt64
  receiptMs : UInt64
  io : Io := {}

/-- `parse_flag`. -/
def parseFlag (args : List String) (name default : String) : String :=
  (args.findSome? fun arg => stripPrefix arg ("--" ++ name ++ "=")).getD default

/-- `parse_u8`. -/
def parseU8 (args : List String) (name : String) (default : UInt8) : UInt8 :=
  match parseU64 (parseFlag args name (toString default.toNat)) with
  | some n => if n < 256 then n.toUInt8 else default
  | none => default

/-- The part of a `SwarmReceipt` that tells of the queue; its metrics are the depth once more. -/
structure SwarmReceipt where
  schemaId : String
  tsUnixMs : UInt64
  action : String
  envelopeId : Option String
  route : Option String
  details : Json

/-- `build_receipt`. -/
def buildReceipt (action : String) (envelope : Option SwarmEnvelope) (details : Json)
    (nowUnixMs : UInt64) : SwarmReceipt where
  schemaId := "swarm_router_receipt_v1"
  tsUnixMs := nowUnixMs
  action := action
  envelopeId := envelope.map (·.id)
  route := envelope.map (·.route)
  details := details

/-- What the command prints. -/
inductive Answer
  | accepted (receipt : SwarmReceipt)
  | refused (error : String)

/-- Whether the command ends with success. -/
def Answer.ok : Answer → Bool
  | .accepted _ => true
  | .refused _ => false

section Command

variable (serde : Serde) (process : Process)

def Process.envelope : SwarmEnvelope :=
  let route := parseFlag process.args "route" "swarm/default"
  let role := parseFlag process.args "role" "coordinator"
  let priority := parseU8 process.args "priority" 5
  let payloadRaw := parseFlag process.args "payload-json" "\x7b\x7d"
  let payload :=
    match serde.valueFromStr payloadRaw with
    | .ok value => value
    | .error _ => .ofFields [("raw", .str payloadRaw)]
  -- a fresh process: nothing has asked for an id before
  .newAuto 0 role route payload priority process.createdMs

/-- `main`, where the command is `enqueue` and names this file: the answer, and what stands at
the path afterwards. -/
def enqueue (file : Stored) : Answer × Stored :=
  let queue :=
    match QueueArtifact.load serde process.loadedMs file with
    | .ok queue => queue
    | .error _ => .empty process.loadedMs
  let env := process.envelope serde
  match queue.push env process.pushedMs with
  | .ok queue =>
    let (_, file) := queue.save serde process.io file
    (.accepted (buildReceipt "enqueue" (some env)
      (.ofFields [("queue_depth", .ofNat queue.items.length)]) process.receiptMs), file)
  | .error err => (.refused err, file)

/-- A process leaves the file to the next one. -/
def step (file : Stored) (process : Process) : Stored := (enqueue serde process file).2

end Command

/-! ## Sorting and validity -/

/-- An item stands in front of another: a higher priority, or the same and the lesser id. -/
def Precedes (a b : SwarmEnvelope) : Prop :=
  b.priority < a.priority ∨ (b.priority = a.priority ∧ a.id ≤ b.id)

theorem precedes_of_compare {a b : SwarmEnvelope} (h : QueueArtifact.compareItems a b ≠ .gt) :
    Precedes a b := by
  have hpriority : compare b.priority a.priority =
      if b.priority < a.priority then .lt else if b.priority = a.priority then .eq else .gt := rfl
  rw [QueueArtifact.compareItems, hpriority] at h
  split_ifs at h with hlt heq
  · exact .inl hlt
  · refine .inr ⟨heq, ?_⟩
    rwa [Ordering.eq_then, ne_eq, compare_gt_iff_gt, not_lt] at h
  · exact absurd rfl h

namespace QueueArtifact

variable {queue : QueueArtifact}

theorem sortPriority_perm : queue.sortPriority.items.Perm queue.items := List.perm_insertionSort _ _

instance : Std.TransCmp compareItems := by
  have hlex : compareItems = compareLex (fun a b => compareOn SwarmEnvelope.priority b a)
      (compareOn SwarmEnvelope.id) := rfl
  rw [hlex]
  infer_instance

/-- A sorted queue stands by priority, then by id. -/
theorem pairwise_precedes (items : List SwarmEnvelope) :
    (sortBy compareItems items).Pairwise Precedes :=
  (RustStd.pairwise_sortBy items).imp precedes_of_compare

theorem forM_eq_ok {items : List SwarmEnvelope} :
    items.forM SwarmEnvelope.validate = .ok () ↔ ∀ item ∈ items, item.validate = .ok () := by
  induction items with
  | nil => exact ⟨fun _ => by simp, fun _ => rfl⟩
  | cons item items ih =>
    have hcons : (item :: items).forM SwarmEnvelope.validate =
        (do item.validate; items.forM SwarmEnvelope.validate) := rfl
    rw [hcons, List.forall_mem_cons, ← ih]
    cases item.validate with
    | error e => exact ⟨fun h => (by cases h), fun h => (by cases h.1)⟩
    | ok _ => exact ⟨fun h => ⟨rfl, h⟩, fun h => h.2⟩

/-- A queue is valid where its items are. -/
theorem validate_eq_ok : queue.validate = .ok () ↔
    queue.schemaVersion = "swarm_queue_v1" ∧ ∀ item ∈ queue.items, item.validate = .ok () := by
  rw [validate, ← forM_eq_ok]
  by_cases hschema : queue.schemaVersion = "swarm_queue_v1"
  · rw [if_neg (not_not.mpr hschema)]
    exact ⟨fun h => ⟨hschema, h⟩, fun h => h.2⟩
  · rw [if_pos hschema]
    exact ⟨fun h => (by cases h), fun h => absurd h.1 hschema⟩

theorem validate_of_load {serde : Serde} {now : UInt64} {file : Stored}
    (h : load serde now file = .ok queue) : queue.validate = .ok () := by
  cases file with
  | absent =>
    cases h
    exact validate_eq_ok.mpr ⟨rfl, by simp [empty]⟩
  | unreadable e => cases h
  | text raw =>
    rw [load] at h
    cases hread : serde.queueFromStr raw with
    | error e =>
      rw [hread] at h
      cases h
    | ok stored =>
      rw [hread] at h
      cases hvalid : stored.validate with
      | error e => simp [hvalid] at h
      | ok _ =>
        obtain rfl : stored.sortPriority = queue := by simpa [hvalid] using h
        obtain ⟨hschema, hitems⟩ := validate_eq_ok.mp hvalid
        exact validate_eq_ok.mpr
          ⟨hschema, fun item hitem => hitems item (sortPriority_perm.mem_iff.mp hitem)⟩

/-- A valid queue that is read loads sorted. -/
theorem load_text {serde : Serde} {now : UInt64} {raw : String}
    (hread : serde.queueFromStr raw = .ok queue) (hvalid : queue.validate = .ok ()) :
    load serde now (.text raw) = .ok queue.sortPriority := by
  simp [load, hread, hvalid]

/-- The queue with one item more. -/
def pushed (queue : QueueArtifact) (item : SwarmEnvelope) (nowUnixMs : UInt64) : QueueArtifact where
  schemaVersion := queue.schemaVersion
  updatedUnixMs := nowUnixMs
  items := sortBy compareItems (queue.items ++ [item])

theorem pushed_perm {item : SwarmEnvelope} {now : UInt64} :
    (queue.pushed item now).items.Perm (item :: queue.items) :=
  (List.perm_insertionSort _ _).trans (List.perm_append_singleton item queue.items)

theorem validate_pushed {item : SwarmEnvelope} {now : UInt64} (hqueue : queue.validate = .ok ())
    (hitem : item.validate = .ok ()) : (queue.pushed item now).validate = .ok () := by
  obtain ⟨hschema, hitems⟩ := validate_eq_ok.mp hqueue
  refine validate_eq_ok.mpr ⟨hschema, fun other hother => ?_⟩
  obtain rfl | hother := List.mem_cons.mp (pushed_perm.mem_iff.mp hother)
  · exact hitem
  · exact hitems other hother

end QueueArtifact

/-! ## What a command leaves -/

namespace Serde

variable (serde : Serde)

/-- A payload is read as it is printed: it does not nest too deep, as it stands inside three
more arrays and objects, its entries are in the order of a map (as those of all that was ever
read are), and its floats are read as they were. -/
def Restores (payload : Json) : Prop :=
  payload.depth + 3 ≤ Json.parseDepth ∧ payload.normalizeValue.reread serde.reread = payload

/-- A queue is printed, and read back where its payloads are. -/
structure Lawful : Prop where
  readsBack : ∀ queue : QueueArtifact, (∀ item ∈ queue.items, serde.Restores item.payload) →
    ∃ text, serde.queueToString queue = .ok text ∧ serde.queueFromStr text = .ok queue

end Serde

section Command

variable {serde : Serde} {process : Process} {file : Stored} {queue : QueueArtifact}

theorem push_envelope (queue : QueueArtifact) (hvalid : (process.envelope serde).validate = .ok ()) :
    queue.push (process.envelope serde) process.pushedMs =
      .ok (queue.pushed (process.envelope serde) process.pushedMs) := by
  -- a new envelope is pending already
  have hpending : { process.envelope serde with status := .pending } = process.envelope serde := rfl
  rw [QueueArtifact.push, hpending, hvalid]
  rfl

/-- An envelope that is not valid is refused and changes nothing. -/
theorem enqueue_of_error {e : String} (h : (process.envelope serde).validate = .error e) :
    enqueue serde process file = (.refused e, file) := by
  have hpush (queue : QueueArtifact) :
      queue.push (process.envelope serde) process.pushedMs = .error e := by
    have hpending : { process.envelope serde with status := .pending } = process.envelope serde := rfl
    rw [QueueArtifact.push, hpending, h]
  rw [enqueue]
  dsimp only
  rw [hpush]

/-- A valid envelope is accepted, whatever becomes of the file. -/
theorem enqueue_of_valid (queue : QueueArtifact)
    (hqueue : (match QueueArtifact.load serde process.loadedMs file with
      | .ok queue => queue
      | .error _ => .empty process.loadedMs) = queue)
    (hvalid : (process.envelope serde).validate = .ok ()) :
    (enqueue serde process file).1.ok = true ∧ (enqueue serde process file).2 =
      ((queue.pushed (process.envelope serde) process.pushedMs).save serde process.io file).2 := by
  rw [enqueue]
  dsimp only
  rw [hqueue, push_envelope queue hvalid]
  exact ⟨rfl, rfl⟩

theorem save_reads_back (hserde : serde.Lawful) {io : Io} (hparents : io.createDirAll = none)
    (hwrite : io.write = none) (hvalid : queue.validate = .ok ())
    (hpayloads : ∀ item ∈ queue.items, serde.Restores item.payload) :
    ∃ raw, (queue.save serde io file).2 = .text raw ∧ serde.queueFromStr raw = .ok queue := by
  obtain ⟨text, hprint, hread⟩ := hserde.readsBack queue hpayloads
  exact ⟨text, by simp [QueueArtifact.save, hvalid, hparents, hprint, hwrite], hread⟩

end Command

/-! ## Runs of processes -/

/-- Where the file loads, a command that succeeds leaves in it the items there were and the
new one, sorted and with ids of their own; where it does not load, the file stays. -/
structure LosesNothing (serde : Serde) (file : Stored) (process : Process) : Prop where
  grows : ∀ queue, QueueArtifact.load serde process.loadedMs file = .ok queue →
    (enqueue serde process file).1.ok = true →
      ∃ raw after, (enqueue serde process file).2 = .text raw ∧ serde.queueFromStr raw = .ok after ∧
        after.items.Perm (process.envelope serde :: queue.items) ∧ after.items.Pairwise Precedes ∧
        (after.items.map SwarmEnvelope.id).Nodup
  keeps : ∀ error, QueueArtifact.load serde process.loadedMs file = .error error →
    (enqueue serde process file).2 = file

/-- The file is there to be added to: it loads, and no two ids are the same, that of the new
envelope among them. -/
def Ready (serde : Serde) (file : Stored) (process : Process) (queue : QueueArtifact) : Prop :=
  QueueArtifact.load serde process.loadedMs file = .ok queue ∧
    ((process.envelope serde :: queue.items).map SwarmEnvelope.id).Nodup

/-- What a command that is not refused needs: a file that is ready, a write that succeeds and
payloads that are read back. -/
def Safe (serde : Serde) (file : Stored) (process : Process) : Prop :=
  (process.envelope serde).validate = .ok () →
    process.io.createDirAll = none ∧ process.io.write = none ∧
      ∃ queue, Ready serde file process queue ∧
        ∀ item ∈ process.envelope serde :: queue.items, serde.Restores item.payload

section Runs

variable {serde : Serde} {process : Process} {file : Stored}

theorem losesNothing_of_refused {e : String} (h : (process.envelope serde).validate = .error e) :
    LosesNothing serde file process where
  grows queue _ hok := by
    rw [enqueue_of_error h] at hok
    cases hok
  keeps error _ := by rw [enqueue_of_error h]

/-- A valid envelope and a write that succeeds: the file holds the queue with the envelope. -/
theorem enqueue_reads_back (hserde : serde.Lawful) (hparents : process.io.createDirAll = none)
    (hwrite : process.io.write = none) (hvalid : (process.envelope serde).validate = .ok ())
    {queue : QueueArtifact} (hqueue : (match QueueArtifact.load serde process.loadedMs file with
      | .ok queue => queue
      | .error _ => .empty process.loadedMs) = queue) (hload : queue.validate = .ok ())
    (hpayloads : ∀ item ∈ process.envelope serde :: queue.items, serde.Restores item.payload) :
    (enqueue serde process file).1.ok = true ∧ ∃ raw, (enqueue serde process file).2 = .text raw ∧
      serde.queueFromStr raw = .ok (queue.pushed (process.envelope serde) process.pushedMs) := by
  obtain ⟨hok, hfile⟩ := enqueue_of_valid queue hqueue hvalid
  obtain ⟨raw, hraw, hread⟩ := @save_reads_back _ file _ hserde _ hparents hwrite
    (QueueArtifact.validate_pushed hload hvalid)
    fun item hitem => hpayloads item (QueueArtifact.pushed_perm.mem_iff.mp hitem)
  exact ⟨hok, raw, hfile.trans hraw, hread⟩

/-- **A safe command loses nothing.** -/
theorem losesNothing_of_safe (hserde : serde.Lawful) (h : Safe serde file process) :
    LosesNothing serde file process := by
  cases hvalid : (process.envelope serde).validate with
  | error e => exact losesNothing_of_refused hvalid
  | ok _ =>
    obtain ⟨hparents, hwrite, queue, ⟨hload, hnodup⟩, hpayloads⟩ := h hvalid
    constructor
    · intro queue' hload' _
      obtain rfl : queue = queue' := by
        rw [hload] at hload'
        exact Except.ok.inj hload'
      obtain ⟨-, raw, hraw, hread⟩ := @enqueue_reads_back _ _ file hserde hparents hwrite hvalid queue
        (by rw [hload]) (QueueArtifact.validate_of_load hload) hpayloads
      have hperm := @QueueArtifact.pushed_perm queue (process.envelope serde) process.pushedMs
      refine ⟨raw, _, hraw, hread, hperm, QueueArtifact.pairwise_precedes _, ?_⟩
      exact (hperm.map SwarmEnvelope.id).nodup_iff.mpr hnodup
    · intro error herror
      rw [hload] at herror
      cases herror

/-- **Where the write succeeds and payloads are read back**, a command loses nothing just where
the envelope is refused or the file is ready for it. -/
theorem losesNothing_iff_of_stored (hserde : serde.Lawful) (hparents : process.io.createDirAll = none)
    (hwrite : process.io.write = none) (hpayload : serde.Restores (process.envelope serde).payload)
    (hstored : ∀ queue, QueueArtifact.load serde process.loadedMs file = .ok queue →
      ∀ item ∈ queue.items, serde.Restores item.payload) :
    LosesNothing serde file process ↔
      ((process.envelope serde).validate = .ok () → ∃ queue, Ready serde file process queue) := by
  constructor
  · intro h hvalid
    cases hload : QueueArtifact.load serde process.loadedMs file with
    | error e =>
      -- the command wrote a queue of one item, which loads
      have hone : ∀ item ∈ process.envelope serde :: (QueueArtifact.empty process.loadedMs).items,
          serde.Restores item.payload := List.forall_mem_singleton.mpr hpayload
      have hempty : (QueueArtifact.empty process.loadedMs).validate = .ok () :=
        QueueArtifact.validate_eq_ok.mpr ⟨rfl, by simp [QueueArtifact.empty]⟩
      obtain ⟨-, raw, hraw, hread⟩ := @enqueue_reads_back _ _ file hserde hparents hwrite hvalid _
        (by rw [hload]) hempty hone
      rw [h.keeps e hload] at hraw
      rw [hraw, QueueArtifact.load_text hread (QueueArtifact.validate_pushed hempty hvalid)] at hload
      cases hload
    | ok queue =>
      have hall : ∀ item ∈ process.envelope serde :: queue.items, serde.Restores item.payload :=
        List.forall_mem_cons.mpr ⟨hpayload, hstored queue hload⟩
      obtain ⟨hok, -⟩ := @enqueue_reads_back _ _ file hserde hparents hwrite hvalid queue
        (by rw [hload]) (QueueArtifact.validate_of_load hload) hall
      obtain ⟨raw, after, -, -, hperm, -, hnodup⟩ := h.grows queue hload hok
      exact ⟨queue, hload, (hperm.map SwarmEnvelope.id).nodup_iff.mp hnodup⟩
  · intro h
    refine losesNothing_of_safe hserde fun hvalid => ?_
    obtain ⟨queue, hready⟩ := h hvalid
    exact ⟨hparents, hwrite, queue, hready,
      List.forall_mem_cons.mpr ⟨hpayload, hstored queue hready.1⟩⟩

end Runs

/-- **Enqueueing loses nothing**, over any run of processes each of which is safe where it runs. -/
theorem enqueues_lose_nothing (serde : Serde) (hserde : serde.Lawful) (file : Stored)
    (processes : List Process) (h : Runs.Meets (step serde) (Safe serde) file processes) :
    Runs.Meets (step serde) (LosesNothing serde) file processes :=
  h.imp fun _ _ hsafe => losesNothing_of_safe hserde hsafe

/-! ## What a run accumulates -/

section Accounts

variable (serde : Serde) {file : Stored} {process : Process} {items : List SwarmEnvelope}

/-- The envelope of a process, where it is valid and the system lets it through to the file. -/
def accepted (process : Process) : List SwarmEnvelope :=
  if (process.envelope serde).validate = .ok () ∧ process.io.createDirAll = none ∧
    process.io.write = none then [process.envelope serde] else []

/-- The file loads as these envelopes, sorted, and their payloads are read back. -/
def Holds (file : Stored) (items : List SwarmEnvelope) : Prop :=
  (∀ item ∈ items, serde.Restores item.payload) ∧
    ∀ now, ∃ queue, QueueArtifact.load serde now file = .ok queue ∧ queue.items.Perm items ∧
      queue.items.Pairwise Precedes

/-- The payload is read back, and a write that fails leaves the file. -/
def Intact (file : Stored) (process : Process) : Prop :=
  serde.Restores (process.envelope serde).payload ∧ ∀ e left, process.io.write = some (e, left) → left = file

variable {serde}

theorem Holds.step (hserde : serde.Lawful) (h : Holds serde file items)
    (hintact : Intact serde file process) :
    Holds serde (step serde file process) (items ++ accepted serde process) := by
  cases hvalid : (process.envelope serde).validate with
  | error e =>
    rw [SwarmRouter.step, enqueue_of_error hvalid, accepted, if_neg (by simp [hvalid]), List.append_nil]
    exact h
  | ok _ =>
    obtain ⟨queue, hload, hperm, -⟩ := h.2 process.loadedMs
    have hqueue := QueueArtifact.validate_of_load hload
    by_cases hio : process.io.createDirAll = none ∧ process.io.write = none
    · have hall : ∀ item ∈ process.envelope serde :: queue.items, serde.Restores item.payload :=
        List.forall_mem_cons.mpr ⟨hintact.1, fun item hitem => h.1 item (hperm.mem_iff.mp hitem)⟩
      obtain ⟨-, raw, hraw, hread⟩ := @enqueue_reads_back _ _ file hserde hio.1 hio.2 hvalid queue
        (by rw [hload]) hqueue hall
      have hmore : (process.envelope serde :: queue.items).Perm (items ++ [process.envelope serde]) :=
        (hperm.cons _).trans (List.perm_append_singleton _ _).symm
      rw [SwarmRouter.step, hraw, accepted, if_pos ⟨hvalid, hio⟩]
      exact ⟨fun item hitem => hall item (hmore.mem_iff.mpr hitem), fun now =>
        ⟨_, QueueArtifact.load_text hread (QueueArtifact.validate_pushed hqueue hvalid),
          QueueArtifact.sortPriority_perm.trans (QueueArtifact.pushed_perm.trans hmore),
          QueueArtifact.pairwise_precedes _⟩⟩
    · have hsame : SwarmRouter.step serde file process = file := by
        rw [SwarmRouter.step, (enqueue_of_valid queue (by rw [hload]) hvalid).2, QueueArtifact.save,
          QueueArtifact.validate_pushed hqueue hvalid]
        cases hdir : process.io.createDirAll with
        | some e => rfl
        | none =>
          cases hwrite : process.io.write with
          | none => exact absurd ⟨hdir, hwrite⟩ hio
          | some failed =>
            obtain rfl := hintact.2 failed.1 failed.2 hwrite
            dsimp only
            split <;> rfl
      rw [hsame, accepted, if_neg fun h => hio h.2, List.append_nil]
      exact h

/-- **The file accumulates the run**: it loads as the envelopes that were accepted, each as often as
it was, whatever their ids, and in the order of the queue. -/
theorem run_accumulates (hserde : serde.Lawful) (processes : List Process)
    (h : Runs.Meets (step serde) (Intact serde) .absent processes) :
    Holds serde (Runs.run (step serde) .absent processes)
      (Runs.logs (step serde) (fun _ => accepted serde) .absent processes) :=
  @Runs.Meets.logs_invariant _ _ _ _ _ _ (Holds serde) (fun _ _ _ hfile hintact => hfile.step hserde hintact)
    processes .absent [] ⟨by simp, fun now => ⟨_, rfl, .refl _, .nil⟩⟩ h

end Accounts

/-! ## Runs on concrete inputs -/

/-- A process with these flags. -/
def processWith (flags : List String) : Process where
  args := "swarm_router" :: "enqueue" :: flags
  loadedMs := 1
  createdMs := 2
  pushedMs := 3
  receiptMs := 4

/-- The envelope of a process without flags. -/
def coordinatorItem : SwarmEnvelope where
  id := "coordinator-0000000000000001"
  replyTo := none
  route := "swarm/default"
  payload := .obj []
  priority := 5
  status := .pending
  createdUnixMs := 2

/-- The envelope of a worker of priority 7. -/
def workerItem : SwarmEnvelope :=
  { coordinatorItem with id := "worker-0000000000000001", priority := 7 }

/-- A queue of these items. -/
def queueOf (items : List SwarmEnvelope) : QueueArtifact where
  schemaVersion := "swarm_queue_v1"
  updatedUnixMs := 3
  items := items

def TaskStatus.text : TaskStatus → String
  | .pending => "pending"
  | .inProgress => "in_progress"
  | .complete => "complete"
  | .failed => "failed"

def SwarmEnvelope.toJson (e : SwarmEnvelope) : Json :=
  .obj [("id", .str e.id), ("reply_to", (e.replyTo.map Json.str).getD .null), ("route", .str e.route),
    ("payload", e.payload), ("priority", .num (.posInt e.priority.toUInt64)),
    ("status", .str e.status.text), ("created_unix_ms", .num (.posInt e.createdUnixMs))]

def QueueArtifact.toJson (queue : QueueArtifact) : Json :=
  .obj [("schema_version", .str queue.schemaVersion),
    ("updated_unix_ms", .num (.posInt queue.updatedUnixMs)), ("items", .arr (queue.items.map (·.toJson)))]

theorem SwarmEnvelope.toJson_injective : Function.Injective SwarmEnvelope.toJson := by
  rintro ⟨_, a, _, _, _, s, _⟩ ⟨_, b, _, _, _, t, _⟩ h
  have hstatus : Function.Injective TaskStatus.text := by
    rintro ⟨⟩ ⟨⟩ h <;> first | rfl | exact absurd h (by decide)
  have hpriority : Function.Injective UInt8.toUInt64 := fun m n h =>
    UInt8.toNat_inj.mp (by simpa using congrArg UInt64.toNat h)
  have hreply : Function.Injective fun reply : Option String => (reply.map Json.str).getD .null := by
    rintro (_ | _) (_ | _) h <;> simp_all
  simp only [toJson, Json.obj.injEq, List.cons.injEq, Prod.mk.injEq, Json.str.injEq, Json.num.injEq,
    JsonNumber.posInt.injEq, true_and, and_true] at h
  obtain ⟨rfl, hab, rfl, rfl, hmn, hst, rfl⟩ := h
  rw [hreply hab, hpriority hmn, hstatus hst]

theorem QueueArtifact.toJson_injective : Function.Injective QueueArtifact.toJson := by
  rintro ⟨_, _, _⟩ ⟨_, _, _⟩ h
  simp only [toJson, Json.obj.injEq, List.cons.injEq, Prod.mk.injEq, Json.str.injEq, Json.num.injEq,
    JsonNumber.posInt.injEq, Json.arr.injEq, true_and, and_true] at h
  obtain ⟨rfl, rfl, hitems⟩ := h
  rw [List.map_injective_iff.mpr SwarmEnvelope.toJson_injective hitems]

/-- A queue as it is printed. -/
def plainText (queue : QueueArtifact) : String := queue.toJson.render V8Kernel.pointed

theorem plainText_injective : Function.Injective plainText := fun _ _ h =>
  QueueArtifact.toJson_injective (Json.render_injective V8Kernel.floatText_pointed h)

/-- What a text was printed from. -/
noncomputable def readFrom {α : Type} (print : α → String) (text : String) : Except String α :=
  open Classical in
  if h : ∃ a, print a = text then .ok h.choose else .error "expected value at line 1 column 1"

theorem readFrom_print {α : Type} {print : α → String} (hprint : Function.Injective print) (a : α) :
    readFrom print (print a) = .ok a := by
  have h : ∃ a', print a' = print a := ⟨a, rfl⟩
  have hread : readFrom print (print a) = .ok h.choose := dif_pos h
  rw [hread, hprint h.choose_spec]

/-- A queue with its payloads as a map holds them. -/
def QueueArtifact.normalized (queue : QueueArtifact) : QueueArtifact :=
  { queue with items := queue.items.map fun item => { item with payload := item.payload.normalizeValue } }

/-- A printer of JSON, and the reader of what it prints, which puts the entries of a payload in order. -/
noncomputable def plainSerde : Serde where
  queueFromStr text := (readFrom plainText text).map (·.normalized)
  queueToString queue := .ok (plainText queue)
  valueFromStr text := (readFrom (Json.render V8Kernel.pointed) text).map (·.normalizeValue)
  reread := id

theorem plainSerde_reads {queue : QueueArtifact} (h : queue.normalized = queue) :
    plainSerde.queueFromStr (plainText queue) = .ok queue := by
  change (readFrom plainText (plainText queue)).map (·.normalized) = .ok queue
  rw [readFrom_print plainText_injective, Except.map, h]

theorem plainSerde_lawful : plainSerde.Lawful where
  readsBack queue h := by
    have hitems : queue.items.map (fun item => { item with payload := item.payload.normalizeValue }) =
        queue.items := by
      refine (List.map_congr_left fun item hitem => ?_).trans queue.items.map_id
      have hpayload := (h item hitem).2
      rw [plainSerde, Json.reread_id] at hpayload
      rw [hpayload]
      rfl
    exact ⟨_, rfl, plainSerde_reads (by rw [QueueArtifact.normalized, hitems])⟩

/-- The queue of the first, as it is printed. -/
def firstText : String := plainText (queueOf [coordinatorItem])

/-- The same, less its last brace. -/
def brokenText : String := String.ofList firstText.toList.dropLast

/-- A file that loads is written with the envelope of the process. -/
theorem step_plain {file : Stored} {flags : List String} {queue : QueueArtifact}
    (hload : QueueArtifact.load plainSerde 1 file = .ok queue)
    (hvalid : ((processWith flags).envelope plainSerde).validate = .ok ()) :
    step plainSerde file (processWith flags) =
      .text (plainText (queue.pushed ((processWith flags).envelope plainSerde) 3)) := by
  have hpushed := @QueueArtifact.validate_pushed queue _ 3 (QueueArtifact.validate_of_load hload) hvalid
  have hqueue : (match QueueArtifact.load plainSerde (processWith flags).loadedMs file with
      | .ok queue => queue
      | .error _ => .empty (processWith flags).loadedMs) = queue := by
    rw [processWith, hload]
  refine (enqueue_of_valid queue hqueue hvalid).2.trans ?_
  have hsave : (queue.pushed ((processWith flags).envelope plainSerde) 3).save plainSerde {} file =
      (.ok (), .text (plainText (queue.pushed ((processWith flags).envelope plainSerde) 3))) := by
    rw [QueueArtifact.save, hpushed]
    rfl
  exact congrArg Prod.snd hsave

/-- The payload a command takes where it names none. -/
theorem plainSerde_braces : plainSerde.valueFromStr "\x7b\x7d" = .ok (.obj []) := by
  have hinj : Function.Injective (Json.render V8Kernel.pointed) := fun _ _ h =>
    Json.render_injective V8Kernel.floatText_pointed h
  have htext : "\x7b\x7d" = (Json.obj []).render V8Kernel.pointed := by decide
  rw [htext]
  exact congrArg (Except.map _) (readFrom_print hinj _)

theorem envelope_coordinator : (processWith []).envelope plainSerde = coordinatorItem := by
  have hflag : parseFlag (processWith []).args "payload-json" "\x7b\x7d" = "\x7b\x7d" := by decide
  rw [Process.envelope, hflag, plainSerde_braces]
  decide

theorem envelope_worker :
    (processWith ["--role=worker", "--priority=7"]).envelope plainSerde = workerItem := by
  have hflag : parseFlag (processWith ["--role=worker", "--priority=7"]).args "payload-json" "\x7b\x7d" =
      "\x7b\x7d" := by decide
  rw [Process.envelope, hflag, plainSerde_braces]
  decide

theorem step_first : step plainSerde .absent (processWith []) = .text firstText := by
  have hvalid : coordinatorItem.validate = .ok () := by rfl
  have hpushed : (QueueArtifact.empty 1).pushed coordinatorItem 3 = queueOf [coordinatorItem] := rfl
  rw [step_plain rfl (by rw [envelope_coordinator, hvalid]), envelope_coordinator, hpushed, firstText]

theorem load_first : QueueArtifact.load plainSerde 1 (.text firstText) = .ok (queueOf [coordinatorItem]) :=
  QueueArtifact.load_text (@plainSerde_reads (queueOf [coordinatorItem]) rfl) (by rfl)

theorem restores_item : plainSerde.Restores (.obj []) := ⟨by decide, rfl⟩

/-- A coordinator's envelope and a worker's, each by a process of its own. -/
theorem twoRoles_lose_nothing :
    Runs.Meets (step plainSerde) (LosesNothing plainSerde) .absent
      [processWith [], processWith ["--role=worker", "--priority=7"]] := by
  refine enqueues_lose_nothing plainSerde plainSerde_lawful .absent _ ⟨fun _ => ?_, fun _ => ?_, trivial⟩
  · refine ⟨rfl, rfl, .empty 1, ⟨rfl, by simp [QueueArtifact.empty]⟩, ?_⟩
    rw [envelope_coordinator]
    exact List.forall_mem_singleton.mpr restores_item
  · refine ⟨rfl, rfl, queueOf [coordinatorItem], ⟨?_, ?_⟩, ?_⟩
    · rw [step_first]
      exact load_first
    · rw [envelope_worker]
      decide
    · rw [envelope_worker]
      exact List.forall_mem_cons.mpr ⟨restores_item, List.forall_mem_singleton.mpr restores_item⟩

/-- Two envelopes under one id are both in the file. -/
theorem run_accumulates_twice :
    Holds plainSerde (Runs.run (step plainSerde) .absent [processWith [], processWith []])
      [coordinatorItem, coordinatorItem] := by
  have hintact (file : Stored) : Intact plainSerde file (processWith []) :=
    ⟨by rw [envelope_coordinator]; exact restores_item, nofun⟩
  have h := run_accumulates plainSerde_lawful [processWith [], processWith []]
    ⟨hintact .absent, hintact _, trivial⟩
  have hone : accepted plainSerde (processWith []) = [coordinatorItem] := by
    rw [accepted, envelope_coordinator]
    rfl
  simpa [Runs.logs, hone] using h

theorem load_broken : QueueArtifact.load plainSerde 1 (.text brokenText) =
    .error "queue_decode_failed:expected value at line 1 column 1" := by
  -- what is printed ends with a brace
  have hnone : ¬∃ queue, plainText queue = brokenText := by
    rintro ⟨queue, h⟩
    have hlast := congrArg (fun text => text.toList.getLast?) h
    simp only [plainText, QueueArtifact.toJson, Json.render, String.toList_append] at hlast
    have hends : "\x7d".toList = ['\x7d'] ∧ "]".toList = [']'] := ⟨rfl, rfl⟩
    have hbroken : brokenText.toList.getLast? = some ']' := by
      simp only [brokenText, firstText, plainText, QueueArtifact.toJson, Json.render, Json.renderFields,
        String.toList_append, hends, List.dropLast_concat, String.toList_ofList]
      simp only [← List.append_assoc, List.getLast?_concat]
    rw [List.getLast?_append, hbroken] at hlast
    cases hlast
  have hread : plainSerde.queueFromStr brokenText = .error "expected value at line 1 column 1" :=
    congrArg (Except.map _) (dif_neg hnone)
  rw [QueueArtifact.load, hread]
  rfl

/-- A second envelope of one role gets the id of the first, and a file that does not decode is
written over. -/
theorem enqueues_lose :
    ¬Runs.Meets (step plainSerde) (LosesNothing plainSerde) .absent [processWith [], processWith []] ∧
      ¬LosesNothing plainSerde (.text brokenText) (processWith []) := by
  have hvalid : ((processWith []).envelope plainSerde).validate = .ok () := by
    rw [envelope_coordinator]
    rfl
  have hpayload : plainSerde.Restores ((processWith []).envelope plainSerde).payload := by
    rw [envelope_coordinator]
    exact restores_item
  constructor
  · rintro ⟨-, hloses, -⟩
    rw [step_first] at hloses
    have hstored : ∀ queue,
        QueueArtifact.load plainSerde (processWith []).loadedMs (.text firstText) = .ok queue →
          ∀ item ∈ queue.items, plainSerde.Restores item.payload := by
      intro queue hload
      obtain rfl := Except.ok.inj (load_first.symm.trans hload)
      exact List.forall_mem_singleton.mpr restores_item
    obtain ⟨queue, hload, hnodup⟩ :=
      (losesNothing_iff_of_stored plainSerde_lawful rfl rfl hpayload hstored).mp hloses hvalid
    obtain rfl := Except.ok.inj (load_first.symm.trans hload)
    rw [envelope_coordinator] at hnodup
    exact absurd hnodup (by decide)
  · intro hloses
    have hstored : ∀ queue,
        QueueArtifact.load plainSerde (processWith []).loadedMs (.text brokenText) = .ok queue →
          ∀ item ∈ queue.items, plainSerde.Restores item.payload :=
      fun queue hload => by cases load_broken.symm.trans hload
    obtain ⟨queue, hload, -⟩ :=
      (losesNothing_iff_of_stored plainSerde_lawful rfl rfl hpayload hstored).mp hloses hvalid
    cases load_broken.symm.trans hload

end SwarmRouter

end Protheus
