import Protheus.LaneUtils
import Protheus.Lib.Runs
import Protheus.Lib.SqlTable

/-!
The durable queue of `queue_sqlite_kernel.rs`: the events and the receipts of one database.

An event is stored under the hash of its fields joined by bars, unless that key is taken; a receipt is
stored under the hash of its own text, in place of what stood there.  The fields may hold bars
themselves, and the lane of a receipt is not hashed, so a record stays only where no other record
shares its hashed text (`records_stay`).
-/

namespace Protheus.QueueSqlite

open LaneUtils

/-- What the process gets from outside: SHA-256, and the text of a float in JSON. -/
structure Host where
  sha256Hex : String → String
  printFloat : ℚ → String

/-- A row of `backlog_queue_events`. -/
structure EventRow where
  eventId : String
  queueName : String
  laneId : Option String
  eventType : String
  payloadJson : String
  ts : String
  deriving DecidableEq

/-- A row of `backlog_queue_receipts`. -/
structure ReceiptRow where
  receiptId : String
  laneId : String
  receiptJson : String
  ts : String
  deriving DecidableEq

/-- The two tables that `append-event` and `insert-receipt` write. -/
structure Database where
  events : List EventRow := []
  receipts : List ReceiptRow := []

/-! ## Texts -/

/-- The loop of `normalize_queue_name`. -/
def queueChars : Bool → List Char → List Char
  | _, [] => []
  | prevUnderscore, ch :: rest =>
    if ch.isAlphanum || ['.', ':', '-'].contains ch then ch :: queueChars false rest
    else if prevUnderscore then queueChars true rest
    else '_' :: queueChars true rest

/-- `normalize_queue_name`. -/
def normalizeQueueName (raw : String) : String :=
  let out := queueChars false (RustStd.toAsciiLowercase (RustStd.trim raw)).toList
  let trimmed := ((out.dropWhile (· == '_')).reverse.dropWhile (· == '_')).reverse
  if trimmed = [] then "default_queue" else String.ofList trimmed

/-- `str::to_ascii_uppercase`. -/
def toAsciiUppercase (s : String) : String := String.ofList (s.toList.map Char.toUpper)

/-- `clean_lane_id`. -/
def cleanLaneId (raw : String) : String := toAsciiUppercase (RustStd.trim raw)

/-- `as_i64`. -/
def asI64 (value : Option Json) (fallback : ℤ) : ℤ :=
  match value with
  | some (.num n) => (Json.num n).asI64.getD fallback
  | some (.str s) => ((RustStd.parseI64 (RustStd.trim s)).map Int64.toInt).getD fallback
  | _ => fallback

/-- `sanitize_journal_mode`. -/
def sanitizeJournalMode (raw : String) : String :=
  let mode := toAsciiUppercase (RustStd.trim raw)
  if ["DELETE", "TRUNCATE", "PERSIST", "MEMORY", "WAL", "OFF"].contains mode then mode else "WAL"

/-- `sanitize_synchronous`. -/
def sanitizeSynchronous (raw : String) : String :=
  let mode := toAsciiUppercase (RustStd.trim raw)
  if ["OFF", "NORMAL", "FULL", "EXTRA"].contains mode then mode else "NORMAL"

/-! ## Commands -/

inductive Command where
  | appendEvent
  | insertReceipt
  deriving DecidableEq

/-- A call: its payload, the time stamp `now_iso` answers, and the texts of the errors with which
SQLite refuses to open the database or to execute a statement, if it does. -/
structure Call where
  command : Command
  payload : List (String × Json)
  now : String := "1970-01-01T00:00:00.000Z"
  openFault : Option String := none
  fault : Option String := none

structure SqliteCfg where
  dbPath : String
  journalMode : String
  synchronous : String
  busyTimeoutMs : ℤ

/-- The object that the configuration is read from. -/
def cfgSource (payload : List (String × Json)) : List (String × Json) :=
  (((payload.lookup "sqlite_cfg").bind Json.asObject).or
    ((((payload.lookup "db").bind Json.asObject).bind (·.lookup "sqlite_cfg")).bind
      Json.asObject)).getD payload

/-- `sqlite_cfg_from_payload`; `none` where `clean_text` aborts the process. -/
def sqliteCfgFromPayload (host : Host) (payload : List (String × Json)) :
    Option (Except String SqliteCfg) := do
  let source := cfgSource payload
  let dbPath ← cleanText host.printFloat (source.lookup "db_path") 520
  if dbPath = "" then return .error "queue_sqlite_db_path_required"
  let journalMode ← cleanText host.printFloat (source.lookup "journal_mode") 24
  let synchronous ← cleanText host.printFloat (source.lookup "synchronous") 24
  return .ok
    { dbPath
      journalMode := sanitizeJournalMode journalMode
      synchronous := sanitizeSynchronous synchronous
      busyTimeoutMs := min (max (asI64 (source.lookup "busy_timeout_ms") 5000) 100) 120000 }

/-- What a successful call answers. -/
inductive Answer where
  | event (eventId : String)
  | receipt (receiptId ts : String)
  deriving DecidableEq

def EventRow.joined (row : EventRow) : String :=
  row.queueName ++ "|" ++ row.laneId.getD "" ++ "|" ++ row.eventType ++ "|" ++ row.payloadJson ++ "|" ++
    row.ts

def EventRow.record (row : EventRow) : String × Option String × String × String × String :=
  (row.queueName, row.laneId, row.eventType, row.payloadJson, row.ts)

/-- The row of `append_event`. -/
def eventRow (host : Host) (queueName laneId eventType : String) (payload : Json) (ts : String) :
    EventRow :=
  let laneId := cleanLaneId laneId
  let row : EventRow :=
    { eventId := ""
      queueName := normalizeQueueName queueName
      laneId := if laneId = "" then none else some laneId
      eventType
      payloadJson := payload.canonicalJson host.printFloat
      ts }
  { row with eventId := host.sha256Hex row.joined }

theorem eventId_eventRow (host : Host) (queueName laneId eventType : String) (payload : Json)
    (ts : String) : (eventRow host queueName laneId eventType payload ts).eventId =
      host.sha256Hex (eventRow host queueName laneId eventType payload ts).joined := by
  dsimp only [eventRow, EventRow.joined]

/-- What `run` and the head of `append_event` read from a payload: the row to be stored. -/
def readEvent (host : Host) (call : Call) : Option EventRow := do
  let queueName ← cleanText host.printFloat (call.payload.lookup "queue_name") 160
  let laneId ← cleanText host.printFloat (call.payload.lookup "lane_id") 120
  let eventType ← cleanText host.printFloat (call.payload.lookup "event_type") 80
  let payload := (call.payload.lookup "payload").getD (.obj [])
  let ts ← cleanText host.printFloat (call.payload.lookup "ts") 120
  let normalizedType ←
    if RustStd.trim eventType = "" then some "event"
    else cleanText host.printFloat (some (.str eventType)) 80
  return eventRow host (if queueName = "" then "default_queue" else queueName) laneId normalizedType
    payload (if RustStd.trim ts = "" then call.now else RustStd.trim ts)

/-- What `run` and the head of `insert_receipt` read from a payload. -/
def readReceipt (host : Host) (call : Call) : Option (Except String ReceiptRow) := do
  let laneId ← cleanText host.printFloat (call.payload.lookup "lane_id") 120
  if laneId = "" then return .error "queue_sqlite_lane_id_missing"
  let receipt := (call.payload.lookup "receipt").getD (.obj [])
  let receiptJson := receipt.canonicalJson host.printFloat
  let ts ← cleanText host.printFloat (receipt.get? "ts") 120
  return .ok
    { receiptId := host.sha256Hex receiptJson
      laneId := cleanLaneId laneId
      receiptJson
      ts := if ts = "" then call.now else ts }

/-- The statement of `append_event`. -/
def appendEvent (call : Call) (row : EventRow) (db : Database) : Except String Answer × Database :=
  match call.fault with
  | some err => (.error err, db)
  | none => (.ok (.event row.eventId),
      { db with events := SqlTable.insertOrIgnore EventRow.eventId db.events row })

/-- The statement of `insert_receipt`. -/
def insertReceipt (call : Call) (row : ReceiptRow) (db : Database) :
    Except String Answer × Database :=
  match call.fault with
  | some err => (.error err, db)
  | none => (.ok (.receipt row.receiptId row.ts),
      { db with receipts := SqlTable.insertOrReplace ReceiptRow.receiptId db.receipts row })

/-- `run`; `none` where the process aborts. -/
def run (host : Host) (call : Call) (db : Database) : Option (Except String Answer × Database) := do
  match ← sqliteCfgFromPayload host call.payload with
  | .error err => return (.error err, db)
  | .ok _ =>
    match call.openFault with
    | some err => return (.error err, db)
    | none =>
      match call.command with
      | .appendEvent =>
        let row ← readEvent host call
        return appendEvent call row db
      | .insertReceipt =>
        match ← readReceipt host call with
        | .error err => return (.error err, db)
        | .ok row => return insertReceipt call row db

/-- The database after a call. -/
def step (host : Host) (db : Database) (call : Call) : Database :=
  match run host call db with
  | some (_, db') => db'
  | none => db

/-! ## What a call stores -/

def Succeeds (host : Host) (db : Database) (call : Call) : Prop :=
  ∃ answer db', run host call db = some (.ok answer, db')

/-- The database holds what a call is to store: a row of the event's fields, or of the receipt and its
lane. -/
def Stores (host : Host) (call : Call) (db : Database) : Prop :=
  match call.command with
  | .appendEvent => ∃ row, readEvent host call = some row ∧ ∃ other ∈ db.events,
      other.record = row.record
  | .insertReceipt => ∃ row, readReceipt host call = some (.ok row) ∧ ∃ other ∈ db.receipts,
      other.laneId = row.laneId ∧ other.receiptJson = row.receiptJson

/-- No other event has the joined text of the call's event, and the call's receipt stands under no
other lane. -/
def Apart (host : Host) (db : Database) (call : Call) : Prop :=
  match call.command with
  | .appendEvent => ∀ row, readEvent host call = some row → ∀ other ∈ db.events,
      other.joined = row.joined → other.record = row.record
  | .insertReceipt => ∀ row, readReceipt host call = some (.ok row) → ∀ other ∈ db.receipts,
      other.receiptJson = row.receiptJson → other.laneId = row.laneId

/-- Every successful call's record is in the database after it and ever after. -/
def RecordsStay (host : Host) (calls : List Call) : Prop :=
  ∀ n call, calls[n]? = some call → Succeeds host (Runs.before (step host) {} calls n) call →
    ∀ m, n < m → Stores host call (Runs.before (step host) {} calls m)

variable {host : Host} {db : Database} {call other : Call} {calls : List Call}

theorem succeeds_of_answer (h : ((run host call db).bind (·.1.toOption)).isSome = true) :
    Succeeds host db call := by
  obtain ⟨answer, hanswer⟩ := Option.isSome_iff_exists.mp h
  obtain ⟨⟨result, db'⟩, hrun, hresult⟩ := Option.bind_eq_some_iff.mp hanswer
  cases result with
  | error err => cases hresult
  | ok answer => exact ⟨answer, db', hrun⟩

/-- A call does nothing to the database, or stores its row. -/
theorem step_cases (host : Host) (db : Database) (call : Call) :
    (¬ Succeeds host db call ∧ step host db call = db) ∨
    (∃ row, call.command = .appendEvent ∧ readEvent host call = some row ∧
      step host db call =
        { db with events := SqlTable.insertOrIgnore EventRow.eventId db.events row }) ∨
    ∃ row, call.command = .insertReceipt ∧ readReceipt host call = some (.ok row) ∧
      step host db call =
        { db with receipts := SqlTable.insertOrReplace ReceiptRow.receiptId db.receipts row } := by
  have hnothing (h : run host call db = none ∨ ∃ err, run host call db = some (.error err, db)) :
      ¬ Succeeds host db call ∧ step host db call = db := by
    obtain hrun | ⟨err, hrun⟩ := h
    · exact ⟨fun ⟨answer, db', hok⟩ => by simp [hrun] at hok, by rw [step, hrun]⟩
    · exact ⟨fun ⟨answer, db', hok⟩ => by simp [hrun] at hok, by rw [step, hrun]⟩
  cases hcfg : sqliteCfgFromPayload host call.payload with
  | none => exact .inl (hnothing (.inl (by rw [run, hcfg]; rfl)))
  | some cfg =>
    cases cfg with
    | error err => exact .inl (hnothing (.inr ⟨err, by rw [run, hcfg]; rfl⟩))
    | ok cfg =>
      cases hopen : call.openFault with
      | some err => exact .inl (hnothing (.inr ⟨err, by rw [run, hcfg, hopen]; rfl⟩))
      | none =>
        cases hcommand : call.command with
        | appendEvent =>
          have hrun : run host call db = (readEvent host call).map fun row => appendEvent call row db := by
            rw [run, hcfg, hopen, hcommand]
            cases readEvent host call <;> rfl
          cases hrow : readEvent host call with
          | none => exact .inl (hnothing (.inl (by rw [hrun, hrow]; rfl)))
          | some row =>
            rw [hrow, Option.map_some, appendEvent] at hrun
            cases hfault : call.fault with
            | some err => exact .inl (hnothing (.inr ⟨err, by rw [hrun, hfault]⟩))
            | none =>
              rw [hfault] at hrun
              exact .inr (.inl ⟨row, rfl, rfl, by rw [step, hrun]⟩)
        | insertReceipt =>
          have hrun : run host call db = (readReceipt host call).map fun row =>
              match row with
              | .error err => (.error err, db)
              | .ok row => insertReceipt call row db := by
            rw [run, hcfg, hopen, hcommand]
            cases readReceipt host call with
            | none => rfl
            | some row => cases row <;> rfl
          cases hrow : readReceipt host call with
          | none => exact .inl (hnothing (.inl (by rw [hrun, hrow]; rfl)))
          | some row =>
            rw [hrow, Option.map_some] at hrun
            cases row with
            | error err => exact .inl (hnothing (.inr ⟨err, hrun⟩))
            | ok row =>
              dsimp only at hrun
              rw [insertReceipt] at hrun
              cases hfault : call.fault with
              | some err => exact .inl (hnothing (.inr ⟨err, by rw [hrun, hfault]⟩))
              | none =>
                rw [hfault] at hrun
                exact .inr (.inr ⟨row, rfl, rfl, by rw [step, hrun]⟩)

/-! ## Records stay -/

/-- Every row stands under the hash of its text. -/
structure Hashed (host : Host) (db : Database) : Prop where
  events : ∀ row ∈ db.events, row.eventId = host.sha256Hex row.joined
  receipts : ∀ row ∈ db.receipts, row.receiptId = host.sha256Hex row.receiptJson

theorem eventId_of_readEvent {row : EventRow} (h : readEvent host call = some row) :
    row.eventId = host.sha256Hex row.joined := by
  unfold readEvent at h
  simp only [Option.bind_eq_bind, Option.bind_eq_some_iff, Option.pure_def] at h
  obtain ⟨queueName, -, laneId, -, eventType, -, ts, -, h⟩ := h
  split at h
  · rw [← Option.some.inj h]
    exact eventId_eventRow host _ _ _ _ _
  · obtain ⟨normalizedType, -, h⟩ := Option.bind_eq_some_iff.mp h
    rw [← Option.some.inj h]
    exact eventId_eventRow host _ _ _ _ _

theorem receiptId_of_readReceipt {row : ReceiptRow} (h : readReceipt host call = some (.ok row)) :
    row.receiptId = host.sha256Hex row.receiptJson := by
  unfold readReceipt at h
  simp only [Option.bind_eq_bind, Option.bind_eq_some_iff] at h
  obtain ⟨laneId, -, h⟩ := h
  split at h
  · cases h
  · simp only [Option.pure_def, Option.bind_eq_some_iff, Option.some.injEq,
      Except.ok.injEq] at h
    obtain ⟨ts, -, rfl⟩ := h
    rfl

theorem Hashed.step (h : Hashed host db) : Hashed host (step host db call) := by
  obtain ⟨-, hstep⟩ | ⟨row, -, hrow, hstep⟩ | ⟨row, -, hrow, hstep⟩ := step_cases host db call
  · rwa [hstep]
  · rw [hstep]
    refine ⟨fun other hother => ?_, h.receipts⟩
    obtain hold | rfl := SqlTable.mem_of_mem_insertOrIgnore hother
    · exact h.events other hold
    · exact eventId_of_readEvent hrow
  · rw [hstep]
    refine ⟨h.events, fun other hother => ?_⟩
    obtain rfl | ⟨hold, -⟩ := SqlTable.mem_insertOrReplace.mp hother
    · exact receiptId_of_readReceipt hrow
    · exact h.receipts other hold

/-- A call whose record is apart from the others stores it. -/
theorem stores_step (hsha : Function.Injective host.sha256Hex) (h : Hashed host db)
    (hapart : Apart host db call) (hok : Succeeds host db call) :
    Stores host call (step host db call) := by
  obtain ⟨hfails, -⟩ | ⟨row, hcommand, hrow, hstep⟩ | ⟨row, hcommand, hrow, hstep⟩ :=
    step_cases host db call
  · exact absurd hok hfails
  · rw [hstep, Stores, hcommand]
    refine ⟨row, hrow, ?_⟩
    obtain hmem | ⟨other, hother, hkey⟩ := SqlTable.exists_mem_insertOrIgnore EventRow.eventId
      db.events row
    · exact ⟨row, hmem, rfl⟩
    · rw [Apart, hcommand] at hapart
      rw [h.events other hother, eventId_of_readEvent hrow] at hkey
      exact ⟨other, SqlTable.mem_insertOrIgnore_of_mem hother,
        hapart row hrow other hother (hsha hkey)⟩
  · rw [hstep, Stores, hcommand]
    exact ⟨row, hrow, row, SqlTable.mem_insertOrReplace.mpr (.inl rfl), rfl, rfl⟩

/-- A call whose record is apart from the others keeps them. -/
theorem Stores.step (hsha : Function.Injective host.sha256Hex) (h : Hashed host db)
    (hapart : Apart host db call) (hstores : Stores host other db) :
    Stores host other (step host db call) := by
  obtain ⟨-, hstep⟩ | ⟨row, -, hrow, hstep⟩ | ⟨row, hcommand, hrow, hstep⟩ := step_cases host db call
  · rwa [hstep]
  · rw [hstep]
    unfold Stores at hstores ⊢
    cases hother : other.command with
    | appendEvent =>
      rw [hother] at hstores
      obtain ⟨wanted, hwanted, stored, hmem, hrecord⟩ := hstores
      exact ⟨wanted, hwanted, stored, SqlTable.mem_insertOrIgnore_of_mem hmem, hrecord⟩
    | insertReceipt =>
      rwa [hother] at hstores
  · rw [hstep]
    unfold Stores at hstores ⊢
    cases hother : other.command with
    | appendEvent =>
      rwa [hother] at hstores
    | insertReceipt =>
      rw [hother] at hstores
      obtain ⟨wanted, hwanted, stored, hmem, hlane, hjson⟩ := hstores
      refine ⟨wanted, hwanted, ?_⟩
      by_cases hkey : stored.receiptId = row.receiptId
      · -- the new row takes the place of the old one
        rw [Apart, hcommand] at hapart
        rw [h.receipts stored hmem, receiptId_of_readReceipt hrow] at hkey
        have hsame := hapart row hrow stored hmem (hsha hkey)
        exact ⟨row, SqlTable.mem_insertOrReplace.mpr (.inl rfl), hsame.symm.trans hlane,
          (hsha hkey).symm.trans hjson⟩
      · exact ⟨stored, SqlTable.mem_insertOrReplace.mpr (.inr ⟨hmem, hkey⟩), hlane, hjson⟩

/-- **The queue loses no record** in a run of calls whose records are apart from those in the database:
no other event has the same joined text, and the receipt stands under no other lane. -/
theorem records_stay (hsha : Function.Injective host.sha256Hex) (calls : List Call)
    (hapart : Runs.Meets (step host) (Apart host) {} calls) : RecordsStay host calls := by
  have hhashed (k : ℕ) : Hashed host (Runs.before (step host) {} calls k) :=
    hapart.before (fun _ _ h _ => Hashed.step h) ⟨by simp, by simp⟩ k
  intro n call hcall hok m hm
  refine Runs.before_induction (step host) hm ?_ ?_
  · rw [Runs.before_succ_of_some (step host) hcall]
    exact stores_step hsha (hhashed n) (Runs.Meets.iff_forall.mp hapart n call hcall) hok
  · intro k next _ hnext hstores
    exact hstores.step hsha (hhashed k) (Runs.Meets.iff_forall.mp hapart k next hnext)

/-! ## Two runs -/

/-- A process whose hash is the text itself. -/
def plainQueue : Host := ⟨id, fun _ => "0.5"⟩

/-- A call on one database, all at one time. -/
def callOn (command : Command) (fields : List (String × Json)) : Call :=
  { command, payload := ("db_path", .str "queue.sqlite") :: fields }

def eventAndReceipt : List Call :=
  [callOn .appendEvent [("lane_id", .str "bl-1"), ("event_type", .str "queued")],
    callOn .insertReceipt [("lane_id", .str "bl-1"), ("receipt", .obj [("ok", .bool true)])]]

theorem records_stay_lane : RecordsStay plainQueue eventAndReceipt := by
  have hnone : (step plainQueue {} (callOn .appendEvent
      [("lane_id", .str "bl-1"), ("event_type", .str "queued")])).receipts = [] := by decide +kernel
  refine records_stay Function.injective_id eventAndReceipt ⟨?_, ?_, trivial⟩
  · exact fun _ _ _ hother => absurd hother List.not_mem_nil
  · exact fun _ _ other hother => absurd (hnone ▸ hother) List.not_mem_nil

/-- Two events whose joined texts agree: the bar stands in the type of one and in the lane of the
other. -/
def barredEvents : List Call :=
  [callOn .appendEvent [("lane_id", .str "A"), ("event_type", .str "B|x")],
    callOn .appendEvent [("lane_id", .str "A|B"), ("event_type", .str "x")]]

/-- The second of two events is answered as stored, and is not. -/
theorem barred_event_lost : ¬ RecordsStay plainQueue barredEvents := by
  have hanswer : ((run plainQueue (callOn .appendEvent
      [("lane_id", .str "A|B"), ("event_type", .str "x")])
        (Runs.before (step plainQueue) {} barredEvents 1)).bind (·.1.toOption)).isSome = true := by
    decide +kernel
  have hlost : ((Runs.before (step plainQueue) {} barredEvents 2).events.all fun other =>
      (readEvent plainQueue (callOn .appendEvent [("lane_id", .str "A|B"), ("event_type", .str "x")])).all
        fun row => other.record ≠ row.record) = true := by
    decide +kernel
  intro hstay
  obtain ⟨row, hrow, other, hother, hrecord⟩ := hstay 1 _ rfl (succeeds_of_answer hanswer) 2 (by decide)
  have hne := List.all_eq_true.mp hlost other hother
  rw [hrow, Option.all_some, decide_eq_true_iff] at hne
  exact hne hrecord

end Protheus.QueueSqlite
