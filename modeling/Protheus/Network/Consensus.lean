import Protheus.Lib.Chain
import Protheus.Lib.Runs
import Protheus.V8Kernel

/-!
The consensus ledger of `network_protocol_run.rs`: `consensus --op=append` and
`--op=verify`.

A row names the hash of the row before it and carries a hash of its own five other
fields.  The writer reads the clock twice, once for the fields it hashes and once for
the row it stores, and the verifier hashes the fields of the stored row; so a row
verifies exactly when the two readings have one time stamp
(`sound_appendStep_iff`).  Sound rows are chains, and a digest determines the fields,
so sound rows whose hashes all come from one ledger are a prefix of it.
-/

namespace Protheus.Network.Consensus

open V8Kernel Runs

/-- The names of the fields `event_hash` is computed from. -/
def seedNames : List String := ["seq", "ts", "receipt_hash", "causality_hash", "previous_hash"]

/-- `row.get(name).cloned().unwrap_or(Value::Null)`. -/
def field (row : Json) (name : String) : Json := (row.get? name).getD .null

/-- `row.get(name).and_then(Value::as_str).unwrap_or_default()`. -/
def textField (row : Json) (name : String) : String := ((row.get? name).bind Json.asStr).getD ""

/-- The seed the verifier rebuilds from a stored row. -/
def rowSeed (row : Json) : Json := Json.ofFields (seedNames.map fun name => (name, field row name))

abbrev eventHash (row : Json) : String := textField row "event_hash"

abbrev previousHash (row : Json) : String := textField row "previous_hash"

/-- The flags of a `consensus` command. -/
structure Flags where
  op : Option String := none
  receiptHash : Option String := none
  causalityHash : Option String := none
  strict : Option String := none

/-- A command: its flags, the clock at `event_seed` and at `event`, and whether the
write of the row reaches the file. -/
structure Request where
  flags : Flags
  seedMs : ℕ
  eventMs : ℕ
  written : Bool := true

structure Report where
  ok : Bool
  eventCount : ℕ
  chainValid : Bool
  verifyErrors : List String
  errors : List String
  consensusHead : String

namespace Request

def op (request : Request) : String :=
  RustStd.toAsciiLowercase (clean (request.flags.op.getD "status") 24)

def receiptHash (request : Request) : String := clean (request.flags.receiptHash.getD "") 160

def causalityHash (request : Request) : String := clean (request.flags.causalityHash.getD "") 160

def strict (request : Request) : Bool := parseBool request.flags.strict true

/-- The errors found before anything is appended. -/
def errors (request : Request) : List String :=
  if request.op = "append" then
    if request.strict && (request.receiptHash.isEmpty || request.causalityHash.isEmpty) then
      ["consensus_append_requires_receipt_and_causality_hash"]
    else []
  else if request.op = "verify" || request.op = "status" then []
  else ["consensus_op_unknown:" ++ request.op]

/-- Whether the command appends a row. -/
def appends (request : Request) : Bool := request.op == "append" && request.errors.isEmpty

end Request

/-- The fields of a new row at a reading of the clock, without its hash. -/
def seedFields (host : Host) (request : Request) (rows : List Json) (nowMs : ℕ) :
    List (String × Json) :=
  [("seq", Json.ofNat (rows.length + 1)), ("ts", .str (host.nowIso nowMs)),
    ("receipt_hash", .str request.receiptHash), ("causality_hash", .str request.causalityHash),
    ("previous_hash",
      .str ((rows.getLast?.bind fun row => (row.get? "event_hash").bind Json.asStr).getD
        "GENESIS"))]

/-- The row an append builds on the rows it has read. -/
def newEvent (host : Host) (request : Request) (rows : List Json) : Json :=
  let hash := host.digest (Json.ofFields (seedFields host request rows request.seedMs))
  Json.ofFields (seedFields host request rows request.eventMs ++ [("event_hash", .str hash)])

/-- One turn of the loop that verifies the rows: the hash the next row has to name, and
the errors so far. -/
def verifyRow (host : Host) (found : String × List String) (entry : Json × ℕ) :
    String × List String :=
  let (row, idx) := entry
  let misnamed :=
    if previousHash row ≠ found.1 then ["consensus_previous_hash_mismatch_at:" ++ toString idx]
    else []
  let mishashed :=
    if host.digest (rowSeed row) ≠ eventHash row then
      ["consensus_event_hash_mismatch_at:" ++ toString idx]
    else []
  (eventHash row, found.2 ++ misnamed ++ mishashed)

def verifyRows (host : Host) (rows : List Json) : String × List String :=
  rows.zipIdx.foldl (verifyRow host) ("GENESIS", [])

/-- The command on the rows of the file: its report, and the rows it leaves there. -/
def consensus (host : Host) (request : Request) (stored : List Json) : Report × List Json :=
  let event := newEvent host request stored
  let rows := if request.appends then stored ++ [event] else stored
  let (head, verifyErrors) := verifyRows host rows
  let errors := request.errors ++ if request.op = "verify" then verifyErrors else []
  ({ ok := if request.strict then errors.isEmpty else true
     eventCount := rows.length
     chainValid := verifyErrors.isEmpty
     verifyErrors, errors
     consensusHead := head },
    if request.written then rows else stored)

/-- The rows a command leaves. -/
def appendStep (host : Host) (stored : List Json) (request : Request) : List Json :=
  (consensus host request stored).2

/-- The ledger a sequence of commands writes, from the empty one. -/
def ledger (host : Host) (requests : List Request) : List Json := run (appendStep host) [] requests

/-- What `consensus --op=verify` says of a file with these rows. -/
def chainValid (host : Host) (rows : List Json) : Bool :=
  (consensus host { flags := { op := some "verify" }, seedMs := 0, eventMs := 0 } rows).1.chainValid

/-! ## What the verifier accepts -/

/-- Rows that hang together and carry the hashes of their own fields. -/
structure Sound (host : Host) (rows : List Json) : Prop where
  linked : Chain.Linked eventHash previousHash "GENESIS" rows
  hashed : ∀ row ∈ rows, host.digest (rowSeed row) = eventHash row

theorem sound_concat_iff {host : Host} {rows : List Json} {row : Json} :
    Sound host (rows ++ [row]) ↔ Sound host rows ∧
      previousHash row = Chain.tip eventHash "GENESIS" rows ∧
      host.digest (rowSeed row) = eventHash row := by
  constructor
  · rintro ⟨hlinked, hhashed⟩
    obtain ⟨hrows, hprev⟩ := Chain.Linked.concat_iff.mp hlinked
    exact ⟨⟨hrows, fun r hr => hhashed r (by simp [hr])⟩, hprev, hhashed row (by simp)⟩
  · rintro ⟨⟨hlinked, hhashed⟩, hprev, hhash⟩
    refine ⟨Chain.Linked.concat_iff.mpr ⟨hlinked, hprev⟩, fun r hr => ?_⟩
    obtain hr | hr := List.mem_append.mp hr
    · exact hhashed r hr
    · rwa [List.mem_singleton.mp hr]

/-- The loop ends at the tip, and without errors exactly on sound rows. -/
theorem verifyRows_spec (host : Host) (rows : List Json) :
    (verifyRows host rows).1 = Chain.tip eventHash "GENESIS" rows ∧
      ((verifyRows host rows).2 = [] ↔ Sound host rows) := by
  induction rows using List.reverseRecOn with
  | nil => exact ⟨rfl, fun _ => ⟨trivial, by simp⟩, fun _ => rfl⟩
  | append_singleton rows row ih =>
    obtain ⟨htip, hsound⟩ := ih
    have hstep : verifyRows host (rows ++ [row]) =
        verifyRow host (verifyRows host rows) (row, rows.length) := by
      rw [verifyRows, List.zipIdx_append, List.foldl_append]
      simp [verifyRows]
    rw [hstep, sound_concat_iff, ← hsound, ← htip]
    refine ⟨by simp [verifyRow], ?_⟩
    simp only [verifyRow, List.append_eq_nil_iff]
    constructor
    · rintro ⟨⟨hrows, hname⟩, hhash⟩
      exact ⟨hrows, by simpa using hname, by simpa using hhash⟩
    · rintro ⟨hrows, hname, hhash⟩
      exact ⟨⟨hrows, by simp [hname]⟩, by simp [hhash]⟩

/-- **Verify accepts the sound rows.** -/
theorem chainValid_iff (host : Host) (rows : List Json) :
    chainValid host rows = true ↔ Sound host rows := by
  rw [← (verifyRows_spec host rows).2, ← List.isEmpty_iff]
  rfl

/-! ## What the writer writes -/

section Writer

variable {host : Host} {request : Request} {rows : List Json}

theorem get?_newEvent {f : String × Json}
    (h : f ∈ seedFields host request rows request.eventMs) :
    (newEvent host request rows).get? f.1 = some f.2 :=
  Json.get?_ofFields (by simp [seedFields]) (List.mem_append_left _ h)

theorem eventHash_newEvent : eventHash (newEvent host request rows) =
    host.digest (Json.ofFields (seedFields host request rows request.seedMs)) := by
  have : (newEvent host request rows).get? "event_hash" =
      some (.str (host.digest (Json.ofFields (seedFields host request rows request.seedMs)))) :=
    Json.get?_ofFields (f := ("event_hash", _)) (by simp [seedFields])
      (List.mem_append_right _ (List.mem_singleton.mpr rfl))
  rw [eventHash, textField, this]
  rfl

/-- The verifier rebuilds the fields as the stored row has them. -/
theorem rowSeed_newEvent : rowSeed (newEvent host request rows) =
    Json.ofFields (seedFields host request rows request.eventMs) := by
  rw [rowSeed]
  congr 1
  have hfield {f : String × Json} (h : f ∈ seedFields host request rows request.eventMs) :
      field (newEvent host request rows) f.1 = f.2 := by
    rw [field, get?_newEvent h, Option.getD_some]
  have hnames : (seedFields host request rows request.eventMs).map Prod.fst = seedNames := rfl
  rw [← hnames, List.map_map]
  refine (List.map_congr_left fun f h => ?_).trans (List.map_id _)
  simp only [Function.comp_apply, hfield h, id]

theorem tip_eq_getLast? : Chain.tip eventHash "GENESIS" rows =
    (rows.getLast?.map eventHash).getD "GENESIS" := by
  induction rows using List.reverseRecOn with
  | nil => rfl
  | append_singleton rows row _ => simp

/-- The row names the tip of the ledger, whose rows carry hashes. -/
theorem previousHash_newEvent (ideal : IdealHost host) (h : Sound host rows) :
    previousHash (newEvent host request rows) = Chain.tip eventHash "GENESIS" rows := by
  have hfield : (newEvent host request rows).get? "previous_hash" =
      some (.str ((rows.getLast?.bind fun row => (row.get? "event_hash").bind Json.asStr).getD
        "GENESIS")) :=
    get?_newEvent (f := ("previous_hash", _)) (by simp [seedFields])
  rw [previousHash, textField, hfield, tip_eq_getLast?]
  cases hlast : rows.getLast? with
  | none => rfl
  | some row =>
    have hhash := h.hashed row (List.mem_of_getLast? hlast)
    have hne : eventHash row ≠ "" := hhash ▸ (ideal.hex _).1
    cases hstr : (row.get? "event_hash").bind Json.asStr with
    | none => exact absurd (by rw [eventHash, textField, hstr]; rfl) hne
    | some text => simp [Json.asStr, eventHash, textField, hstr]

theorem seedFields_inj {a b : ℕ} (h : Json.ofFields (seedFields host request rows a) =
    Json.ofFields (seedFields host request rows b)) : host.nowIso a = host.nowIso b := by
  have hts (now : ℕ) : (Json.ofFields (seedFields host request rows now)).get? "ts" =
      some (.str (host.nowIso now)) :=
    Json.get?_ofFields (f := ("ts", _)) (by simp [seedFields]) (by simp [seedFields])
  have := (hts a).symm.trans (h ▸ hts b)
  simpa using this

/-- The rows the command leaves: one more when it appends and the write goes through. -/
theorem appendStep_eq : appendStep host rows request =
    if request.appends && request.written then rows ++ [newEvent host request rows] else rows := by
  unfold appendStep consensus
  cases request.appends <;> cases request.written <;> rfl

/-- **One command.**  It leaves sound rows exactly when it found sound rows and both
clock readings of a row it wrote have one time stamp. -/
theorem sound_appendStep_iff (ideal : IdealHost host) :
    Sound host (appendStep host rows request) ↔ Sound host rows ∧
      (request.appends = true → request.written = true →
        host.nowIso request.seedMs = host.nowIso request.eventMs) := by
  rw [appendStep_eq]
  cases happends : request.appends with
  | false => simp
  | true =>
    cases hwritten : request.written with
    | false => simp
    | true =>
      simp only [Bool.and_self, if_true, forall_const, sound_concat_iff]
      refine and_congr_right fun hrows => ?_
      rw [eventHash_newEvent, rowSeed_newEvent]
      constructor
      · exact fun h => (seedFields_inj (ideal.digest_injective h.2)).symm
      · refine fun h => ⟨previousHash_newEvent ideal hrows, ?_⟩
        simp only [seedFields, h]

end Writer

/-- Both clock readings of every row a run writes have one time stamp. -/
def SteadyClock (host : Host) (requests : List Request) : Prop :=
  ∀ request ∈ requests, request.appends = true → request.written = true →
    host.nowIso request.seedMs = host.nowIso request.eventMs

instance (host : Host) (requests : List Request) : Decidable (SteadyClock host requests) :=
  inferInstanceAs (Decidable (∀ request ∈ requests, _))

/-- **A run.** -/
theorem sound_run_iff {host : Host} (ideal : IdealHost host) {requests : List Request} :
    ∀ {rows : List Json}, Sound host (run (appendStep host) rows requests) ↔
      Sound host rows ∧ SteadyClock host requests := by
  induction requests with
  | nil => simp [SteadyClock]
  | cons request requests ih =>
    intro rows
    rw [run_cons, ih, sound_appendStep_iff ideal, and_assoc]
    simp [SteadyClock]

theorem sound_nil (host : Host) : Sound host [] := ⟨trivial, by simp⟩

/-! ## Edits -/

section Edits

variable {host : Host} {rows ledger : List Json}

/-- The seed holds the fields it is made of. -/
theorem get?_rowSeed (row : Json) {name : String} (hname : name ∈ seedNames) :
    (rowSeed row).get? name = some (field row name) := by
  refine Json.get?_ofFields (f := (name, field row name)) ?_ (List.mem_map.mpr ⟨name, hname, rfl⟩)
  rw [List.map_map, show Prod.fst ∘ (fun name => (name, field row name)) = id from rfl, List.map_id]
  decide

theorem field_eq_of_rowSeed {a b : Json} (h : rowSeed a = rowSeed b) {name : String}
    (hname : name ∈ seedNames) : field a name = field b name :=
  Option.some.inj ((get?_rowSeed a hname).symm.trans (h ▸ get?_rowSeed b hname))

theorem previousHash_eq (row : Json) :
    previousHash row = ((field row "previous_hash").asStr).getD "" := by
  unfold previousHash textField field
  cases row.get? "previous_hash" with
  | none => rfl
  | some value => rfl

theorem previousHash_eq_of_rowSeed {a b : Json} (h : rowSeed a = rowSeed b) :
    previousHash a = previousHash b := by
  rw [previousHash_eq, previousHash_eq, field_eq_of_rowSeed h (by decide)]

theorem rowSeed_eq_of_eventHash (ideal : IdealHost host) (hrows : Sound host rows)
    (hledger : Sound host ledger) {a b : Json} (ha : a ∈ rows) (hb : b ∈ ledger)
    (h : eventHash a = eventHash b) : rowSeed a = rowSeed b := by
  rw [← hrows.hashed a ha, ← hledger.hashed b hb] at h
  exact ideal.digest_injective h

theorem Sound.keys (ideal : IdealHost host) (h : Sound host rows) :
    ("GENESIS" :: rows.map eventHash).Nodup := by
  refine h.linked.nodup ?_ fun a ha b hb hkey => ?_
  · intro hmem
    obtain ⟨row, hrow, hgenesis⟩ := List.mem_map.mp hmem
    rw [← h.hashed row hrow] at hgenesis
    exact (ideal.hex _).ne (c := 'G') (by decide) rfl hgenesis
  · exact previousHash_eq_of_rowSeed (rowSeed_eq_of_eventHash ideal h h ha hb hkey)

/-- **Edits show.**  Sound rows whose hashes all occur in a sound ledger have the fields
of a prefix of it. -/
theorem Sound.fields_prefix (ideal : IdealHost host) (hledger : Sound host ledger)
    (hrows : Sound host rows) (hmem : ∀ row ∈ rows, eventHash row ∈ ledger.map eventHash) :
    rows.map rowSeed <+: ledger.map rowSeed := by
  have hsame {a b : Json} (ha : a ∈ rows) (hb : b ∈ ledger) (h : eventHash a = eventHash b) :
      rowSeed a = rowSeed b :=
    rowSeed_eq_of_eventHash ideal hrows hledger ha hb h
  refine Chain.Linked.map_initial previousHash_eq_of_rowSeed hrows.linked hledger.linked
    (hrows.keys ideal) (hledger.keys ideal) (fun a ha b hb h => hsame ha hb h) fun a ha => ?_
  obtain ⟨b, hb, h⟩ := List.mem_map.mp (hmem a ha)
  exact ⟨b, hb, hsame ha hb h.symm⟩

end Edits

/-- The ledger verifies, and any rows that verify and take their hashes from it have the
fields of a prefix of it. -/
def TamperEvident (host : Host) (ledger : List Json) : Prop :=
  chainValid host ledger = true ∧
    ∀ rows : List Json, (∀ row ∈ rows, eventHash row ∈ ledger.map eventHash) →
      chainValid host rows = true →
        rows.map (fun row => seedNames.map (field row)) <+:
          ledger.map fun row => seedNames.map (field row)

/-- **When the ledger verifies what it appends and detects edits**: exactly when both
clock readings of every row it wrote have one time stamp. -/
theorem tamperEvident_iff (host : Host) (ideal : IdealHost host) (requests : List Request) :
    TamperEvident host (ledger host requests) ↔ SteadyClock host requests := by
  have hsound : Sound host (ledger host requests) ↔ SteadyClock host requests := by
    rw [ledger, sound_run_iff ideal]
    exact and_iff_right (sound_nil host)
  constructor
  · exact fun h => hsound.mp ((chainValid_iff host _).mp h.1)
  · intro h
    have hledger := hsound.mpr h
    refine ⟨(chainValid_iff host _).mpr hledger, fun rows hmem hvalid => ?_⟩
    have hinitial := hledger.fields_prefix ideal ((chainValid_iff host rows).mp hvalid) hmem
    have hfields : (fun row => seedNames.map (field row)) =
        (fun seed : Json => seedNames.map fun name => (seed.get? name).getD .null) ∘ rowSeed := by
      funext row
      rw [Function.comp_apply]
      refine List.map_congr_left fun name hname => ?_
      rw [get?_rowSeed row hname, Option.getD_some]
    rw [hfields, ← List.map_map, ← List.map_map]
    exact hinitial.map _

/-- An append with two readings of the clock. -/
def appendAt (seedMs eventMs : ℕ) : Request where
  flags := { op := some "append", receiptHash := some "r1", causalityHash := some "c1" }
  seedMs
  eventMs

theorem steady_appends_tamperEvident :
    TamperEvident plainHost (ledger plainHost [appendAt 5 5, appendAt 7 7]) :=
  (tamperEvident_iff plainHost plainHost_ideal [appendAt 5 5, appendAt 7 7]).mpr (by decide)

/-- An append whose two readings fall on different milliseconds leaves a ledger that
does not verify. -/
theorem straddling_append_invalid :
    ¬ ∀ (host : Host) (_ : IdealHost host) (requests : List Request),
      TamperEvident host (ledger host requests) := by
  intro h
  have hvalid := (h plainHost plainHost_ideal [appendAt 5 6]).1
  have hsound := (chainValid_iff _ _).mp hvalid
  rw [ledger, sound_run_iff plainHost_ideal] at hsound
  exact absurd hsound.2 (by decide)

end Protheus.Network.Consensus
