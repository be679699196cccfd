import Protheus.Lib.Runs
import Protheus.V8Kernel

/-!
The receipt chain of `action_receipts_kernel.rs`: a file of receipts, each with an
integrity block that names the one before it, and beside it the state of the chain.

`write-contract-receipt` reads the state, renames the next state into place and then
appends the row, so the two files part when the append fails or when the state cannot
be read.  The hash of the payload is taken with whatever integrity block the record
brings along, which the row's own then replaces.  `chain_intact` says that the chain is
intact throughout a run in which none of this happens.

Receipts are taken as values, as they read back; a step of the file system that fails
leaves the files as they were.
-/

namespace Protheus.ActionReceipts

open Json (insertField insertFields)
open Runs
open V8Kernel (IdealHost plainHost)

/-- What the process gets from outside: digests, stamps and floats, and HMAC-SHA-256 in
hex digits. -/
structure Host extends V8Kernel.Host where
  hmacSha256Hex : String → String → String

/-- Where a command meets the file system. -/
inductive FsStep where
  | readState
  | createStateDir
  | writeState
  | renameState
  | createDir
  | openFile
  | append
  deriving DecidableEq, Repr

/-- A `write-contract-receipt` command: its payload, `RECEIPT_CHAIN_HMAC_KEY`, the clock
at its block and at its state, and what the file system answers where it fails. -/
structure Command where
  payload : Json
  receiptChainHmacKey : String := ""
  blockMs : ℕ
  stateMs : ℕ
  fault : FsStep → Option String := fun _ => none

/-- The receipts, and the state of their chain if there is one. -/
structure Files where
  rows : List Json := []
  chain : Option Json := none

/-! ## The command -/

/-- A step of the file system, with the words its failure is reported in. -/
def Command.pass (cmd : Command) (step : FsStep) (text : String) : Except String Unit :=
  match cmd.fault step with
  | none => .ok ()
  | some err => .error (text ++ err)

/-- `optional_hmac`. -/
def optionalHmac (host : Host) (cmd : Command) (hash : String) : Option String :=
  let key := RustStd.trim cmd.receiptChainHmacKey
  if key = "" then none else some (host.hmacSha256Hex key hash)

/-- An optional text as `json!` writes it. -/
def optText : Option String → Json
  | some text => .str text
  | none => .null

/-- `read_chain_state`. -/
def readChainState (cmd : Command) (files : Files) : UInt64 × Option String :=
  let parsed := if (cmd.fault .readState).isSome then .obj [] else files.chain.getD (.obj [])
  (((parsed.get? "seq").bind Json.asU64).getD 0, (parsed.get? "hash").bind Json.asStr)

/-- `write_chain_state`. -/
def writeChainState (host : Host) (cmd : Command) (files : Files) (seq : UInt64)
    (hash : Option String) : Except String Unit × Files :=
  let written : Except String Unit := do
    cmd.pass .createStateDir "action_receipts_kernel_create_dir_failed:"
    cmd.pass .writeState "action_receipts_kernel_write_failed:"
    cmd.pass .renameState "action_receipts_kernel_rename_failed:"
  match written with
  | .error text => (.error text, files)
  | .ok () =>
    (.ok (), { files with
      chain := some (Json.ofFields
        [("seq", .num (.posInt seq)), ("hash", optText hash), ("ts", .str (host.nowIso cmd.stateMs))]) })

/-- `append_jsonl`. -/
def appendJsonl (cmd : Command) (files : Files) (row : Json) : Except String Unit × Files :=
  let written : Except String Unit := do
    cmd.pass .createDir "action_receipts_kernel_create_dir_failed:"
    cmd.pass .openFile "action_receipts_kernel_append_open_failed:"
    cmd.pass .append "action_receipts_kernel_append_failed:"
  match written with
  | .error text => (.error text, files)
  | .ok () => (.ok (), { files with rows := files.rows ++ [row] })

/-- The object under `receipt_contract`, empty when there is none. -/
def receiptContract (src : List (String × Json)) : List (String × Json) :=
  ((src.lookup "receipt_contract").bind Json.asObject).getD []

/-- `with_receipt_contract_value`. -/
def withReceiptContractValue (record : Json) (attempted verified : Bool) : Json :=
  let src := record.asObject.getD []
  .obj (insertField "receipt_contract"
    (.obj (insertFields
      [("version", .str "1.0"), ("attempted", .bool attempted), ("verified", .bool verified),
        ("recorded", .bool true)] (receiptContract src))) src)

/-- The hash of a block: of its number, the hash before it and the hash of its payload. -/
def linkHash (host : Host) (seq : ℕ) (prevHash : Option String) (payloadHash : String) : String :=
  host.sha256HexStr (toString seq ++ ":" ++ prevHash.getD "" ++ ":" ++ payloadHash)

def integrityBlock (host : Host) (cmd : Command) (seq : UInt64) (prevHash : Option String)
    (payload : Json) : Json :=
  let payloadHash := host.digest payload
  let hash := linkHash host seq.toNat prevHash payloadHash
  Json.ofFields
    [("version", .str "1.0"), ("seq", .num (.posInt seq)), ("prev_hash", optText prevHash),
      ("payload_hash", .str payloadHash), ("hash", .str hash),
      ("hmac", optText (optionalHmac host cmd hash)), ("ts", .str (host.nowIso cmd.blockMs))]

/-- A payload with its integrity block. -/
def withBlock (src : List (String × Json)) (block : Json) : Json :=
  .obj (insertField "receipt_contract"
    (.obj (insertField "integrity" block (receiptContract src))) src)

/-- The integrity block of a record, if it has one. -/
def integrityOf (record : Json) : Option Json :=
  (record.get? "receipt_contract").bind (·.get? "integrity")

def hashOf (row : Json) : Option String := ((integrityOf row).bind (·.get? "hash")).bind Json.asStr

/-- `with_receipt_integrity_value`. -/
def withReceiptIntegrityValue (host : Host) (cmd : Command) (files : Files) (record : Json) :
    Except String Json × Files :=
  let src := record.asObject.getD []
  let (prevSeq, prevHash) := readChainState cmd files
  let seq := RustStd.satAdd prevSeq 1
  let out := withBlock src (integrityBlock host cmd seq prevHash (.obj src))
  match writeChainState host cmd files seq (some ((hashOf out).getD "")) with
  | (.error text, files) => (.error text, files)
  | (.ok (), files) => (.ok out, files)

/-- `write_contract_receipt_value`. -/
def writeContractReceiptValue (host : Host) (cmd : Command) (files : Files) :
    Except String Json × Files :=
  let record := (cmd.payload.get? "record").getD (.obj [])
  let withContract := withReceiptContractValue record
    (((cmd.payload.get? "attempted").bind Json.asBool).getD true)
    (((cmd.payload.get? "verified").bind Json.asBool).getD false)
  match withReceiptIntegrityValue host cmd files withContract with
  | (.error text, files) => (.error text, files)
  | (.ok row, files) =>
    match appendJsonl cmd files row with
    | (.error text, files) => (.error text, files)
    | (.ok (), files) => (.ok row, files)

/-- The files a command leaves. -/
def step (host : Host) (files : Files) (cmd : Command) : Files :=
  (writeContractReceiptValue host cmd files).2

/-! ## The chain -/

def withoutIntegrity (row : Json) : Json :=
  match row.get? "receipt_contract" with
  | some (.obj contract) =>
    row.setField "receipt_contract" (.obj (contract.filter fun f => f.1 != "integrity"))
  | _ => row

/-- The hash of the newest row. -/
def lastHash (rows : List Json) : Option String := rows.getLast?.bind hashOf

/-- The row comes next in a chain after the earlier ones. -/
structure Follows (host : Host) (earlier : List Json) (row block : Json) : Prop where
  isBlock : integrityOf row = some block
  seq : ((block.get? "seq").bind Json.asU64).map UInt64.toNat = some (earlier.length + 1)
  prevHash : block.get? "prev_hash" = some (optText (lastHash earlier))
  payloadHash : block.get? "payload_hash" = some (.str (host.digest (withoutIntegrity row)))
  hash : block.get? "hash" = some (.str (linkHash host (earlier.length + 1) (lastHash earlier)
    (host.digest (withoutIntegrity row))))

/-- The rows form a chain, and its state names the last one. -/
structure Intact (host : Host) (files : Files) : Prop where
  rows : ∀ (n : ℕ) (row : Json), files.rows[n]? = some row →
    ∃ block, Follows host (files.rows.take n) row block
  seq : (((files.chain.getD (.obj [])).get? "seq").bind Json.asU64).map UInt64.toNat =
    if files.rows = [] then none else some files.rows.length
  hash : ((files.chain.getD (.obj [])).get? "hash").bind Json.asStr = lastHash files.rows

/-! ## When it stays intact -/

def Command.record (cmd : Command) : Json := (cmd.payload.get? "record").getD (.obj [])

/-- The new state does not get into place. -/
def Command.StateFails (cmd : Command) : Prop :=
  (cmd.fault .createStateDir).isSome ∨ (cmd.fault .writeState).isSome ∨ (cmd.fault .renameState).isSome

/-- The row does not get into the file. -/
def Command.AppendFails (cmd : Command) : Prop :=
  (cmd.fault .createDir).isSome ∨ (cmd.fault .openFile).isSome ∨ (cmd.fault .append).isSome

instance (cmd : Command) : Decidable cmd.StateFails := inferInstanceAs (Decidable (_ ∨ _ ∨ _))
instance (cmd : Command) : Decidable cmd.AppendFails := inferInstanceAs (Decidable (_ ∨ _ ∨ _))

/-- A command that fails before it changes anything, or reads the state there is, brings
no integrity block, has a number left, and gets its row into the file. -/
def Sound (files : Files) (cmd : Command) : Prop :=
  cmd.StateFails ∨ ¬cmd.AppendFails ∧ ((cmd.fault .readState).isSome → files.rows = []) ∧
    integrityOf cmd.record = none ∧ files.rows.length + 1 < 2 ^ 64

instance (files : Files) (cmd : Command) : Decidable (Sound files cmd) :=
  inferInstanceAs (Decidable (_ ∨ _))

/-! ### What a command leaves -/

/-- The payload of a command's row. -/
def Command.src (cmd : Command) : List (String × Json) :=
  (withReceiptContractValue cmd.record
    (((cmd.payload.get? "attempted").bind Json.asBool).getD true)
    (((cmd.payload.get? "verified").bind Json.asBool).getD false)).asObject.getD []

/-- The block of a command's row. -/
def newBlock (host : Host) (files : Files) (cmd : Command) : Json :=
  integrityBlock host cmd (RustStd.satAdd (readChainState cmd files).1 1)
    (readChainState cmd files).2 (.obj cmd.src)

/-- The state a command writes. -/
def newChain (host : Host) (files : Files) (cmd : Command) : Json :=
  Json.ofFields
    [("seq", .num (.posInt (RustStd.satAdd (readChainState cmd files).1 1))),
      ("hash", .str ((hashOf (withBlock cmd.src (newBlock host files cmd))).getD "")),
      ("ts", .str (host.nowIso cmd.stateMs))]

theorem pass_chain (cmd : Command) (a b c : FsStep) (s t u : String) :
    if (cmd.fault a).isSome ∨ (cmd.fault b).isSome ∨ (cmd.fault c).isSome then
      ∃ text, (do cmd.pass a s; cmd.pass b t; cmd.pass c u : Except String Unit) = .error text
    else (do cmd.pass a s; cmd.pass b t; cmd.pass c u : Except String Unit) = .ok () := by
  simp only [Command.pass]
  cases cmd.fault a with
  | some err => simp [bind, Except.bind]
  | none =>
    cases cmd.fault b with
    | some err => simp [bind, Except.bind]
    | none => cases cmd.fault c <;> simp [bind, Except.bind]

section Step

variable {host : Host} {files : Files} {cmd : Command}

theorem writeChainState_cases (host : Host) (cmd : Command) (files : Files) (seq : UInt64)
    (hash : Option String) :
    if cmd.StateFails then ∃ text, writeChainState host cmd files seq hash = (.error text, files)
    else writeChainState host cmd files seq hash = (.ok (), { files with
      chain := some (Json.ofFields [("seq", .num (.posInt seq)), ("hash", optText hash),
        ("ts", .str (host.nowIso cmd.stateMs))]) }) := by
  have h := pass_chain cmd .createStateDir .writeState .renameState
    "action_receipts_kernel_create_dir_failed:" "action_receipts_kernel_write_failed:"
    "action_receipts_kernel_rename_failed:"
  unfold writeChainState
  by_cases hfails : cmd.StateFails
  · rw [if_pos hfails]
    rw [Command.StateFails] at hfails
    rw [if_pos hfails] at h
    obtain ⟨text, htext⟩ := h
    exact ⟨text, by rw [htext]⟩
  · rw [if_neg hfails]
    rw [Command.StateFails] at hfails
    rw [if_neg hfails] at h
    rw [h]

theorem appendJsonl_cases (cmd : Command) (files : Files) (row : Json) :
    if cmd.AppendFails then ∃ text, appendJsonl cmd files row = (.error text, files)
    else appendJsonl cmd files row = (.ok (), { files with rows := files.rows ++ [row] }) := by
  have h := pass_chain cmd .createDir .openFile .append
    "action_receipts_kernel_create_dir_failed:" "action_receipts_kernel_append_open_failed:"
    "action_receipts_kernel_append_failed:"
  unfold appendJsonl
  by_cases hfails : cmd.AppendFails
  · rw [if_pos hfails]
    rw [Command.AppendFails] at hfails
    rw [if_pos hfails] at h
    obtain ⟨text, htext⟩ := h
    exact ⟨text, by rw [htext]⟩
  · rw [if_neg hfails]
    rw [Command.AppendFails] at hfails
    rw [if_neg hfails] at h
    rw [h]

/-- The record a command hashes. -/
theorem withReceiptIntegrityValue_cases (host : Host) (cmd : Command) (files : Files)
    (record : Json) (hrecord : record.asObject.getD [] = cmd.src) :
    if cmd.StateFails then
      ∃ text, withReceiptIntegrityValue host cmd files record = (.error text, files)
    else withReceiptIntegrityValue host cmd files record =
      (.ok (withBlock cmd.src (newBlock host files cmd)),
        { files with chain := some (newChain host files cmd) }) := by
  have hstate := writeChainState_cases host cmd files
    (RustStd.satAdd (readChainState cmd files).1 1)
    (some ((hashOf (withBlock cmd.src (newBlock host files cmd))).getD ""))
  unfold withReceiptIntegrityValue
  rw [hrecord]
  dsimp only
  by_cases hfails : cmd.StateFails
  · rw [if_pos hfails] at hstate ⊢
    obtain ⟨text, htext⟩ := hstate
    rw [newBlock] at htext
    exact ⟨text, by rw [htext]⟩
  · rw [if_neg hfails] at hstate ⊢
    rw [newBlock] at hstate
    rw [hstate]
    rfl

theorem step_of_stateFails (h : cmd.StateFails) : step host files cmd = files := by
  have hrow := withReceiptIntegrityValue_cases host cmd files
    (withReceiptContractValue cmd.record
      (((cmd.payload.get? "attempted").bind Json.asBool).getD true)
      (((cmd.payload.get? "verified").bind Json.asBool).getD false)) rfl
  rw [if_pos h] at hrow
  obtain ⟨text, htext⟩ := hrow
  rw [Command.record] at htext
  unfold step writeContractReceiptValue
  dsimp only
  rw [htext]

/-- Once the state is in place, the row is appended or not. -/
theorem step_of_not_stateFails (h : ¬cmd.StateFails) : step host files cmd =
    { rows := if cmd.AppendFails then files.rows
        else files.rows ++ [withBlock cmd.src (newBlock host files cmd)]
      chain := some (newChain host files cmd) } := by
  have hrow := withReceiptIntegrityValue_cases host cmd files
    (withReceiptContractValue cmd.record
      (((cmd.payload.get? "attempted").bind Json.asBool).getD true)
      (((cmd.payload.get? "verified").bind Json.asBool).getD false)) rfl
  have happend := appendJsonl_cases cmd { files with chain := some (newChain host files cmd) }
    (withBlock cmd.src (newBlock host files cmd))
  rw [if_neg h, Command.record] at hrow
  unfold step writeContractReceiptValue
  dsimp only
  rw [hrow]
  dsimp only
  by_cases hfails : cmd.AppendFails
  · rw [if_pos hfails] at happend ⊢
    obtain ⟨text, htext⟩ := happend
    rw [htext]
  · rw [if_neg hfails] at happend ⊢
    rw [happend]

/-! ## Sound commands -/

theorem toNat_satAdd_one {a : UInt64} (h : a.toNat + 1 < 2 ^ 64) :
    (RustStd.satAdd a 1).toNat = a.toNat + 1 := by
  have hone : (1 : UInt64).toNat = 1 := rfl
  rw [RustStd.satAdd, hone, if_pos h, UInt64.toNat_add, hone, Nat.mod_eq_of_lt h]

theorem integrityOf_withBlock (src : List (String × Json)) (block : Json) :
    integrityOf (withBlock src block) = some block := by
  rw [integrityOf, withBlock, Json.get?, Json.lookup_insertField_same, Option.bind_some, Json.get?,
    Json.lookup_insertField_same]

/-- The block comes out of the row again. -/
theorem withoutIntegrity_withBlock (src : List (String × Json)) (block : Json) :
    withoutIntegrity (withBlock src block) = .obj (insertField "receipt_contract"
      (.obj ((insertField "integrity" block (receiptContract src)).filter fun f =>
        f.1 != "integrity")) src) := by
  rw [withoutIntegrity, withBlock, Json.get?, Json.lookup_insertField_same]
  dsimp only
  rw [Json.setField, Json.insertField_insertField]

theorem lookup_receiptContract (record : Json) :
    (receiptContract (record.asObject.getD [])).lookup "integrity" = integrityOf record := by
  cases record with
  | obj fields =>
    rw [Json.asObject, Option.getD_some, receiptContract, integrityOf, Json.get?]
    cases fields.lookup "receipt_contract" with
    | none => rfl
    | some contract => cases contract <;> rfl
  | _ => rfl

/-- A payload without a block of its own is what the row is without its block. -/
theorem withoutIntegrity_row (block : Json) (h : integrityOf cmd.record = none) :
    withoutIntegrity (withBlock cmd.src block) = .obj cmd.src := by
  obtain ⟨contract, hcontract⟩ : ∃ contract, cmd.src =
      insertField "receipt_contract" (.obj contract) (cmd.record.asObject.getD []) ∧
        contract.lookup "integrity" = none := by
    refine ⟨_, rfl, ?_⟩
    rw [Json.lookup_insertFields_of_notMem (by simp), lookup_receiptContract, h]
  obtain ⟨hsrc, hlookup⟩ := hcontract
  have hread : receiptContract cmd.src = contract := by
    rw [hsrc, receiptContract, Json.lookup_insertField_same, Option.bind_some, Json.asObject,
      Option.getD_some]
  have hfree : "integrity" ∉ contract.map Prod.fst := by
    intro hmem
    obtain ⟨field, hfield, hkey⟩ := List.mem_map.mp hmem
    have hne := List.lookup_eq_none_iff.mp hlookup field hfield
    simp [hkey] at hne
  rw [withoutIntegrity_withBlock, hread, Json.filter_insertField hfree, hsrc,
    Json.insertField_insertField]

theorem get?_integrityBlock (host : Host) (cmd : Command) (seq : UInt64)
    (prevHash : Option String) (payload : Json) :
    (integrityBlock host cmd seq prevHash payload).get? "seq" = some (.num (.posInt seq)) ∧
      (integrityBlock host cmd seq prevHash payload).get? "prev_hash" = some (optText prevHash) ∧
      (integrityBlock host cmd seq prevHash payload).get? "payload_hash" =
        some (.str (host.digest payload)) ∧
      (integrityBlock host cmd seq prevHash payload).get? "hash" =
        some (.str (linkHash host seq.toNat prevHash (host.digest payload))) := by
  have hread {fields : List (String × Json)} {key : String} {value : Json}
      (hnodup : (fields.map Prod.fst).Nodup) (h : (key, value) ∈ fields) :
      (Json.ofFields fields).get? key = some value := Json.get?_ofFields hnodup h
  unfold integrityBlock
  refine ⟨hread ?_ ?_, hread ?_ ?_, hread ?_ ?_, hread ?_ ?_⟩ <;> simp

theorem readChainState_of_intact (h : Intact host files)
    (hread : (cmd.fault .readState).isSome → files.rows = []) :
    (readChainState cmd files).1.toNat = files.rows.length ∧
      (readChainState cmd files).2 = lastHash files.rows := by
  unfold readChainState
  by_cases hfault : (cmd.fault .readState).isSome
  · rw [if_pos hfault, hread hfault]
    exact ⟨rfl, rfl⟩
  · rw [if_neg hfault]
    refine ⟨?_, h.hash⟩
    have hseq := h.seq
    dsimp only
    cases hstored : ((files.chain.getD (.obj [])).get? "seq").bind Json.asU64 with
    | none =>
      rw [hstored] at hseq
      by_cases hrows : files.rows = []
      · rw [hrows]
        rfl
      · rw [if_neg hrows] at hseq
        cases hseq
    | some seq =>
      rw [hstored] at hseq
      by_cases hrows : files.rows = []
      · rw [if_pos hrows] at hseq
        cases hseq
      · rw [if_neg hrows] at hseq
        exact Option.some.inj hseq

/-- A row that a sound command appends comes next. -/
theorem follows_newBlock (h : Intact host files)
    (hread : (cmd.fault .readState).isSome → files.rows = [])
    (hblock : integrityOf cmd.record = none) (hroom : files.rows.length + 1 < 2 ^ 64) :
    Follows host files.rows (withBlock cmd.src (newBlock host files cmd)) (newBlock host files cmd) := by
  obtain ⟨hseq, hprev⟩ := readChainState_of_intact h hread
  have hnext : (RustStd.satAdd (readChainState cmd files).1 1).toNat = files.rows.length + 1 := by
    rw [toNat_satAdd_one (by rwa [hseq]), hseq]
  have hpayload := withoutIntegrity_row (newBlock host files cmd) hblock
  obtain ⟨hget, hgetPrev, hgetPayload, hgetHash⟩ := get?_integrityBlock host cmd
    (RustStd.satAdd (readChainState cmd files).1 1) (readChainState cmd files).2 (.obj cmd.src)
  constructor
  case isBlock => exact integrityOf_withBlock _ _
  case seq =>
    rw [newBlock, hget, Option.bind_some, Json.asU64, Option.map_some, hnext]
  case prevHash => rw [newBlock, hgetPrev, hprev]
  case payloadHash => rw [hpayload, newBlock, hgetPayload]
  case hash => rw [hpayload, newBlock, hgetHash, hnext, hprev]

/-- A row's hash is the one its block is linked by. -/
theorem hashOf_newRow : hashOf (withBlock cmd.src (newBlock host files cmd)) = some (linkHash host
    (RustStd.satAdd (readChainState cmd files).1 1).toNat (readChainState cmd files).2
    (host.digest (.obj cmd.src))) := by
  obtain ⟨-, -, -, hget⟩ := get?_integrityBlock host cmd
    (RustStd.satAdd (readChainState cmd files).1 1) (readChainState cmd files).2 (.obj cmd.src)
  rw [hashOf, integrityOf_withBlock, Option.bind_some, newBlock, hget, Option.bind_some, Json.asStr]

theorem get?_newChain :
    (newChain host files cmd).get? "seq" =
        some (.num (.posInt (RustStd.satAdd (readChainState cmd files).1 1))) ∧
      (newChain host files cmd).get? "hash" = some (.str (linkHash host
        (RustStd.satAdd (readChainState cmd files).1 1).toNat (readChainState cmd files).2
        (host.digest (.obj cmd.src)))) := by
  have hread {fields : List (String × Json)} {key : String} {value : Json}
      (hnodup : (fields.map Prod.fst).Nodup) (h : (key, value) ∈ fields) :
      (Json.ofFields fields).get? key = some value := Json.get?_ofFields hnodup h
  rw [newChain, hashOf_newRow, Option.getD_some]
  refine ⟨hread ?_ ?_, hread ?_ ?_⟩ <;> simp

/-- **A sound command keeps the chain intact.** -/
theorem step_intact (h : Intact host files) (hsound : Sound files cmd) :
    Intact host (step host files cmd) := by
  rcases hsound with hstate | ⟨happend, hread, hblock, hroom⟩
  · rwa [step_of_stateFails hstate]
  · by_cases hstate : cmd.StateFails
    · rwa [step_of_stateFails hstate]
    · have hseq := (readChainState_of_intact h hread).1
      have hfollows := follows_newBlock h hread hblock hroom
      have hnext := @toNat_satAdd_one (readChainState cmd files).1 (by rwa [hseq])
      rw [step_of_not_stateFails hstate, if_neg happend]
      obtain ⟨hgetSeq, hgetHash⟩ := @get?_newChain host files cmd
      constructor
      case rows =>
        intro n row hrow
        rcases lt_or_ge n files.rows.length with hn | hn
        · rw [List.getElem?_append_left hn] at hrow
          rw [List.take_append_of_le_length hn.le]
          exact h.rows n row hrow
        · rw [List.getElem?_append_right hn] at hrow
          obtain ⟨hlt, hrow⟩ := List.getElem?_eq_some_iff.mp hrow
          rw [List.length_singleton] at hlt
          obtain rfl : n = files.rows.length := by omega
          rw [List.getElem_singleton] at hrow
          rw [← hrow, List.take_left]
          exact ⟨_, hfollows⟩
      case seq =>
        rw [Option.getD_some, hgetSeq, Option.bind_some, Json.asU64, Option.map_some, hnext, hseq,
          if_neg (by simp), List.length_append, List.length_singleton]
      case hash =>
        rw [Option.getD_some, hgetHash, Option.bind_some, Json.asStr, lastHash, List.getLast?_concat,
          Option.bind_some, hashOf_newRow]

end Step

/-- **The receipt chain is intact** throughout a run of sound commands. -/
theorem chain_intact (host : Host) (cmds : List Command)
    (h : Meets (step host) Sound {} cmds) (n : ℕ) : Intact host (before (step host) {} cmds n) := by
  have hstart : Intact host {} := ⟨nofun, rfl, rfl⟩
  exact Meets.before (fun files cmd hin hsound => step_intact hin hsound) hstart h n

/-! ### Two receipts -/

def stillHost : Host := { plainHost with hmacSha256Hex := fun _ hash => hash }

/-- A receipt of a record, at a time of the clock. -/
def receipt (record : Json) (nowMs : ℕ) : Command where
  payload := .obj [("record", record)]
  blockMs := nowMs
  stateMs := nowMs

def unitRecord : Json := .obj [("type", .str "unit")]

theorem chain_intact_twice :
    Intact stillHost (before (step stillHost) {} [receipt unitRecord 1, receipt unitRecord 2] 2) :=
  chain_intact stillHost _ (by decide) 2

/-- A receipt whose row does not get into the file leaves a state that names none. -/
theorem append_failure_breaks_chain : ¬Intact stillHost (run (step stillHost) {}
    [{ receipt unitRecord 1 with
        fault := fun step => if step = .append then some "no space" else none }]) := by
  intro h
  have hseq := h.seq
  rw [run_cons, run_nil, step_of_not_stateFails (by decide), if_pos (by decide), if_pos rfl,
    Option.getD_some, get?_newChain.1] at hseq
  cases hseq

end Protheus.ActionReceipts
