import Protheus.Lib.XorStream
import Protheus.MemoryIndex.IndexFile
import Protheus.SecretBroker.Tickets

/-!
The hot state of `memory_runtime/src/db.rs`.

A row holds a JSON text in an envelope: an object whose `ciphertext` is the text under
AES-GCM.  Rows from before hold the text as it is, under a stream of digests, or under
AES-GCM without the envelope; opening the database puts each of them into an envelope, and
leaves a row alone that is in one.
-/

namespace Protheus.MemoryRuntime

open RustStd LaneUtils
open MemoryIndex (startsWith)
open SecretBroker (hexEncode hexDecode hexValue)

/-! ## Ciphers -/

/-- What the database gets from outside: SHA-256, AES-GCM under a key and a nonce,
`serde_json::from_str` and how it prints a float. -/
structure Host where
  sha256 : List UInt8 → List UInt8
  encrypt : List UInt8 → List UInt8 → List UInt8 → Except String (List UInt8)
  decrypt : List UInt8 → List UInt8 → List UInt8 → Option (List UInt8)
  fromStr : String → Except String Json
  printFloat : ℚ → String

/-- What a wrapping draws: a nonce of twelve bytes and the time. -/
structure Draw where
  nonce : List UInt8
  length : nonce.length = 12
  now : String

/-- The bytes of a text. -/
def utf8 (text : String) : List UInt8 := text.toUTF8.data.toList

/-- `String::from_utf8`. -/
def fromUtf8 (bytes : List UInt8) : Option String := String.fromUTF8? ⟨bytes.toArray⟩

/-- `u64::to_le_bytes`. -/
def toLeBytes (n : UInt64) : List UInt8 :=
  (List.range 8).map fun i => UInt8.ofNat (n.toNat / 256 ^ i)

/-- `u64::from_str_radix` with radix 16. -/
def fromStrRadix16 (s : String) : Option UInt64 :=
  let digits := if s.toList.head? = some '+' then s.toList.tail else s.toList
  if digits = [] then none
  else (digits.mapM hexValue).bind fun values =>
    let n := values.foldl (fun n value => n * 16 + value) 0
    if n < 2 ^ 64 then some (UInt64.ofNat n) else none

/-- `body.splitn(3, ':')` where it has three parts. -/
def splitn3 (body : String) : Option (String × String × String) :=
  match body.toList.dropWhile (· ≠ ':') with
  | [] => none
  | _ :: rest =>
    match rest.dropWhile (· ≠ ':') with
    | [] => none
    | _ :: last =>
      some (String.ofList (body.toList.takeWhile (· ≠ ':')), String.ofList (rest.takeWhile (· ≠ ':')),
        String.ofList last)

/-- A text as a field of an object. -/
def text? (value : Json) (key : String) : Option String := (value.get? key).bind Json.asStr

section Ciphers

variable (host : Host) (cipherKey : List UInt8)

def legacyKeystreamBlock (nonce blockIndex : UInt64) : List UInt8 :=
  host.sha256 (cipherKey ++ toLeBytes nonce ++ toLeBytes blockIndex)

/-- `legacy_xor_stream`: blocks of 32 bytes. -/
def legacyXorStream (nonce : UInt64) (input : List UInt8) : List UInt8 :=
  XorStream.stream (legacyKeystreamBlock host cipherKey nonce) (· + 1) 32 0 input

/-- The text of a nonce and what is encrypted under it. -/
def aeadText (nonce ciphertext : List UInt8) : String :=
  "aead-v1:" ++ hexEncode nonce ++ ":" ++ hexEncode ciphertext

def encryptValue (draw : Draw) (plaintext : String) : Except String String :=
  match host.encrypt cipherKey draw.nonce (utf8 plaintext) with
  | .error err => .error ("aead_encrypt_failed:" ++ err)
  | .ok ciphertext => .ok (aeadText draw.nonce ciphertext)

def decryptLegacyValue (payload : String) : Except String String :=
  let body := trim payload
  if !startsWith body "enc-v1:" then .ok body
  else
    match splitn3 body with
    | none => .error "legacy_cipher_invalid_parts"
    | some (_, nonce, cipher) =>
      match hexDecode cipher.toList with
      | none => .error "legacy_cipher_invalid_hex"
      | some bytes =>
        match fromUtf8 (legacyXorStream host cipherKey ((fromStrRadix16 nonce).getD 0) bytes) with
        | none => .error "legacy_cipher_invalid_utf8"
        | some plain => .ok plain

def decryptValue (payload : String) : Except String String :=
  let body := trim payload
  if startsWith body "enc-v1:" then .error "legacy_cipher_retired"
  else if !startsWith body "aead-v1:" then .error "legacy_plaintext_retired"
  else
    match splitn3 body with
    | none => .error "aead_invalid_parts"
    | some (_, nonce, cipher) =>
      match hexDecode nonce.toList with
      | none => .error "aead_invalid_nonce_hex"
      | some nonceBytes =>
        if nonceBytes.length ≠ 12 then .error "aead_invalid_nonce_len"
        else
          match hexDecode cipher.toList with
          | none => .error "aead_invalid_cipher_hex"
          | some cipherBytes =>
            match host.decrypt cipherKey nonceBytes cipherBytes with
            | none => .error "aead_decrypt_failed"
            | some plaintext =>
              match fromUtf8 plaintext with
              | none => .error "aead_invalid_utf8"
              | some plain => .ok plain

/-! ## Envelopes -/

def envelopeSchemaId : String := "organ_state_envelope"

def hotStateKeyRef : String :=
  "organ_state_encryption:key_" ++ hexEncode ((host.sha256 cipherKey).take 8)

/-- The envelope around a ciphertext. -/
def envelope (draw : Draw) (ciphertext : String) : Json :=
  Json.ofFields [
    ("schema_id", .str envelopeSchemaId),
    ("schema_version", .str "1.0"),
    ("organ", .str "memory"),
    ("lane", .str "hot_state"),
    ("algorithm", .str "aes256_gcm"),
    ("key_ref", .str (hotStateKeyRef host cipherKey)),
    ("wrapped_at", .str draw.now),
    ("ciphertext", .str ciphertext)]

def ciphertextOf (parsed : Json) : Option String :=
  if (text? parsed "schema_id").getD "" ≠ envelopeSchemaId then none
  else if (text? parsed "lane").getD "" ≠ "hot_state" then none
  else text? parsed "ciphertext"

/-- `parse_hot_state_envelope_ciphertext`. -/
def parseHotStateEnvelopeCiphertext (payload : String) : Option String :=
  match host.fromStr payload with
  | .error _ => none
  | .ok parsed => ciphertextOf parsed

/-- `wrap_hot_state_envelope`. -/
def wrapHotStateEnvelope (draw : Draw) (plaintext : String) : Except String String :=
  match encryptValue host cipherKey draw plaintext with
  | .error err => .error err
  | .ok ciphertext => .ok ((envelope host cipherKey draw ciphertext).render host.printFloat)

/-- `decode_hot_state_payload_for_migration`: the text of a row that is in no envelope. -/
def decodeHotStatePayloadForMigration (payload : String) : Except String (Option String) :=
  let body := trim payload
  if body = "" then .ok (some "")
  else if (parseHotStateEnvelopeCiphertext host body).isSome then .ok none
  else if startsWith body "aead-v1:" then (decryptValue host cipherKey body).map some
  else if startsWith body "enc-v1:" then (decryptLegacyValue host cipherKey body).map some
  else .ok (some body)

def decryptHotStateEnvelope (payload : String) : Except String String :=
  match parseHotStateEnvelopeCiphertext host (trim payload) with
  | none => .error "hot_state_envelope_required"
  | some ciphertext => decryptValue host cipherKey ciphertext

end Ciphers

/-! ## The table -/

/-- A row of `hot_state`. -/
structure HotRow where
  stateKey : String
  stateValueJson : String
  updatedTs : String

/-- The table: `state_key` is its primary key. -/
structure HotTable where
  rows : List HotRow
  distinct : (rows.map (·.stateKey)).Nodup

/-- `UPDATE hot_state` at a key. -/
def HotRow.updated (row : HotRow) (stateKey encrypted now : String) : HotRow :=
  if row.stateKey = stateKey then { row with stateValueJson := encrypted, updatedTs := now } else row

@[simp] theorem HotRow.stateKey_updated (row : HotRow) (stateKey encrypted now : String) :
    (row.updated stateKey encrypted now).stateKey = row.stateKey := by
  unfold HotRow.updated
  split
  · rfl
  · rfl

theorem keys_updated (rows : List HotRow) (stateKey encrypted now : String) :
    (rows.map (·.updated stateKey encrypted now)).map (·.stateKey) = rows.map (·.stateKey) := by
  rw [List.map_map]
  exact List.map_congr_left fun row _ => row.stateKey_updated stateKey encrypted now

def HotTable.update (table : HotTable) (stateKey encrypted now : String) : HotTable where
  rows := table.rows.map (·.updated stateKey encrypted now)
  distinct := by
    rw [keys_updated]
    exact table.distinct

/-- `INSERT INTO hot_state … ON CONFLICT(state_key) DO UPDATE`. -/
def HotTable.upsert (table : HotTable) (stateKey encrypted now : String) : HotTable :=
  if h : stateKey ∈ table.rows.map (·.stateKey) then table.update stateKey encrypted now
  else
    { rows := table.rows ++ [⟨stateKey, encrypted, now⟩]
      distinct := by
        rw [List.map_append, List.map_singleton, ← List.concat_eq_append]
        exact table.distinct.concat h }

def HotTable.row? (table : HotTable) (key : String) : Option HotRow :=
  table.rows.find? fun row => row.stateKey = key

section Database

variable (host : Host) (cipherKey : List UInt8)

/-- The loop over the rows: the keys of those that are in no envelope, with their envelopes. -/
def pendingRows (draws : ℕ → Draw) : ℕ → List HotRow → Except String (List (String × String))
  | _, [] => .ok []
  | n, row :: rest =>
    match decodeHotStatePayloadForMigration host cipherKey row.stateValueJson with
    | .error err => .error ("db_hot_state_legacy_migrate_decode_failed:" ++ err)
    | .ok none => pendingRows draws n rest
    | .ok (some plain) =>
      match wrapHotStateEnvelope host cipherKey (draws n) plain with
      | .error err => .error ("db_hot_state_envelope_wrap_failed:" ++ err)
      | .ok wrapped => (pendingRows draws (n + 1) rest).map ((row.stateKey, wrapped) :: ·)

/-- `migrate_legacy_hot_state_cipher`, as `open` runs it. -/
def migrateLegacyHotStateCipher (draws : ℕ → Draw) (now : String) (table : HotTable) :
    Except String (HotTable × ℕ) :=
  match pendingRows host cipherKey draws 0 table.rows with
  | .error err => .error err
  | .ok pending =>
    .ok (pending.foldl (fun table row => table.update row.1 row.2 now) table, pending.length)

/-- `get_hot_state_json`. -/
def getHotStateJson (table : HotTable) (key : String) : Except String (Option Json) :=
  match table.row? key with
  | none => .ok none
  | some row =>
    match decryptHotStateEnvelope host cipherKey row.stateValueJson with
    | .error err => .error ("db_hot_state_decrypt_failed:" ++ err)
    | .ok plain =>
      match host.fromStr plain with
      | .error err => .error ("db_hot_state_decode_failed:" ++ err)
      | .ok parsed => .ok (some parsed)

/-- `set_hot_state_json`. -/
def setHotStateJson (draw : Draw) (now : String) (table : HotTable) (key : String) (value : Json) :
    Except String HotTable :=
  match wrapHotStateEnvelope host cipherKey draw (value.render host.printFloat) with
  | .error err => .error ("db_hot_state_encrypt_failed:" ++ err)
  | .ok wrapped => .ok (table.upsert key wrapped now)

end Database

end Protheus.MemoryRuntime
