import Protheus.MemoryRuntime.HotState

/-!
Opening the database keeps the values of the hot state.

A row is `Stored` in one of four forms; `Carries` says that its envelope opens to a text that
is read as a value.  One row comes out of the migration carrying what it held
(`carries_migrated`), and the loop rewrites each row for itself (`rows_migrate`).
-/

namespace Protheus.MemoryRuntime

open RustStd LaneUtils
open MemoryIndex (startsWith)
open SecretBroker (hexEncode hexDecode hexValue)

mutual

/-- No number in a value is a float. -/
def whole : Json → Bool
  | .num (.float _) => false
  | .arr items => wholeItems items
  | .obj fields => wholeFields fields
  | _ => true

def wholeItems : List Json → Bool
  | [] => true
  | j :: rest => whole j && wholeItems rest

def wholeFields : List (String × Json) → Bool
  | [] => true
  | (_, j) :: rest => whole j && wholeFields rest

end

/-- What is taken of the libraries: a digest has 32 bytes, decryption undoes encryption under
the same key and nonce, blanks around a text are not read, only a brace opens an object, and a
printed value without floats is read back, as is an object of texts. -/
structure Libraries (host : Host) : Prop where
  digest : ∀ bytes, (host.sha256 bytes).length = 32
  decrypts : ∀ key nonce plain cipher, host.encrypt key nonce plain = .ok cipher →
    host.decrypt key nonce cipher = some plain
  blanks : ∀ text value, host.fromStr text = .ok value → host.fromStr (trim text) = .ok value
  opens : ∀ text value, host.fromStr text = .ok value → value.isObject = true →
    (trim text).toList.head? = some '\x7b'
  rereads : ∀ text value, host.fromStr text = .ok value → whole value = true →
    host.fromStr (value.render host.printFloat) = .ok value
  texts : ∀ fields : List (String × String),
    host.fromStr ((Json.ofFields (fields.map fun f => (f.1, .str f.2))).render host.printFloat) =
      .ok (.ofFields (fields.map fun f => (f.1, .str f.2)))

/-! ## Texts -/

theorem fromUtf8_utf8 (text : String) : fromUtf8 (utf8 text) = some text := by
  have hbytes : (⟨(utf8 text).toArray⟩ : ByteArray) = text.toByteArray := by
    rw [utf8, Array.toArray_toList]
    rfl
  rw [fromUtf8, hbytes, String.fromUTF8?, dif_pos text.isValidUTF8]
  rfl

theorem startsWith_append (head tail : String) : startsWith (head ++ tail) head = true := by
  rw [startsWith, String.toList_append, List.isPrefixOf_iff_prefix]
  exact List.prefix_append _ _

/-- A text does not start with what starts with another character. -/
theorem startsWith_of_head {text needle : String} {c d : Char} (htext : text.toList.head? = some c)
    (hneedle : needle.toList.head? = some d) (hne : d ≠ c) : startsWith text needle = false := by
  obtain ⟨rest, hrest⟩ := List.head?_eq_some_iff.mp htext
  obtain ⟨rest', hrest'⟩ := List.head?_eq_some_iff.mp hneedle
  rw [startsWith, hrest, hrest', List.isPrefixOf, beq_false_of_ne hne, Bool.false_and]

theorem head_append {head tail : String} {c : Char} (h : head.toList.head? = some c) :
    (head ++ tail).toList.head? = some c := by
  rw [String.toList_append, List.head?_append, h]
  rfl

/-- A text that starts with a tag. -/
theorem tagged {body tag nonce cipher : String} {c : Char} (hbody : body = tag ++ nonce ++ ":" ++ cipher)
    (hc : tag.toList.head? = some c) :
    body.toList.head? = some c ∧ body ≠ "" ∧ startsWith body tag = true := by
  have hhead : body.toList.head? = some c := by
    rw [hbody, String.append_assoc, String.append_assoc]
    exact head_append hc
  refine ⟨hhead, fun hempty => ?_, ?_⟩
  · rw [hempty] at hhead
    cases hhead
  · rw [hbody, String.append_assoc, String.append_assoc]
    exact startsWith_append _ _

/-- The three parts of a cipher text. -/
theorem splitn3_parts {tag nonce cipher : String} (htag : ':' ∉ tag.toList) (hnonce : ':' ∉ nonce.toList) :
    splitn3 (tag ++ ":" ++ nonce ++ ":" ++ cipher) = some (tag, nonce, cipher) := by
  have hkept {l : List Char} (h : ':' ∉ l) : ∀ c ∈ l, decide (c ≠ ':') = true :=
    fun c hc => decide_eq_true fun heq => h (heq ▸ hc)
  have hfirst : (tag ++ ":" ++ nonce ++ ":" ++ cipher).toList =
      tag.toList ++ ':' :: (nonce.toList ++ ':' :: cipher.toList) := by
    simp only [String.toList_append, List.append_assoc]
    rfl
  have htake {l rest : List Char} (h : ':' ∉ l) :
      (l ++ ':' :: rest).takeWhile (fun c => decide (c ≠ ':')) = l := by
    rw [List.takeWhile_append_of_pos (hkept h), List.takeWhile_cons_of_neg (by simp), List.append_nil]
  have hdrop {l rest : List Char} (h : ':' ∉ l) :
      (l ++ ':' :: rest).dropWhile (fun c => decide (c ≠ ':')) = ':' :: rest := by
    rw [List.dropWhile_append_of_pos (hkept h), List.dropWhile_cons_of_neg (by simp)]
  simp only [splitn3, hfirst, hdrop htag, htake htag, hdrop hnonce, htake hnonce, String.ofList_toList]

theorem colon_notMem_of_hexDecode {digits : List Char} {bytes : List UInt8}
    (h : hexDecode digits = some bytes) : ':' ∉ digits := by
  have hcolon : hexValue ':' = none := by decide
  fun_induction hexDecode digits generalizing bytes with
  | case1 a b rest ih =>
    simp only [Option.bind_eq_bind, Option.pure_def, Option.bind_eq_some_iff] at h
    obtain ⟨x, hx, y, hy, tail, htail, -⟩ := h
    rw [List.mem_cons, List.mem_cons]
    rintro (rfl | rfl | hmem)
    · rw [hcolon] at hx
      cases hx
    · rw [hcolon] at hy
      cases hy
    · exact ih htail hmem
  | case2 => cases h
  | case3 => simp

section Rows

variable {host : Host} {cipherKey : List UInt8}

/-! ## The four forms of a row -/

/-- A text is what a JSON object is written as, and the object is no envelope. -/
structure Holds (host : Host) (text : String) (value : Json) : Prop where
  reads : host.fromStr text = .ok value
  object : value.isObject = true
  free : text? value "schema_id" ≠ some envelopeSchemaId

/-- A text under AES-GCM: the hex of a nonce and of the ciphertext. -/
def Sealed (host : Host) (cipherKey : List UInt8) (payload text : String) : Prop :=
  ∃ nonce cipher : String, ∃ nonceBytes cipherBytes, payload = "aead-v1:" ++ nonce ++ ":" ++ cipher ∧
    hexDecode nonce.toList = some nonceBytes ∧ nonceBytes.length = 12 ∧
    hexDecode cipher.toList = some cipherBytes ∧
    host.encrypt cipherKey nonceBytes (utf8 text) = .ok cipherBytes

/-- A row that holds the text of an object, in one of the four forms. -/
inductive Stored (host : Host) (cipherKey : List UInt8) (raw : String) (value : Json) : Prop where
  | plain (holds : Holds host raw value)
  | legacy (text nonce cipher : String) (holds : Holds host text value) (hnonce : ':' ∉ nonce.toList)
      (hraw : trim raw = "enc-v1:" ++ nonce ++ ":" ++ cipher)
      (hcipher : hexDecode cipher.toList =
        some (legacyXorStream host cipherKey ((fromStrRadix16 nonce).getD 0) (utf8 text)))
  | aead (text : String) (holds : Holds host text value) (hraw : Sealed host cipherKey (trim raw) text)
  | enveloped (text ciphertext : String) (parsed : Json) (holds : Holds host text value)
      (hparsed : host.fromStr raw = .ok parsed) (hciphertext : ciphertextOf parsed = some ciphertext)
      (hsealed : Sealed host cipherKey (trim ciphertext) text)

/-- The envelope of a row opens to a text that is read as a value. -/
def Carries (host : Host) (cipherKey : List UInt8) (raw : String) (value : Json) : Prop :=
  ∃ plain, decryptHotStateEnvelope host cipherKey raw = .ok plain ∧ host.fromStr plain = .ok value

/-- The keystream laid over bytes twice leaves them. -/
theorem legacyXorStream_twice (libraries : Libraries host) (cipherKey : List UInt8) (nonce : UInt64)
    (bytes : List UInt8) :
    legacyXorStream host cipherKey nonce (legacyXorStream host cipherKey nonce bytes) = bytes :=
  @XorStream.stream_stream _ (legacyKeystreamBlock host cipherKey nonce) _ 32 _
    (fun _ => libraries.digest _) 0 bytes

/-- A sealed text is opened. -/
theorem Sealed.decryptValue (libraries : Libraries host) {payload text : String}
    (h : Sealed host cipherKey (trim payload) text) :
    MemoryRuntime.decryptValue host cipherKey payload = .ok text := by
  obtain ⟨nonce, cipher, nonceBytes, cipherBytes, hbody, hnonce, hlength, hcipher, hencrypt⟩ := h
  have htag : trim payload = "aead-v1" ++ ":" ++ nonce ++ ":" ++ cipher := hbody
  obtain ⟨hhead, -, haead⟩ := tagged hbody (show "aead-v1:".toList.head? = some 'a' by decide)
  have hlegacy : startsWith (trim payload) "enc-v1:" = false :=
    startsWith_of_head hhead (by decide) (by decide) (d := 'e')
  have hparts : splitn3 (trim payload) = some ("aead-v1", nonce, cipher) := by
    rw [htag]
    exact splitn3_parts (by decide) (colon_notMem_of_hexDecode hnonce)
  have hplain := libraries.decrypts _ _ _ _ hencrypt
  simp only [MemoryRuntime.decryptValue, hlegacy, haead, hparts, hnonce, hlength, hcipher, hplain,
    fromUtf8_utf8, Bool.false_eq_true, Bool.not_true, if_false, ne_eq, not_true]

/-- A text that opens with a brace is under no cipher. -/
theorem startsWith_of_object (libraries : Libraries host) {text : String} {value : Json}
    (hreads : host.fromStr text = .ok value) (hobject : value.isObject = true) :
    startsWith (trim text) "aead-v1:" = false ∧ startsWith (trim text) "enc-v1:" = false ∧ trim text ≠ "" := by
  have hopens := libraries.opens text value hreads hobject
  refine ⟨startsWith_of_head hopens (by decide) (by decide) (d := 'a'),
    startsWith_of_head hopens (by decide) (by decide) (d := 'e'), fun hempty => ?_⟩
  rw [hempty] at hopens
  cases hopens

theorem isObject_of_ciphertextOf {parsed : Json} {ciphertext : String}
    (h : ciphertextOf parsed = some ciphertext) : parsed.isObject = true := by
  unfold ciphertextOf at h
  split at h
  · cases h
  split at h
  · cases h
  cases parsed with
  | obj fields => rfl
  | _ => cases h

/-- Only a text that opens with a brace is an envelope. -/
theorem parse_eq_none_of_head (libraries : Libraries host) {body : String} {c : Char} (htrim : trim body = body)
    (hhead : body.toList.head? = some c) (hbrace : c ≠ '\x7b') :
    parseHotStateEnvelopeCiphertext host body = none := by
  rw [Option.eq_none_iff_forall_not_mem]
  intro ciphertext h
  unfold parseHotStateEnvelopeCiphertext at h
  split at h
  · cases h
  · rename_i parsed hparsed
    have hopens := libraries.opens body parsed hparsed (isObject_of_ciphertextOf h)
    rw [htrim, hhead] at hopens
    exact hbrace (Option.some.inj hopens)

/-- An object of its own is no envelope. -/
theorem Holds.parse_eq_none (libraries : Libraries host) {text : String} {value : Json} (h : Holds host text value) :
    parseHotStateEnvelopeCiphertext host (trim text) = none := by
  have hschema : (text? value "schema_id").getD "" ≠ envelopeSchemaId := by
    cases hid : text? value "schema_id" with
    | none => decide
    | some id => exact fun heq => h.free (hid.trans (congrArg some heq))
  simp only [parseHotStateEnvelopeCiphertext, libraries.blanks text value h.reads, ciphertextOf, hschema, ne_eq,
    not_false_eq_true, if_true]

/-- **A row is either in an envelope that opens to what it holds, or it is decoded to a text that
is read as what it holds.** -/
theorem Stored.cases (libraries : Libraries host) {raw : String} {value : Json}
    (h : Stored host cipherKey raw value) :
    (decodeHotStatePayloadForMigration host cipherKey raw = .ok none ∧ Carries host cipherKey raw value) ∨
      ∃ plain, decodeHotStatePayloadForMigration host cipherKey raw = .ok (some plain) ∧
        host.fromStr plain = .ok value := by
  cases h with
  | plain holds =>
    obtain ⟨haead, hlegacy, hne⟩ := startsWith_of_object libraries holds.reads holds.object
    refine .inr ⟨trim raw, ?_, libraries.blanks raw value holds.reads⟩
    simp only [decodeHotStatePayloadForMigration, hne, holds.parse_eq_none libraries, haead, hlegacy,
      Option.isSome_none, Bool.false_eq_true, if_false]
  | legacy text nonce cipher holds hnonce hraw hcipher =>
    obtain ⟨hhead, hne, hlegacy⟩ := tagged hraw (show "enc-v1:".toList.head? = some 'e' by decide)
    have hnone := parse_eq_none_of_head libraries (trim_trim raw) hhead (by decide)
    have haead : startsWith (trim raw) "aead-v1:" = false :=
      startsWith_of_head hhead (by decide) (by decide) (d := 'a')
    have htag : trim raw = "enc-v1" ++ ":" ++ nonce ++ ":" ++ cipher := hraw
    have hparts : splitn3 (trim raw) = some ("enc-v1", nonce, cipher) := by
      rw [htag]
      exact splitn3_parts (by decide) hnonce
    have hplain := congrArg fromUtf8
      (legacyXorStream_twice libraries cipherKey ((fromStrRadix16 nonce).getD 0) (utf8 text))
    rw [fromUtf8_utf8] at hplain
    refine .inr ⟨text, ?_, holds.reads⟩
    simp only [decodeHotStatePayloadForMigration, decryptLegacyValue, trim_trim, hne, hnone, haead, hlegacy, hparts,
      hcipher, hplain, Option.isSome_none, Bool.false_eq_true, Bool.not_true, if_false, if_true, Except.map]
  | aead text holds hraw =>
    obtain ⟨nonce, cipher, -, -, hbody, -⟩ := id hraw
    obtain ⟨hhead, hne, haead⟩ := tagged hbody (show "aead-v1:".toList.head? = some 'a' by decide)
    have hnone := parse_eq_none_of_head libraries (trim_trim raw) hhead (by decide)
    have hplain := Sealed.decryptValue libraries ((trim_trim raw).symm ▸ hraw)
    refine .inr ⟨text, ?_, holds.reads⟩
    simp only [decodeHotStatePayloadForMigration, hne, hnone, haead, hplain, Option.isSome_none,
      Bool.false_eq_true, if_false, if_true, Except.map]
  | enveloped text ciphertext parsed holds hparsed hciphertext hsealed =>
    have hne := (startsWith_of_object libraries hparsed (isObject_of_ciphertextOf hciphertext)).2.2
    have hparse : parseHotStateEnvelopeCiphertext host (trim raw) = some ciphertext := by
      rw [parseHotStateEnvelopeCiphertext, libraries.blanks raw parsed hparsed]
      exact hciphertext
    refine .inl ⟨?_, text, ?_, holds.reads⟩
    · simp only [decodeHotStatePayloadForMigration, hne, hparse, Option.isSome_some, if_false, if_true]
    · simp only [decryptHotStateEnvelope, hparse]
      exact hsealed.decryptValue libraries

/-! ## What is wrapped -/

theorem envelope_texts (draw : Draw) (ciphertext : String) :
    ∃ fields : List (String × String), envelope host cipherKey draw ciphertext =
      Json.ofFields (fields.map fun f => (f.1, .str f.2)) :=
  ⟨[("schema_id", envelopeSchemaId), ("schema_version", "1.0"), ("organ", "memory"), ("lane", "hot_state"),
    ("algorithm", "aes256_gcm"), ("key_ref", hotStateKeyRef host cipherKey), ("wrapped_at", draw.now),
    ("ciphertext", ciphertext)], rfl⟩

theorem ciphertextOf_envelope (draw : Draw) (ciphertext : String) :
    ciphertextOf (envelope host cipherKey draw ciphertext) = some ciphertext := by
  obtain ⟨fields, hfields⟩ : ∃ fields, fields = [
    ("schema_id", Json.str envelopeSchemaId), ("schema_version", .str "1.0"), ("organ", .str "memory"),
    ("lane", .str "hot_state"), ("algorithm", .str "aes256_gcm"),
    ("key_ref", .str (hotStateKeyRef host cipherKey)), ("wrapped_at", .str draw.now),
    ("ciphertext", .str ciphertext)] := ⟨_, rfl⟩
  have hnodup : (fields.map Prod.fst).Nodup := by
    simp only [hfields, List.map_cons, List.map_nil]
    decide
  have htext {key value : String} (h : (key, Json.str value) ∈ fields) :
      text? (envelope host cipherKey draw ciphertext) key = some value := by
    rw [text?, envelope, ← hfields, Json.get?_ofFields_mem hnodup h]
    rfl
  have hschema := @htext "schema_id" envelopeSchemaId (by simp [hfields])
  have hlane := @htext "lane" "hot_state" (by simp [hfields])
  have hcipher := @htext "ciphertext" ciphertext (by simp [hfields])
  simp only [ciphertextOf, hschema, hlane, hcipher, Option.getD_some, ne_eq, not_true, if_false]

/-- There is no blank in a cipher text with a tag. -/
theorem trim_tagged {tag nonce : String} (htag : ∀ c ∈ tag.toList, isWhitespace c = false)
    (hnonce : ∀ c ∈ nonce.toList, isWhitespace c = false) (ciphertext : List UInt8) :
    trim (tag ++ nonce ++ ":" ++ hexEncode ciphertext) = tag ++ nonce ++ ":" ++ hexEncode ciphertext := by
  refine trim_eq_self fun c hc => ?_
  rw [String.toList_append, String.toList_append, String.toList_append] at hc
  simp only [List.mem_append] at hc
  rcases hc with ((hc | hc) | hcolon) | hcipher
  · exact htag c hc
  · exact hnonce c hc
  · obtain rfl : c = ':' := List.mem_singleton.mp hcolon
    rfl
  · exact SecretBroker.hexEncode_not_whitespace hcipher

theorem trim_aeadText (nonce ciphertext : List UInt8) :
    trim (aeadText nonce ciphertext) = aeadText nonce ciphertext := by
  have hall : ("aead-v1:".toList.all fun c => !isWhitespace c) = true := by decide
  refine trim_tagged (fun c hc => ?_) (fun c hc => SecretBroker.hexEncode_not_whitespace hc) ciphertext
  simpa using List.all_eq_true.mp hall c hc

/-- **What is wrapped opens to its text.** -/
theorem decrypt_wrapped (libraries : Libraries host) {draw : Draw} {plain wrapped : String}
    (h : wrapHotStateEnvelope host cipherKey draw plain = .ok wrapped) :
    decryptHotStateEnvelope host cipherKey wrapped = .ok plain := by
  unfold wrapHotStateEnvelope encryptValue at h
  cases hencrypt : host.encrypt cipherKey draw.nonce (utf8 plain) with
  | error err =>
    rw [hencrypt] at h
    cases h
  | ok ciphertext =>
    rw [hencrypt] at h
    have hwrapped := Except.ok.inj h
    obtain ⟨fields, hfields⟩ := @envelope_texts host cipherKey draw (aeadText draw.nonce ciphertext)
    have hread : host.fromStr wrapped = .ok (envelope host cipherKey draw (aeadText draw.nonce ciphertext)) := by
      rw [← hwrapped, hfields]
      exact libraries.texts fields
    have hparse : parseHotStateEnvelopeCiphertext host (trim wrapped) = some (aeadText draw.nonce ciphertext) := by
      rw [parseHotStateEnvelopeCiphertext, libraries.blanks _ _ hread]
      exact ciphertextOf_envelope draw _
    have hsealed : Sealed host cipherKey (trim (aeadText draw.nonce ciphertext)) plain := by
      rw [trim_aeadText]
      exact ⟨_, _, draw.nonce, ciphertext, rfl, SecretBroker.hexDecode_hexEncode _, draw.length,
        SecretBroker.hexDecode_hexEncode _, hencrypt⟩
    simp only [decryptHotStateEnvelope, hparse]
    exact hsealed.decryptValue libraries

def Enveloped (host : Host) (raw : String) : Prop :=
  (parseHotStateEnvelopeCiphertext host (trim raw)).isSome = true

theorem Enveloped.of_decrypt {raw plain : String} (h : decryptHotStateEnvelope host cipherKey raw = .ok plain) :
    Enveloped host raw := by
  unfold decryptHotStateEnvelope at h
  split at h
  · cases h
  · rename_i ciphertext hparse
    rw [Enveloped, hparse]
    rfl

/-- A row in an envelope is left alone. -/
theorem Enveloped.decode (libraries : Libraries host) {raw : String} (h : Enveloped host raw) :
    decodeHotStatePayloadForMigration host cipherKey raw = .ok none := by
  have hne : trim raw ≠ "" := by
    intro hempty
    have hnone : parseHotStateEnvelopeCiphertext host (trim raw) = none := by
      rw [Option.eq_none_iff_forall_not_mem]
      intro ciphertext hparse
      unfold parseHotStateEnvelopeCiphertext at hparse
      split at hparse
      · cases hparse
      · rename_i parsed hparsed
        have hopens := libraries.opens _ _ hparsed (isObject_of_ciphertextOf hparse)
        rw [hempty] at hopens
        cases hopens
    rw [Enveloped, hnone] at h
    cases h
  have hsome : (parseHotStateEnvelopeCiphertext host (trim raw)).isSome = true := h
  simp only [decodeHotStatePayloadForMigration, hne, hsome, if_false, if_true]

/-! ## The loop over the rows -/

/-- What the migration makes of a row. -/
def applied (now : String) (pending : List (String × String)) (row : HotRow) : HotRow :=
  pending.foldl (fun row p => row.updated p.1 p.2 now) row

theorem rows_foldl_update (now : String) (pending : List (String × String)) (table : HotTable) :
    (pending.foldl (fun table p => table.update p.1 p.2 now) table).rows =
      table.rows.map (applied now pending) := by
  induction pending generalizing table with
  | nil => exact (List.map_id _).symm
  | cons p pending ih =>
    rw [List.foldl_cons, ih, HotTable.update, List.map_map]
    rfl

@[simp] theorem stateKey_applied (now : String) (pending : List (String × String)) (row : HotRow) :
    (applied now pending row).stateKey = row.stateKey := by
  induction pending generalizing row with
  | nil => rfl
  | cons p pending ih =>
    rw [applied, List.foldl_cons]
    exact (ih _).trans (row.stateKey_updated p.1 p.2 now)

/-- A row whose key is not pending stays as it is. -/
theorem applied_of_notMem {now : String} {pending : List (String × String)} {row : HotRow}
    (h : row.stateKey ∉ pending.map (·.1)) : applied now pending row = row := by
  induction pending with
  | nil => rfl
  | cons p pending ih =>
    rw [List.map_cons, List.mem_cons, not_or] at h
    have hsame : row.updated p.1 p.2 now = row := if_neg h.1
    rw [applied, List.foldl_cons, hsame]
    exact ih h.2

/-- What a row becomes: it is in an envelope and stays, or its text is wrapped. -/
def Migrated (host : Host) (cipherKey : List UInt8) (row row' : HotRow) : Prop :=
  (decodeHotStatePayloadForMigration host cipherKey row.stateValueJson = .ok none ∧ row' = row) ∨
    ∃ plain draw, decodeHotStatePayloadForMigration host cipherKey row.stateValueJson = .ok (some plain) ∧
      wrapHotStateEnvelope host cipherKey draw plain = .ok row'.stateValueJson

theorem pendingRows_cons {draws : ℕ → Draw} {n : ℕ} {row : HotRow} {rest : List HotRow}
    {pending : List (String × String)} (h : pendingRows host cipherKey draws n (row :: rest) = .ok pending) :
    (decodeHotStatePayloadForMigration host cipherKey row.stateValueJson = .ok none ∧
      pendingRows host cipherKey draws n rest = .ok pending) ∨
    ∃ plain wrapped pending',
      decodeHotStatePayloadForMigration host cipherKey row.stateValueJson = .ok (some plain) ∧
      wrapHotStateEnvelope host cipherKey (draws n) plain = .ok wrapped ∧
      pendingRows host cipherKey draws (n + 1) rest = .ok pending' ∧
      pending = (row.stateKey, wrapped) :: pending' := by
  rw [pendingRows] at h
  cases hdecode : decodeHotStatePayloadForMigration host cipherKey row.stateValueJson with
  | error err =>
    rw [hdecode] at h
    cases h
  | ok decoded =>
    rw [hdecode] at h
    cases decoded with
    | none => exact .inl ⟨rfl, h⟩
    | some plain =>
      dsimp only at h
      split at h
      · cases h
      rename_i wrapped hwrapped
      cases hrest : pendingRows host cipherKey draws (n + 1) rest with
      | error err =>
        rw [hrest] at h
        cases h
      | ok pending' =>
        rw [hrest] at h
        exact .inr ⟨plain, wrapped, pending', rfl, hwrapped, rfl, (Except.ok.inj h).symm⟩

theorem keys_pendingRows {draws : ℕ → Draw} {n : ℕ} {rows : List HotRow} {pending : List (String × String)}
    (h : pendingRows host cipherKey draws n rows = .ok pending) :
    ∀ key ∈ pending.map (·.1), key ∈ rows.map (·.stateKey) := by
  induction rows generalizing n pending with
  | nil =>
    obtain rfl := Except.ok.inj h
    simp
  | cons row rest ih =>
    intro key hkey
    rw [List.map_cons, List.mem_cons]
    rcases pendingRows_cons h with ⟨-, hrest⟩ | ⟨plain, wrapped, pending', -, -, hrest, rfl⟩
    · exact .inr (ih hrest key hkey)
    · rw [List.map_cons, List.mem_cons] at hkey
      rcases hkey with rfl | hkey
      · exact .inl rfl
      · exact .inr (ih hrest key hkey)

/-- **Each row is migrated for itself.** -/
theorem migrated_of_pendingRows {draws : ℕ → Draw} {n : ℕ} {now : String} {rows : List HotRow}
    {pending : List (String × String)} (hdistinct : (rows.map (·.stateKey)).Nodup)
    (h : pendingRows host cipherKey draws n rows = .ok pending) :
    ∀ row ∈ rows, Migrated host cipherKey row (applied now pending row) := by
  induction rows generalizing n pending with
  | nil => simp
  | cons first rest ih =>
    rw [List.map_cons, List.nodup_cons] at hdistinct
    intro row hrow
    rcases pendingRows_cons h with ⟨hdecode, hrest⟩ | ⟨plain, wrapped, pending', hdecode, hwrapped, hrest, rfl⟩
    · rcases List.mem_cons.mp hrow with rfl | hmem
      · exact .inl ⟨hdecode, applied_of_notMem fun hkey => hdistinct.1 (keys_pendingRows hrest _ hkey)⟩
      · exact ih hdistinct.2 hrest row hmem
    · have hcons : applied now ((first.stateKey, wrapped) :: pending') row =
          applied now pending' (row.updated first.stateKey wrapped now) := rfl
      rcases List.mem_cons.mp hrow with rfl | hmem
      · -- the row's own key is pending once
        have hself : row.updated row.stateKey wrapped now = ⟨row.stateKey, wrapped, now⟩ := if_pos rfl
        have honce : applied now pending' ⟨row.stateKey, wrapped, now⟩ = ⟨row.stateKey, wrapped, now⟩ :=
          applied_of_notMem fun hkey => hdistinct.1 (keys_pendingRows hrest _ hkey)
        rw [hcons, hself, honce]
        exact .inr ⟨plain, draws n, hdecode, hwrapped⟩
      · have hother : row.updated first.stateKey wrapped now = row :=
          if_neg fun hkey => hdistinct.1 (List.mem_map.mpr ⟨row, hmem, hkey⟩)
        rw [hcons, hother]
        exact ih hdistinct.2 hrest row hmem

/-- What the migration makes of a table: each row for itself. -/
theorem rows_migrate {draws : ℕ → Draw} {now : String} {table opened : HotTable} {n : ℕ}
    (h : migrateLegacyHotStateCipher host cipherKey draws now table = .ok (opened, n)) :
    ∃ f : HotRow → HotRow, opened.rows = table.rows.map f ∧
      ∀ row ∈ table.rows, (f row).stateKey = row.stateKey ∧ Migrated host cipherKey row (f row) := by
  unfold migrateLegacyHotStateCipher at h
  split at h
  · cases h
  · rename_i pending hpending
    obtain ⟨rfl, -⟩ := Prod.mk.inj (Except.ok.inj h)
    exact ⟨applied now pending, rows_foldl_update now pending table, fun row hrow =>
      ⟨stateKey_applied now pending row, migrated_of_pendingRows table.distinct hpending row hrow⟩⟩

/-- As long as nothing fails to be encrypted, a table of rows in the four forms is opened. -/
theorem migrate_of_stored (libraries : Libraries host)
    (hencrypt : ∀ (draw : Draw) text, ∃ ciphertext, host.encrypt cipherKey draw.nonce (utf8 text) = .ok ciphertext)
    (draws : ℕ → Draw) (now : String) {table : HotTable}
    (h : ∀ row ∈ table.rows, ∃ value, Stored host cipherKey row.stateValueJson value) :
    ∃ opened n, migrateLegacyHotStateCipher host cipherKey draws now table = .ok (opened, n) := by
  have hpending : ∀ rows : List HotRow,
      (∀ row ∈ rows, ∃ value, Stored host cipherKey row.stateValueJson value) →
      ∀ n, ∃ pending, pendingRows host cipherKey draws n rows = .ok pending := by
    intro rows hrows
    induction rows with
    | nil => exact fun n => ⟨[], rfl⟩
    | cons row rest ih =>
      intro n
      have hih := ih fun row' hrow' => hrows row' (List.mem_cons_of_mem _ hrow')
      obtain ⟨value, hvalue⟩ := hrows row List.mem_cons_self
      rcases hvalue.cases libraries with ⟨hdecode, -⟩ | ⟨plain, hdecode, -⟩
      · obtain ⟨pending, hrest⟩ := hih n
        exact ⟨pending, by rw [pendingRows, hdecode, ← hrest]⟩
      · obtain ⟨pending, hrest⟩ := hih (n + 1)
        obtain ⟨ciphertext, hcipher⟩ := hencrypt (draws n) plain
        obtain ⟨wrapped, hwrapped⟩ : ∃ wrapped, wrapHotStateEnvelope host cipherKey (draws n) plain = .ok wrapped := by
          rw [wrapHotStateEnvelope, encryptValue, hcipher]
          exact ⟨_, rfl⟩
        refine ⟨(row.stateKey, wrapped) :: pending, ?_⟩
        simp only [pendingRows, hdecode, hwrapped, hrest, Except.map]
  obtain ⟨pending, hpending⟩ := hpending table.rows h 0
  exact ⟨_, _, by rw [migrateLegacyHotStateCipher, hpending]⟩

/-- A row that holds a value carries it past the migration. -/
theorem carries_migrated (libraries : Libraries host) {row row' : HotRow} {value : Json}
    (hstored : Stored host cipherKey row.stateValueJson value) (h : Migrated host cipherKey row row') :
    Carries host cipherKey row'.stateValueJson value := by
  rcases hstored.cases libraries with ⟨hdecode, hcarries⟩ | ⟨plain, hdecode, hreads⟩
  · rcases h with ⟨-, rfl⟩ | ⟨plain, draw, hdecode', -⟩
    · exact hcarries
    · rw [hdecode] at hdecode'
      cases Except.ok.inj hdecode'
  · rcases h with ⟨hdecode', -⟩ | ⟨plain', draw, hdecode', hwrapped⟩
    · rw [hdecode] at hdecode'
      cases Except.ok.inj hdecode'
    · rw [hdecode] at hdecode'
      obtain rfl := Option.some.inj (Except.ok.inj hdecode')
      exact ⟨plain, decrypt_wrapped libraries hwrapped, hreads⟩

/-- A table whose rows are all in envelopes is left as it is. -/
theorem migrate_of_enveloped (libraries : Libraries host) (draws : ℕ → Draw) (now : String) {table : HotTable}
    (h : ∀ row ∈ table.rows, Enveloped host row.stateValueJson) :
    migrateLegacyHotStateCipher host cipherKey draws now table = .ok (table, 0) := by
  have hnone : ∀ rows : List HotRow, (∀ row ∈ rows, Enveloped host row.stateValueJson) →
      pendingRows host cipherKey draws 0 rows = .ok [] := by
    intro rows hrows
    induction rows with
    | nil => rfl
    | cons row rest ih =>
      rw [pendingRows, (hrows row List.mem_cons_self).decode libraries]
      exact ih fun row' hrow' => hrows row' (List.mem_cons_of_mem _ hrow')
  rw [migrateLegacyHotStateCipher, hnone table.rows h]
  rfl

/-! ## Lookups -/

theorem row?_eq_some {table : HotTable} {key : String} {row : HotRow} :
    table.row? key = some row ↔ row ∈ table.rows ∧ row.stateKey = key := by
  have hfound {other : HotRow} (h : table.row? key = some other) : other ∈ table.rows ∧ other.stateKey = key := by
    have hkey := List.find?_some (p := fun row : HotRow => decide (row.stateKey = key)) h
    exact ⟨List.mem_of_find?_eq_some h, of_decide_eq_true hkey⟩
  refine ⟨hfound, ?_⟩
  rintro ⟨hmem, hkey⟩
  have hsome : (table.row? key).isSome := by
    rw [HotTable.row?, List.find?_isSome]
    exact ⟨row, hmem, decide_eq_true hkey⟩
  obtain ⟨other, hother⟩ := Option.isSome_iff_exists.mp hsome
  obtain ⟨hmem', hkey'⟩ := hfound hother
  rw [hother, List.inj_on_of_nodup_map table.distinct hmem' hmem (hkey'.trans hkey.symm)]

/-- What a row carries is what is read at its key. -/
theorem get_of_carries {table : HotTable} {row : HotRow} {value : Json} (hrow : row ∈ table.rows)
    (h : Carries host cipherKey row.stateValueJson value) :
    getHotStateJson host cipherKey table row.stateKey = .ok (some value) := by
  obtain ⟨plain, hplain, hreads⟩ := h
  rw [getHotStateJson, row?_eq_some.mpr ⟨hrow, rfl⟩]
  simp only [hplain, hreads]

theorem mem_update {table : HotTable} {key encrypted now : String} {row : HotRow} :
    row ∈ (table.update key encrypted now).rows ↔
      (row ∈ table.rows ∧ row.stateKey ≠ key) ∨
        (key ∈ table.rows.map (·.stateKey) ∧ row = ⟨key, encrypted, now⟩) := by
  rw [HotTable.update, List.mem_map]
  constructor
  · rintro ⟨old, hold, rfl⟩
    by_cases hkey : old.stateKey = key
    · refine .inr ⟨List.mem_map.mpr ⟨old, hold, hkey⟩, ?_⟩
      rw [HotRow.updated, if_pos hkey, hkey]
    · rw [HotRow.updated, if_neg hkey]
      exact .inl ⟨hold, hkey⟩
  · rintro (⟨hrow, hkey⟩ | ⟨hkey, rfl⟩)
    · exact ⟨row, hrow, if_neg hkey⟩
    · obtain ⟨old, hold, rfl⟩ := List.mem_map.mp hkey
      exact ⟨old, hold, if_pos rfl⟩

/-- A row that is written, beside the others. -/
theorem mem_upsert {table : HotTable} {key encrypted now : String} {row : HotRow} :
    row ∈ (table.upsert key encrypted now).rows ↔
      (row ∈ table.rows ∧ row.stateKey ≠ key) ∨ row = ⟨key, encrypted, now⟩ := by
  unfold HotTable.upsert
  split
  · rename_i hkey
    rw [mem_update, and_iff_right hkey]
  · rename_i hkey
    have hother (h : row ∈ table.rows) : row.stateKey ≠ key := fun heq => hkey (List.mem_map.mpr ⟨row, h, heq⟩)
    rw [List.mem_append, List.mem_singleton]
    exact or_congr_left ⟨fun h => ⟨h, hother h⟩, And.left⟩

theorem row?_upsert_of_ne {table : HotTable} {key other encrypted now : String} (h : other ≠ key) :
    (table.upsert key encrypted now).row? other = table.row? other := by
  refine Option.ext fun row => ?_
  rw [row?_eq_some, row?_eq_some, mem_upsert]
  constructor
  · rintro ⟨⟨hrow, -⟩ | rfl, hkey⟩
    · exact ⟨hrow, hkey⟩
    · exact absurd hkey.symm h
  · rintro ⟨hrow, rfl⟩
    exact ⟨.inl ⟨hrow, h⟩, rfl⟩

/-! ## Runs of the database -/

/-- The tables that writing leads to. -/
def Written (host : Host) (cipherKey : List UInt8) : HotTable → HotTable → Prop :=
  Relation.ReflTransGen fun table table' =>
    ∃ draw now key value, setHotStateJson host cipherKey draw now table key value = .ok table'

/-- What is written is one row in an envelope. -/
theorem set_cases (libraries : Libraries host) {draw : Draw} {now key : String} {table table' : HotTable}
    {value : Json} (h : setHotStateJson host cipherKey draw now table key value = .ok table') :
    ∃ wrapped, table' = table.upsert key wrapped now ∧
      decryptHotStateEnvelope host cipherKey wrapped = .ok (value.render host.printFloat) := by
  unfold setHotStateJson at h
  split at h
  · cases h
  · rename_i wrapped hwrapped
    exact ⟨wrapped, (Except.ok.inj h).symm, decrypt_wrapped libraries hwrapped⟩

/-- **What is written is read, and the other keys are read as before.** -/
theorem get_set (libraries : Libraries host) {draw : Draw} {now key : String} {table table' : HotTable}
    {value : Json} (h : setHotStateJson host cipherKey draw now table key value = .ok table') :
    (∀ text, host.fromStr text = .ok value → whole value = true →
      getHotStateJson host cipherKey table' key = .ok (some value)) ∧
    ∀ other ≠ key, getHotStateJson host cipherKey table' other = getHotStateJson host cipherKey table other := by
  obtain ⟨wrapped, rfl, hopens⟩ := set_cases libraries h
  constructor
  · intro text hread hwhole
    have hrow : (⟨key, wrapped, now⟩ : HotRow) ∈ (table.upsert key wrapped now).rows := mem_upsert.mpr (.inr rfl)
    exact get_of_carries hrow ⟨_, hopens, libraries.rereads text value hread hwhole⟩
  · intro other hother
    rw [getHotStateJson, getHotStateJson, row?_upsert_of_ne hother]

theorem enveloped_written (libraries : Libraries host) {table table' : HotTable}
    (h : Written host cipherKey table table') (hstart : ∀ row ∈ table.rows, Enveloped host row.stateValueJson) :
    ∀ row ∈ table'.rows, Enveloped host row.stateValueJson := by
  induction h with
  | refl => exact hstart
  | tail _ hset ih =>
    obtain ⟨draw, now, key, value, hset⟩ := hset
    obtain ⟨wrapped, rfl, hopens⟩ := set_cases libraries hset
    intro row hrow
    rcases mem_upsert.mp hrow with ⟨hold, -⟩ | rfl
    · exact ih row hold
    · exact .of_decrypt hopens

/-- **The migration keeps every value.**  After a table of rows in the four forms is opened, every
key is read as what its row held.  From then on, whatever is written, what can be encrypted can be
written, a written value is read at its key and the other keys are read as before, and opening the
database again changes no row. -/
theorem migration_preserves (libraries : Libraries host) {draws : ℕ → Draw} {now : String}
    {table opened : HotTable} {n : ℕ}
    (hstored : ∀ row ∈ table.rows, ∃ value, Stored host cipherKey row.stateValueJson value)
    (hopened : migrateLegacyHotStateCipher host cipherKey draws now table = .ok (opened, n)) :
    (∀ row ∈ table.rows, ∀ value, Stored host cipherKey row.stateValueJson value →
      getHotStateJson host cipherKey opened row.stateKey = .ok (some value)) ∧
    ∀ table', Written host cipherKey opened table' →
      (∀ draw now key value ciphertext,
        host.encrypt cipherKey draw.nonce (utf8 (value.render host.printFloat)) = .ok ciphertext →
          ∃ table'', setHotStateJson host cipherKey draw now table' key value = .ok table'') ∧
      (∀ draw now key value table'', setHotStateJson host cipherKey draw now table' key value = .ok table'' →
        (∀ text, host.fromStr text = .ok value → whole value = true →
          getHotStateJson host cipherKey table'' key = .ok (some value)) ∧
        ∀ other ≠ key,
          getHotStateJson host cipherKey table'' other = getHotStateJson host cipherKey table' other) ∧
      ∀ draws now, migrateLegacyHotStateCipher host cipherKey draws now table' = .ok (table', 0) := by
  obtain ⟨f, hrows, hf⟩ := rows_migrate hopened
  have hcarries : ∀ row ∈ table.rows, ∀ value, Stored host cipherKey row.stateValueJson value →
      Carries host cipherKey (f row).stateValueJson value :=
    fun row hrow value hvalue => carries_migrated libraries hvalue (hf row hrow).2
  refine ⟨fun row hrow value hvalue => ?_, fun table' hwritten => ⟨?_, ?_, ?_⟩⟩
  · rw [← (hf row hrow).1]
    refine get_of_carries ?_ (hcarries row hrow value hvalue)
    rw [hrows]
    exact List.mem_map_of_mem hrow
  · intro draw now key value ciphertext hencrypt
    rw [setHotStateJson, wrapHotStateEnvelope, encryptValue, hencrypt]
    exact ⟨_, rfl⟩
  · intro draw now key value table'' hset
    exact get_set libraries hset
  · intro draws now
    refine migrate_of_enveloped libraries draws now (enveloped_written libraries hwritten fun row hrow => ?_)
    rw [hrows] at hrow
    obtain ⟨old, hold, rfl⟩ := List.mem_map.mp hrow
    obtain ⟨value, hvalue⟩ := hstored old hold
    obtain ⟨plain, hopens, -⟩ := hcarries old hold value hvalue
    exact .of_decrypt hopens

end Rows

/-! ## A database of two rows -/

open Classical in
/-- Reads the text of an object, whatever blanks are around it. -/
noncomputable def readObject (text : String) : Except String Json :=
  if h : ∃ value : Json, value.isObject = true ∧ value.render V8Kernel.plainHost.printFloat = trim text then
    .ok h.choose
  else .error "expected value"

theorem readObject_eq_ok {text : String} {value : Json} : readObject text = .ok value ↔
    value.isObject = true ∧ value.render V8Kernel.plainHost.printFloat = trim text := by
  unfold readObject
  constructor
  · intro h
    split at h
    · rename_i hexists
      rw [← Except.ok.inj h]
      exact hexists.choose_spec
    · cases h
  · rintro ⟨hobject, htext⟩
    have hexists : ∃ value : Json, value.isObject = true ∧
        value.render V8Kernel.plainHost.printFloat = trim text := ⟨value, hobject, htext⟩
    rw [dif_pos hexists]
    have hsame := hexists.choose_spec.2.trans htext.symm
    exact congrArg Except.ok (Json.render_injective V8Kernel.floatText_pointed hsame)

/-- A host that masks every byte. -/
noncomputable def maskHost : Host where
  sha256 bytes := List.replicate 32 (bytes.foldl (· + ·) 7)
  encrypt _ _ plain := .ok (plain.map (· ^^^ 85))
  decrypt _ _ cipher := some (cipher.map (· ^^^ 85))
  fromStr := readObject
  printFloat := V8Kernel.plainHost.printFloat

theorem maskHost_reads {value : Json} (h : value.isObject = true) :
    readObject (value.render V8Kernel.plainHost.printFloat) = .ok value :=
  readObject_eq_ok.mpr ⟨h, (trim_render_object h).1.symm⟩

theorem maskHost_libraries : Libraries maskHost where
  digest _ := List.length_replicate
  decrypts _ _ plain cipher h := by
    rw [← Except.ok.inj h]
    simp [maskHost, Function.comp_def]
  blanks text value h := by
    obtain ⟨hobject, htext⟩ := readObject_eq_ok.mp h
    exact readObject_eq_ok.mpr ⟨hobject, htext.trans (trim_trim text).symm⟩
  opens text value h hobject := by
    rw [← (readObject_eq_ok.mp h).2]
    exact (trim_render_object hobject).2
  rereads text value h _ := maskHost_reads (readObject_eq_ok.mp h).1
  texts fields := maskHost_reads Json.isObject_ofFields

/-- What both rows hold. -/
def cursor : Json := .ofFields [("cursor", .str "a")]

noncomputable def cursorText : String := cursor.render V8Kernel.plainHost.printFloat

/-- A plain row, and one under the keystream. -/
noncomputable def twoRows : HotTable where
  rows := [⟨"plain", cursorText, "0"⟩,
    ⟨"legacy", "enc-v1:" ++ "0" ++ ":" ++ hexEncode (legacyXorStream maskHost [] 0 (utf8 cursorText)), "0"⟩]
  distinct := by decide

def zeroDraw : Draw := ⟨List.replicate 12 0, List.length_replicate, "1"⟩

theorem cursor_holds : Holds maskHost cursorText cursor where
  reads := maskHost_reads rfl
  object := rfl
  free := by decide

theorem twoRows_stored : ∀ row ∈ twoRows.rows, Stored maskHost [] row.stateValueJson cursor := by
  have hall : ("enc-v1:".toList.all fun c => !isWhitespace c) = true := by decide
  intro row hrow
  rcases List.mem_cons.mp hrow with rfl | hrow
  · exact .plain cursor_holds
  · obtain rfl := List.mem_singleton.mp hrow
    refine .legacy cursorText "0" (hexEncode (legacyXorStream maskHost [] 0 (utf8 cursorText))) cursor_holds
      (by decide) (trim_tagged (fun c hc => ?_) (fun c hc => ?_) _) (SecretBroker.hexDecode_hexEncode _)
    · simpa using List.all_eq_true.mp hall c hc
    · obtain rfl := List.mem_singleton.mp hc
      rfl

/-- What is written to one of them. -/
def nextCursor : Json := .ofFields [("cursor", .str "b")]

theorem twoRows_preserved : ∃ opened n written,
    migrateLegacyHotStateCipher maskHost [] (fun _ => zeroDraw) "1" twoRows = .ok (opened, n) ∧
      getHotStateJson maskHost [] opened "plain" = .ok (some cursor) ∧
      setHotStateJson maskHost [] zeroDraw "2" opened "plain" nextCursor = .ok written ∧
      getHotStateJson maskHost [] written "plain" = .ok (some nextCursor) ∧
      getHotStateJson maskHost [] written "legacy" = .ok (some cursor) ∧
      migrateLegacyHotStateCipher maskHost [] (fun _ => zeroDraw) "3" written = .ok (written, 0) := by
  have hstored : ∀ row ∈ twoRows.rows, ∃ value, Stored maskHost [] row.stateValueJson value :=
    fun row hrow => ⟨cursor, twoRows_stored row hrow⟩
  obtain ⟨opened, n, hopened⟩ := migrate_of_stored maskHost_libraries
    (fun _ _ => ⟨_, rfl⟩) (fun _ => zeroDraw) "1" hstored
  obtain ⟨hget, hwritten⟩ := migration_preserves maskHost_libraries hstored hopened
  have hplain := hget _ List.mem_cons_self cursor (twoRows_stored _ List.mem_cons_self)
  have hlegacy := hget _ (List.mem_cons_of_mem _ List.mem_cons_self) cursor
    (twoRows_stored _ (List.mem_cons_of_mem _ List.mem_cons_self))
  obtain ⟨hsucceeds, hreads, -⟩ := hwritten opened .refl
  obtain ⟨written, hset⟩ := hsucceeds zeroDraw "2" "plain" nextCursor _ rfl
  obtain ⟨hnext, hother⟩ := hreads _ _ _ _ _ hset
  exact ⟨opened, n, written, hopened, hplain, hset, hnext _ (maskHost_reads rfl) (by decide),
    (hother "legacy" (by decide)).trans hlegacy, (hwritten written (.single ⟨_, _, _, _, hset⟩)).2.2 _ _⟩

end Protheus.MemoryRuntime
