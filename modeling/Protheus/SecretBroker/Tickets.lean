import Protheus.JsonSize
import Protheus.SecretBroker.Handles

/-!
The broker reads its own tickets back.

A handle has two parts, whatever its ticket says; its body decodes to the fields of the
ticket, and its signature is the broker's.  The id is read as it was written, and so is every
text that does not end in a blank.  However long the texts of a call are, the handle is not
cut: with every field at its limit it stays below the 8192 characters that are read of it.
-/

namespace Protheus.SecretBroker

/-- What is taken of the libraries: a digest is written in hex digits, and the JSON of a
ticket is read back as it was written. -/
structure Libraries (host : Host) : Prop where
  hex : ∀ s, ∀ c ∈ (host.sha256HexStr s).toList, V8Kernel.isHexDigit c = true
  readsBack : ∀ ticket : Ticket, host.parseJson (ticket.bytes host) = some (.ofFields ticket.fields)

/-! ## Handles are read back -/

theorem hexDecode_hexEncode (bytes : List UInt8) :
    hexDecode (hexEncode bytes).toList = some bytes := by
  have hvalue : ∀ n < 16, hexValue (Nat.digitChar n) = some n := by decide
  rw [hexEncode, String.toList_ofList]
  induction bytes with
  | nil => rfl
  | cons b bytes ih =>
    have hb := b.toNat_lt
    rw [List.flatMap_cons, List.cons_append, List.cons_append, List.nil_append, hexDecode,
      hvalue _ (by omega), hvalue _ (by omega), ih]
    simp only [Option.pure_def, Option.bind_eq_bind, Option.bind_some]
    congr 2
    apply UInt8.toNat_inj.mp
    rw [UInt8.toNat_ofNat']
    omega

theorem dot_notMem_hexEncode (bytes : List UInt8) : '.' ∉ (hexEncode bytes).toList := by
  have hdigit : ∀ n < 16, Nat.digitChar n ≠ '.' := by decide
  rw [hexEncode, String.toList_ofList, List.mem_flatMap]
  rintro ⟨b, -, hmem⟩
  have hb := b.toNat_lt
  rcases List.mem_cons.mp hmem with h | h
  · exact hdigit _ (by omega) h.symm
  · exact hdigit _ (by omega) (List.mem_singleton.mp h).symm

/-- The base64 of one row of bytes and the hex of another are two parts. -/
theorem splitChar_signed (bytes mac : List UInt8) :
    RustStd.splitChar '.' (String.ofList (Base64Url.encode bytes) ++ "." ++ hexEncode mac) =
      [String.ofList (Base64Url.encode bytes), hexEncode mac] := by
  have hbody : '.' ∉ (String.ofList (Base64Url.encode bytes)).toList := by
    rw [String.toList_ofList]
    intro hmem
    have hindex := Base64Url.index_isSome_of_mem_encode hmem
    rw [show Base64Url.index '.' = none by decide] at hindex
    cases hindex
  exact RustStd.splitChar_append hbody (dot_notMem_hexEncode mac)

theorem handleParts_handle (host : Host) (key : String) (ticket : Ticket) :
    handleParts (ticket.handle host key) =
      some (ticket.body host, signHandle host (ticket.body host) key) := by
  rw [handleParts, Ticket.handle, signHandle, Ticket.body, splitChar_signed]

/-- The fields of a ticket as an object. -/
def Ticket.map (ticket : Ticket) : List (String × Json) := Json.insertFields ticket.fields []

theorem ofFields_fields (ticket : Ticket) : Json.ofFields ticket.fields = .obj ticket.map := rfl

theorem Ticket.lookup_map (ticket : Ticket) {f : String × Json} (h : f ∈ ticket.fields) :
    ticket.map.lookup f.1 = some f.2 := by
  apply Json.lookup_insertFields _ h
  have hkeys : ticket.fields.map Prod.fst = ["v", "handle_id", "secret_id", "scope", "caller",
      "reason", "issued_at_ms", "issued_at", "expires_at_ms", "expires_at", "nonce"] := rfl
  rw [hkeys]
  decide

section Libraries

variable {host : Host} (libraries : Libraries host) {key : String}
include libraries

/-- A handle whose body is a ticket's says what the ticket says. -/
theorem openHandle_body {ticket : Ticket} {handle sig : String} {fields : List (String × Json)}
    (hparts : handleParts handle = some (ticket.body host, sig))
    (hopen : openHandle host key handle = .ok fields) : fields = ticket.map := by
  have hread : ((Base64Url.decode (ticket.body host).toList).bind host.parseJson).bind
      Json.asObject = some ticket.map := by
    rw [Ticket.body, String.toList_ofList, Base64Url.decode_encode, Option.bind_some,
      libraries.readsBack, Option.bind_some, ofFields_fields, Json.asObject]
  rw [openHandle, hparts] at hopen
  dsimp only at hopen
  rw [hread] at hopen
  split at hopen
  · cases hopen
  · exact (Except.ok.inj hopen).symm

theorem openHandle_handle (ticket : Ticket) :
    openHandle host key (ticket.handle host key) = .ok ticket.map := by
  have hread : ((Base64Url.decode (ticket.body host).toList).bind host.parseJson).bind
      Json.asObject = some ticket.map := by
    rw [Ticket.body, String.toList_ofList, Base64Url.decode_encode, Option.bind_some,
      libraries.readsBack, Option.bind_some, ofFields_fields, Json.asObject]
  have hsig : verifyHandleSig host (ticket.body host) (signHandle host (ticket.body host) key) key =
      true := by
    rw [verifyHandleSig, signHandle, hexDecode_hexEncode, beq_self_eq_true]
  rw [openHandle, handleParts_handle]
  dsimp only
  rw [hsig, hread]
  rfl

end Libraries

/-! ## Tickets are read as they were written -/

/-- The texts of an issue call that its ticket carries do not end in a blank. -/
def Call.Trimmed (call : Call) : Prop :=
  ∀ s ∈ [text (call.payload.lookup "secret_id") 160, text (call.payload.lookup "scope") 180,
    callerOf call.payload], RustStd.trim s = s

theorem length_callerOf_le (payload : List (String × Json)) : (callerOf payload).length ≤ 180 := by
  unfold callerOf
  dsimp only
  split
  · decide
  · exact length_text_le _ _

section Ticket

variable {host : Host} (call : Call)

theorem ticketOf_secretId :
    (ticketOf host call).secretId = text (call.payload.lookup "secret_id") 160 := rfl

theorem ticketOf_scope : (ticketOf host call).scope = text (call.payload.lookup "scope") 180 := rfl

theorem ticketOf_caller : (ticketOf host call).caller = callerOf call.payload := by
  rw [ticketOf]

theorem ticketOf_expiresMs : (ticketOf host call).expiresMs = expiryOf call := rfl

theorem ticketOf_reason : (ticketOf host call).reason =
    if text (call.payload.lookup "reason") 240 = "" then none
    else some (text (call.payload.lookup "reason") 240) := by
  rw [ticketOf]

theorem ticketOf_stamps : (ticketOf host call).issuedAt =
      isoFromMs host (nowMs call.payload call.clock) call.clock ∧
    (ticketOf host call).expiresAt = isoFromMs host (expiryOf call) call.clock := by
  rw [ticketOf]
  exact ⟨rfl, rfl⟩

theorem ticketOf_nonce : ∃ value, (ticketOf host call).nonce = hash16 host value := by
  rw [ticketOf]
  exact ⟨_, rfl⟩

theorem ticketOf_handleId : ∃ value, (ticketOf host call).handleId = "sh_" ++ hash16 host value :=
  ⟨_, rfl⟩

/-- What is read from a ticket's fields is the ticket, with every text read once more. -/
theorem presentedOf_map (ticket : Ticket) :
    presentedOf ticket.map =
      { handleId := text (some (.str ticket.handleId)) 160
        secretId := text (some (.str ticket.secretId)) 160
        scope := text (some (.str ticket.scope)) 180
        caller := text (some (.str ticket.caller)) 180
        expiresAtMs := ticket.expiresMs
        expiresAt := .str ticket.expiresAt } := by
  have hlookup {f : String × Json} (hf : f ∈ ticket.fields) := ticket.lookup_map hf
  rw [presentedOf, hlookup (f := ("handle_id", .str ticket.handleId)) (by simp [Ticket.fields]),
    hlookup (f := ("secret_id", .str ticket.secretId)) (by simp [Ticket.fields]),
    hlookup (f := ("scope", .str ticket.scope)) (by simp [Ticket.fields]),
    hlookup (f := ("caller", .str ticket.caller)) (by simp [Ticket.fields]),
    hlookup (f := ("expires_at_ms", .ofInt ticket.expiresMs.toInt)) (by simp [Ticket.fields]),
    hlookup (f := ("expires_at", .str ticket.expiresAt)) (by simp [Ticket.fields]),
    intValue_ofInt, Option.getD_some, Option.getD_some]

/-- A word of hex digits behind a mark is trimmed and short. -/
theorem handleId_trimmed (libraries : Libraries host) :
    RustStd.trim (ticketOf host call).handleId = (ticketOf host call).handleId ∧
      (ticketOf host call).handleId.length ≤ 160 := by
  obtain ⟨value, hid⟩ := @ticketOf_handleId host call
  rw [hid]
  constructor
  · apply RustStd.trim_eq_self
    intro c hc
    rw [String.toList_append, List.mem_append] at hc
    rcases hc with hmark | hhash
    · rw [show "sh_".toList = ['s', 'h', '_'] from rfl] at hmark
      revert c
      simp [RustStd.isWhitespace]
    · rw [hash16, String.toList_ofList] at hhash
      exact V8Kernel.isHexDigit_not_whitespace (libraries.hex _ c (List.mem_of_mem_take hhash))
  · have hlength : (hash16 host value).length ≤ 16 := by
      rw [hash16, String.length_ofList]
      exact List.length_take_le _ _
    have hmark : "sh_".length = 3 := by decide
    rw [String.length_append]
    omega

/-- The id of a ticket is read as it was written. -/
theorem presentedOf_handleId (libraries : Libraries host) :
    (presentedOf (ticketOf host call).map).handleId = (ticketOf host call).handleId := by
  obtain ⟨htrim, hlength⟩ := handleId_trimmed call libraries
  rw [presentedOf_map]
  exact text_eq_self htrim hlength

/-- Texts that do not end in a blank are read as they were written. -/
theorem presentedOf_ticketOf (htrimmed : call.Trimmed) :
    (presentedOf (ticketOf host call).map).secretId = (ticketOf host call).secretId ∧
      (presentedOf (ticketOf host call).map).scope = (ticketOf host call).scope ∧
      (presentedOf (ticketOf host call).map).caller = (ticketOf host call).caller := by
  rw [presentedOf_map, ticketOf_secretId, ticketOf_scope, ticketOf_caller]
  exact ⟨text_eq_self (htrimmed _ (by simp)) (length_text_le _ _),
    text_eq_self (htrimmed _ (by simp)) (length_text_le _ _),
    text_eq_self (htrimmed _ (by simp)) (length_callerOf_le _)⟩

end Ticket

/-! ## A handle is not cut -/

theorem length_hexEncode (bytes : List UInt8) : (hexEncode bytes).length = 2 * bytes.length := by
  rw [hexEncode, String.length_ofList, List.length_flatMap]
  simp [Nat.mul_comm]

/-- What is taken of the libraries about lengths: a MAC has 32 bytes, and a time stamp is
shorter than a line. -/
structure Lengths (host : Host) : Prop where
  mac : ∀ key body, (host.hmacSha256 key body).length = 32
  stamp : ∀ ms stamp, host.isoText ms = some stamp → stamp.length ≤ 40

theorem length_isoFromMs_le {host : Host} (lengths : Lengths host) (ms clock : Int64) :
    (isoFromMs host ms clock).length ≤ 40 := by
  unfold isoFromMs
  cases hms : host.isoText ms with
  | some stamp => exact lengths.stamp ms stamp hms
  | none =>
    cases hclock : host.isoText clock with
    | some stamp => exact lengths.stamp clock stamp hclock
    | none => decide

theorem length_hash16_le (host : Host) (value : Json) : (hash16 host value).length ≤ 16 := by
  rw [hash16, String.length_ofList]
  exact List.length_take_le _ _

/-- The bytes of a field with a text. -/
theorem fieldSize_str_le (printFloat : ℚ → String) {key s : String} {bound : ℕ}
    (h : s.length ≤ bound) :
    Json.fieldSize printFloat (key, .str s) ≤ 6 * key.length + 6 * bound + 6 := by
  have hkey := Json.size_renderStr_le key
  have hvalue := Json.size_renderStr_le s
  rw [Json.fieldSize, Json.render]
  dsimp only
  omega

theorem fieldSize_ofInt_le (printFloat : ℚ → String) (key : String) (n : Int64) :
    Json.fieldSize printFloat (key, .ofInt n.toInt) ≤ 6 * key.length + 24 := by
  have hkey := Json.size_renderStr_le key
  have hvalue := Json.size_ofInt_le printFloat n
  rw [Json.fieldSize]
  dsimp only
  omega

/-- The bytes of a ticket with short texts. -/
theorem length_bytes_le {host : Host} {ticket : Ticket} (hid : ticket.handleId.length ≤ 19)
    (hsecretId : ticket.secretId.length ≤ 160) (hscope : ticket.scope.length ≤ 180)
    (hcaller : ticket.caller.length ≤ 180) (hreason : ∀ s ∈ ticket.reason, s.length ≤ 240)
    (hissuedAt : ticket.issuedAt.length ≤ 40) (hexpiresAt : ticket.expiresAt.length ≤ 40)
    (hnonce : ticket.nonce.length ≤ 16) : (ticket.bytes host).length ≤ 5882 := by
  have hsize : (ticket.bytes host).length = (host.toText (.ofFields ticket.fields)).utf8ByteSize :=
    rfl
  have htotal := Json.size_ofFields_le host.printFloat ticket.fields
  have hreasonField : Json.fieldSize host.printFloat
      ("reason", (ticket.reason.map Json.str).getD .null) ≤ 6 * "reason".length + 6 * 240 + 6 := by
    cases hr : ticket.reason with
    | none =>
      have hkey := Json.size_renderStr_le "reason"
      have hnull : "null".utf8ByteSize = 4 := by decide
      rw [Json.fieldSize, Option.map_none, Option.getD_none, Json.render, hnull]
      dsimp only
      omega
    | some s =>
      rw [Option.map_some, Option.getD_some]
      exact fieldSize_str_le host.printFloat (hreason s hr)
  have hversion : Json.fieldSize host.printFloat ("v", .str "1.1") ≤ 6 * "v".length + 6 * 3 + 6 :=
    fieldSize_str_le host.printFloat (show "1.1".length ≤ 3 by decide)
  have h1 := @fieldSize_str_le host.printFloat "handle_id" _ _ hid
  have h2 := @fieldSize_str_le host.printFloat "secret_id" _ _ hsecretId
  have h3 := @fieldSize_str_le host.printFloat "scope" _ _ hscope
  have h4 := @fieldSize_str_le host.printFloat "caller" _ _ hcaller
  have h5 := fieldSize_ofInt_le host.printFloat "issued_at_ms" ticket.issuedMs
  have h6 := @fieldSize_str_le host.printFloat "issued_at" _ _ hissuedAt
  have h7 := fieldSize_ofInt_le host.printFloat "expires_at_ms" ticket.expiresMs
  have h8 := @fieldSize_str_le host.printFloat "expires_at" _ _ hexpiresAt
  have h9 := @fieldSize_str_le host.printFloat "nonce" _ _ hnonce
  have hkeys : "v".length = 1 ∧ "handle_id".length = 9 ∧ "secret_id".length = 9 ∧
      "scope".length = 5 ∧ "caller".length = 6 ∧ "reason".length = 6 ∧
      "issued_at_ms".length = 12 ∧ "issued_at".length = 9 ∧ "expires_at_ms".length = 13 ∧
      "expires_at".length = 10 ∧ "nonce".length = 5 := by
    decide
  simp only [Ticket.fields, List.map_cons, List.map_nil, List.sum_cons, List.sum_nil] at htotal
  rw [hsize]
  change ((Json.ofFields ticket.fields).render host.printFloat).utf8ByteSize ≤ 5882
  rw [Ticket.fields]
  omega

/-- The texts of a call's ticket are short. -/
theorem length_ticketOf_bytes_le {host : Host} (lengths : Lengths host) (call : Call) :
    ((ticketOf host call).bytes host).length ≤ 5882 := by
  obtain ⟨value, hid⟩ := @ticketOf_handleId host call
  obtain ⟨value', hnonce⟩ := @ticketOf_nonce host call
  obtain ⟨hissuedAt, hexpiresAt⟩ := @ticketOf_stamps host call
  apply length_bytes_le
  · have hhash := length_hash16_le host value
    have hmark : "sh_".length = 3 := by decide
    rw [hid, String.length_append]
    omega
  · exact length_text_le _ _
  · exact length_text_le _ _
  · rw [ticketOf_caller]
    exact length_callerOf_le _
  · intro s hs
    rw [ticketOf_reason] at hs
    split at hs
    · cases hs
    · obtain rfl := Option.mem_some.mp hs
      exact length_text_le _ _
  · rw [hissuedAt]
    exact length_isoFromMs_le lengths _ _
  · rw [hexpiresAt]
    exact length_isoFromMs_le lengths _ _
  · rw [hnonce]
    exact length_hash16_le host value'

theorem length_signed (bytes mac : List UInt8) :
    (String.ofList (Base64Url.encode bytes) ++ "." ++ hexEncode mac).length =
      (4 * bytes.length + 2) / 3 + 1 + 2 * mac.length := by
  have hdot : ".".length = 1 := by decide
  rw [String.length_append, String.length_append, length_hexEncode, String.length_ofList,
    Base64Url.length_encode, hdot]

/-- **The handle of a call is never cut.** -/
theorem length_handle_le {host : Host} (lengths : Lengths host) (key : String) (call : Call) :
    ((ticketOf host call).handle host key).length ≤ 8192 := by
  have hbytes := length_ticketOf_bytes_le lengths call
  rw [Ticket.handle, signHandle, Ticket.body, length_signed, lengths.mac]
  omega

theorem isWhitespace_of_index {c : Char} (h : (Base64Url.index c).isSome) :
    RustStd.isWhitespace c = false := by
  have hrange : (65 ≤ c.toNat ∧ c.toNat ≤ 90) ∨ (97 ≤ c.toNat ∧ c.toNat ≤ 122) ∨
      (48 ≤ c.toNat ∧ c.toNat ≤ 57) ∨ c.toNat = 45 ∨ c.toNat = 95 := by
    unfold Base64Url.index at h
    dsimp only at h
    split_ifs at h with hupper hlower hdigit hhyphen hunderscore
    · exact .inl hupper
    · exact .inr (.inl hlower)
    · exact .inr (.inr (.inl hdigit))
    · exact .inr (.inr (.inr (.inl hhyphen)))
    · exact .inr (.inr (.inr (.inr hunderscore)))
    · cases h
  unfold RustStd.isWhitespace
  simp only [Bool.or_eq_false_iff, Bool.and_eq_false_iff, decide_eq_false_iff_not,
    beq_eq_false_iff_ne]
  omega

/-- There is no blank in hex digits. -/
theorem hexEncode_not_whitespace {bytes : List UInt8} {c : Char} (h : c ∈ (hexEncode bytes).toList) :
    RustStd.isWhitespace c = false := by
  have hdigit : ∀ n < 16, RustStd.isWhitespace (Nat.digitChar n) = false := by decide
  rw [hexEncode, String.toList_ofList, List.mem_flatMap] at h
  obtain ⟨b, -, hmem⟩ := h
  have hb := b.toNat_lt
  rcases List.mem_cons.mp hmem with rfl | hlow
  · exact hdigit _ (by omega)
  · obtain rfl := List.mem_singleton.mp hlow
    exact hdigit _ (by omega)

/-- There is no blank in what is signed this way. -/
theorem trim_signed (bytes mac : List UInt8) :
    RustStd.trim (String.ofList (Base64Url.encode bytes) ++ "." ++ hexEncode mac) =
      String.ofList (Base64Url.encode bytes) ++ "." ++ hexEncode mac := by
  apply RustStd.trim_eq_self
  intro c hc
  rw [String.toList_append, String.toList_append, List.mem_append, List.mem_append] at hc
  rcases hc with (hbody | hdot) | hsig
  · rw [String.toList_ofList] at hbody
    exact isWhitespace_of_index (Base64Url.index_isSome_of_mem_encode hbody)
  · obtain rfl : c = '.' := List.mem_singleton.mp hdot
    rfl
  · exact hexEncode_not_whitespace hsig

/-- A call that hands a call's handle back presents it whole. -/
theorem presented_handle {host : Host} (lengths : Lengths host) {key : String} {call call' : Call}
    (h : call.payload.lookup "handle" = some (.str ((ticketOf host call').handle host key))) :
    presented call = (ticketOf host call').handle host key := by
  rw [presented, h]
  exact text_eq_self (trim_signed _ _) (length_handle_le lengths key call')

end Protheus.SecretBroker
