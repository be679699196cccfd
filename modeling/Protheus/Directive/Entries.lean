import Protheus.Directive.Vault

/-!
The entries `append_directive_entry` writes, and what a command adds to a vault.

A written entry verifies under the key it was signed with and carries its own hash
(`Written`); whether the integrity check looks at it at all depends on its texts
(`structured_iff`).  `Extends` says what every command does to the vault: it adds
written entries to the two buckets, each naming the one before it.
-/

namespace Protheus.Directive

open V8Kernel

/-! ## Signatures -/

theorem trim_tagged (tag : String) {s : String} (htag : ∀ c ∈ tag.toList, RustStd.isWhitespace c = false)
    (hs : IsHex s) : RustStd.trim (tag ++ s) = tag ++ s := by
  refine RustStd.trim_eq_self fun c hc => ?_
  rw [String.toList_append, List.mem_append] at hc
  cases hc with
  | inl hc => exact htag c hc
  | inr hc => exact isHexDigit_not_whitespace (hs.2 c hc)

section Signature

variable {host : Host} {key raw : String} {entry : Json}

theorem verifyEntrySignature_of_unsigned (h : signatureOf entry = "unsigned:" ++ raw) :
    verifyEntrySignature host key entry =
      eqIgnoreAsciiCase raw (host.digest (canonicalSignaturePayload entry)) := by
  rw [verifyEntrySignature, RustStd.stripPrefix_eq_some.mpr h]

theorem keyed_ne_unsigned (a b : String) : "sig:" ++ a ≠ "unsigned:" ++ b := by
  intro h
  have := congrArg (fun s : String => s.toList.head?) h
  simp at this

theorem verifyEntrySignature_of_keyed (h : signatureOf entry = "sig:" ++ raw) :
    verifyEntrySignature host key entry = (signingKeyPresent key &&
      eqIgnoreAsciiCase raw (keyedDigestHex host key (canonicalSignaturePayload entry))) := by
  have hnot : RustStd.stripPrefix (signatureOf entry) "unsigned:" = none := by
    cases hraw : RustStd.stripPrefix (signatureOf entry) "unsigned:" with
    | none => rfl
    | some b => exact absurd (h.symm.trans (RustStd.stripPrefix_eq_some.mp hraw)) (keyed_ne_unsigned _ _)
  rw [verifyEntrySignature, hnot, RustStd.stripPrefix_eq_some.mpr h]

theorem verifyEntrySignature_cases (h : verifyEntrySignature host key entry = true) :
    ∃ raw, signatureOf entry = "unsigned:" ++ raw ∨ signatureOf entry = "sig:" ++ raw := by
  unfold verifyEntrySignature at h
  cases hraw : RustStd.stripPrefix (signatureOf entry) "unsigned:" with
  | some raw => exact ⟨raw, .inl (RustStd.stripPrefix_eq_some.mp hraw)⟩
  | none =>
    cases hraw' : RustStd.stripPrefix (signatureOf entry) "sig:" with
    | some raw => exact ⟨raw, .inr (RustStd.stripPrefix_eq_some.mp hraw')⟩
    | none => simp [hraw, hraw'] at h

section Signed

variable (ideal : IdealHost host)
include ideal

theorem trim_signatureForEntry (entry : Json) :
    RustStd.trim (signatureForEntry host key entry) = signatureForEntry host key entry := by
  unfold signatureForEntry
  generalize canonicalSignaturePayload entry = payload
  split
  · exact trim_tagged "sig:" (by simp [RustStd.isWhitespace]) (ideal.keyedDigestHex_hex _ _)
  · exact trim_tagged "unsigned:" (by simp [RustStd.isWhitespace]) (ideal.digest_hex _)

theorem trim_signatureForEntry_ne (entry : Json) :
    RustStd.trim (signatureForEntry host key entry) ≠ "" := by
  rw [trim_signatureForEntry ideal, signatureForEntry]
  split
  · simp
  · simp

theorem verifyEntrySignature_of_text
    (h : text? entry "signature" = some (signatureForEntry host key entry)) :
    verifyEntrySignature host key entry = true := by
  have hsignature : signatureOf entry = signatureForEntry host key entry := by
    rw [signatureOf, h, Option.getD_some, trim_signatureForEntry ideal]
  rw [signatureForEntry] at hsignature
  split at hsignature
  · rename_i hkey
    rw [verifyEntrySignature_of_keyed hsignature, hkey]
    simp [eqIgnoreAsciiCase]
  · rw [verifyEntrySignature_of_unsigned hsignature]
    simp [eqIgnoreAsciiCase]

end Signed

end Signature

theorem isStructuredDirectiveEntry_iff {entry : Json} : isStructuredDirectiveEntry entry = true ↔
    entry.isObject = true ∧
      ∀ name ∈ requiredNames, RustStd.trim ((text? entry name).getD "") ≠ "" := by
  have hfilled (name : String) : ((text? entry name).map fun v => RustStd.trim v != "").getD false =
      (RustStd.trim ((text? entry name).getD "") != "") := by
    cases text? entry name with
    | none => rfl
    | some v => rfl
  simp only [isStructuredDirectiveEntry, hfilled, Bool.and_eq_true, List.all_eq_true, bne_iff_ne]

/-! ## One entry -/

section Entry

variable {host : Host} {key head : String} {append : Append} {idMs tsMs : ℕ}

theorem entryFields_names : (entryFields host head append idMs tsMs).map Prod.fst =
    ["id", "directive", "rule_kind", "rule_pattern", "signer", "source", "parent_id", "supersedes",
      "accepted", "ts", "prev_hash"] := rfl

theorem entryFields_nodup : ((entryFields host head append idMs tsMs).map Prod.fst).Nodup := by
  rw [entryFields_names]
  decide

theorem isObject_signedEntry : (signedEntry host key head append idMs tsMs).isObject = true := by
  simp [signedEntry]

theorem isObject_newEntry : (newEntry host key head append idMs tsMs).isObject = true := by
  simp [newEntry, isObject_signedEntry]

theorem get?_signedEntry {name : String} (h : name ≠ "signature") :
    (signedEntry host key head append idMs tsMs).get? name =
      (Json.ofFields (entryFields host head append idMs tsMs)).get? name := by
  rw [signedEntry, Json.get?_setField_ne h]

theorem get?_newEntry {name : String} (h : name ≠ "signature") (h' : name ≠ "entry_hash") :
    (newEntry host key head append idMs tsMs).get? name =
      (Json.ofFields (entryFields host head append idMs tsMs)).get? name := by
  rw [newEntry, Json.get?_setField_ne h', get?_signedEntry h]

theorem field_newEntry {f : String × Json} (hf : f ∈ entryFields host head append idMs tsMs) :
    (newEntry host key head append idMs tsMs).get? f.1 = some f.2 := by
  have hname : f.1 ∈ (entryFields host head append idMs tsMs).map Prod.fst := List.mem_map_of_mem hf
  rw [entryFields_names] at hname
  rw [get?_newEntry (ne_of_mem_of_not_mem hname (by decide))
    (ne_of_mem_of_not_mem hname (by decide))]
  exact Json.get?_ofFields entryFields_nodup hf

theorem text?_newEntry {name text : String}
    (h : (name, Json.str text) ∈ entryFields host head append idMs tsMs) :
    text? (newEntry host key head append idMs tsMs) name = some text := by
  rw [text?, field_newEntry h]
  rfl

theorem prevHash_newEntry : prevHash (newEntry host key head append idMs tsMs) = head := by
  have h : text? (newEntry host key head append idMs tsMs) "prev_hash" = some head :=
    text?_newEntry (by simp [entryFields])
  rw [prevHash, h, Option.getD_some]

/-- The signature of a new entry is that of the entry as it stands. -/
theorem canonicalSignaturePayload_newEntry :
    canonicalSignaturePayload (newEntry host key head append idMs tsMs) =
      canonicalSignaturePayload (Json.ofFields (entryFields host head append idMs tsMs)) := by
  unfold canonicalSignaturePayload
  refine congrArg Json.ofFields (List.map_congr_left fun name hname => ?_)
  rw [field, field, get?_newEntry (ne_of_mem_of_not_mem hname (by decide))
    (ne_of_mem_of_not_mem hname (by decide))]

theorem text?_signature_newEntry : text? (newEntry host key head append idMs tsMs) "signature" =
    some (signatureForEntry host key (newEntry host key head append idMs tsMs)) := by
  rw [text?, newEntry, Json.get?_setField_ne (by decide), signedEntry,
    Json.get?_setField_same Json.isObject_ofFields, ← signedEntry, ← newEntry, signatureForEntry,
    signatureForEntry, canonicalSignaturePayload_newEntry]
  rfl

theorem text?_entryHash_newEntry : text? (newEntry host key head append idMs tsMs) "entry_hash" =
    some (host.digest (signedEntry host key head append idMs tsMs)) := by
  rw [text?, newEntry, Json.get?_setField_same isObject_signedEntry]
  rfl

theorem canonicalEntryForHash_newEntry :
    canonicalEntryForHash (newEntry host key head append idMs tsMs) =
      signedEntry host key head append idMs tsMs := by
  have hnot : "entry_hash" ∉ (Json.insertField "signature"
      (.str (signatureForEntry host key (Json.ofFields (entryFields host head append idMs tsMs))))
      (Json.insertFields (entryFields host head append idMs tsMs) [])).map Prod.fst := by
    intro h
    obtain ⟨f, hf, hname⟩ := List.mem_map.mp h
    obtain hf | hf := Json.mem_insertField hf
    · rw [hf] at hname
      exact absurd hname (by simp)
    · obtain hf | hf := Json.mem_insertFields hf
      · have := List.mem_map_of_mem (f := Prod.fst) hf
        rw [entryFields_names, hname] at this
        exact absurd this (by decide)
      · cases hf
  exact congrArg Json.obj (Json.filter_insertField hnot)

theorem setField_accepted_newEntry :
    (newEntry host key head append idMs tsMs).setField "accepted" (.bool true) =
      newEntry host key head append idMs tsMs := by
  have hfields : Json.insertField "accepted" (.bool true)
      (Json.insertFields (entryFields host head append idMs tsMs) []) =
        Json.insertFields (entryFields host head append idMs tsMs) [] :=
    Json.insertField_insertFields entryFields_nodup (by simp [entryFields])
  change Json.obj (Json.insertField "accepted" (.bool true) (Json.insertField "entry_hash" _
    (Json.insertField "signature" _ (Json.insertFields _ [])))) = _
  rw [Json.insertField_comm (k := "entry_hash") (by decide),
    Json.insertField_comm (k := "signature") (by decide), hfields]
  rfl

theorem isEntryActive_newEntry : isEntryActive (newEntry host key head append idMs tsMs) = true := by
  rw [isEntryActive, field_newEntry (f := ("accepted", .bool true)) (by simp [entryFields])]
  rfl

theorem normalizeRule_kind (raw : String) :
    (normalizeRule raw).1 = "deny" ∨ (normalizeRule raw).1 = "allow" := by
  unfold normalizeRule
  generalize RustStd.toAsciiLowercase (clean raw 512) = cleaned
  cases hdeny : RustStd.stripPrefix cleaned "deny:" with
  | some v => simp [hdeny]
  | none =>
    cases hallow : RustStd.stripPrefix cleaned "allow:" with
    | some v => simp [hdeny, hallow]
    | none => cases h : RustStd.strContains cleaned "deny" <;> simp [hdeny, hallow, h]

theorem rule_newEntry : ruleKind (newEntry host key head append idMs tsMs) =
      RustStd.toAsciiLowercase (normalizeRule append.directiveText).1 ∧
    rulePattern (newEntry host key head append idMs tsMs) =
      RustStd.toAsciiLowercase (normalizeRule append.directiveText).2 := by
  have hkind : text? (newEntry host key head append idMs tsMs) "rule_kind" =
      some (normalizeRule append.directiveText).1 := text?_newEntry (by simp [entryFields])
  have hpattern : text? (newEntry host key head append idMs tsMs) "rule_pattern" =
      some (normalizeRule append.directiveText).2 := text?_newEntry (by simp [entryFields])
  rw [ruleKind, rulePattern, hkind, hpattern]
  exact ⟨rfl, rfl⟩

theorem ruleKind_newEntry : ruleKind (newEntry host key head append idMs tsMs) = "deny" ∨
    ruleKind (newEntry host key head append idMs tsMs) = "allow" := by
  rw [rule_newEntry.1]
  obtain h | h := normalizeRule_kind append.directiveText <;> rw [h]
  · exact .inl (by decide)
  · exact .inr (by decide)

theorem supersedesOf_newEntry (h : append.supersedes = none) :
    supersedesOf (newEntry host key head append idMs tsMs) = "" := by
  have htext : text? (newEntry host key head append idMs tsMs) "supersedes" = some "" :=
    text?_newEntry (by simp [entryFields, h])
  rw [supersedesOf, htext]
  decide

/-! ## What a written entry passes -/

variable (ideal : IdealHost host)
include ideal

theorem entryHash_newEntry : entryHash (newEntry host key head append idMs tsMs) =
    host.digest (signedEntry host key head append idMs tsMs) := by
  rw [entryHash, text?_entryHash_newEntry, Option.getD_some]
  exact (ideal.hex _).trim

theorem hashValid_newEntry : hashValid host (newEntry host key head append idMs tsMs) = true := by
  have hne : host.digest (signedEntry host key head append idMs tsMs) ≠ "" := (ideal.hex _).1
  rw [hashValid, entryHash_newEntry ideal, recomputeEntryHash, canonicalEntryForHash_newEntry]
  simp [eqIgnoreAsciiCase, hne]

theorem signatureOf_newEntry : signatureOf (newEntry host key head append idMs tsMs) =
    signatureForEntry host key (newEntry host key head append idMs tsMs) := by
  rw [signatureOf, text?_signature_newEntry, Option.getD_some, trim_signatureForEntry ideal]

theorem verifyEntrySignature_newEntry :
    verifyEntrySignature host key (newEntry host key head append idMs tsMs) = true :=
  verifyEntrySignature_of_text ideal text?_signature_newEntry

/-- A directive that leaves an entry the integrity check looks at: neither the text,
the pattern, the signer nor the source is blank. -/
def Storable (append : Append) : Prop :=
  RustStd.trim append.directiveText ≠ "" ∧
    RustStd.trim (normalizeRule append.directiveText).2 ≠ "" ∧
    RustStd.trim append.signer ≠ "" ∧ RustStd.trim append.source ≠ ""

instance : DecidablePred Storable := fun _ => inferInstanceAs (Decidable (_ ∧ _))

/-- **When an entry counts.** -/
theorem structured_newEntry_iff (hhead : RustStd.trim head ≠ "") :
    isStructuredDirectiveEntry (newEntry host key head append idMs tsMs) = true ↔
      Storable append := by
  have hid : RustStd.trim (newId host append idMs) ≠ "" := by
    intro h
    have := RustStd.trim_eq_empty_iff.mp h 'd' (by simp [newId])
    cases this
  have hkind : RustStd.trim (normalizeRule append.directiveText).1 ≠ "" := by
    obtain h | h := normalizeRule_kind append.directiveText <;> rw [h] <;> decide
  have hsignature : RustStd.trim (signatureForEntry host key
      (newEntry host key head append idMs tsMs)) ≠ "" := trim_signatureForEntry_ne ideal _
  have hhash : RustStd.trim (host.digest (signedEntry host key head append idMs tsMs)) ≠ "" := by
    rw [(ideal.digest_hex _).trim]
    exact (ideal.digest_hex _).1
  have htext (name text : String)
      (h : (name, Json.str text) ∈ entryFields host head append idMs tsMs) :
      text? (newEntry host key head append idMs tsMs) name = some text := text?_newEntry h
  unfold isStructuredDirectiveEntry
  simp only [requiredNames, List.all_cons, List.all_nil, isObject_newEntry,
    htext "id" (newId host append idMs) (by simp [entryFields]),
    htext "directive" (clean append.directiveText 512) (by simp [entryFields]),
    htext "rule_kind" (normalizeRule append.directiveText).1 (by simp [entryFields]),
    htext "rule_pattern" (normalizeRule append.directiveText).2 (by simp [entryFields]),
    htext "signer" (clean append.signer 128) (by simp [entryFields]),
    htext "source" (clean append.source 128) (by simp [entryFields]),
    htext "prev_hash" head (by simp [entryFields]),
    htext "ts" (host.nowIso tsMs) (by simp [entryFields]),
    text?_signature_newEntry, text?_entryHash_newEntry, Option.map_some, Option.getD_some,
    Bool.and_true, Bool.true_and, Bool.and_eq_true, bne_iff_ne, ne_eq,
    trim_clean_eq_empty_iff (by decide : 0 < 512), trim_clean_eq_empty_iff (by decide : 0 < 128),
    hid, hkind, hhead, hsignature, hhash, ideal.stamped tsMs, not_false_eq_true, true_and,
    and_true, Storable]

end Entry

/-! ## What a command adds -/

/-- All entries of a vault. -/
def rawRows (vault : Json) : List Json := primeRows vault ++ derivedRows vault

/-- An entry written for an append. -/
def WrittenFor (host : Host) (key : String) (append : Append) (entry : Json) : Prop :=
  ∃ head idMs tsMs, entry = newEntry host key head append idMs tsMs

/-- The hash of an entry as the head records it. -/
def storedHash (entry : Json) : String := (text? entry "entry_hash").getD ""

/-- A vault with the entries of another and, chained to its head, one for each append. -/
structure Extends (host : Host) (key : String) (vault vault' : Json) (appends : List Append)
    (added : List Json) : Prop where
  rows : (rawRows vault').Perm (rawRows vault ++ added)
  linked : Chain.Linked storedHash prevHash (chainHead vault) added
  head : chainHead vault' = Chain.tip storedHash (chainHead vault) added
  written : List.Forall₂ (WrittenFor host key) appends added

section Extends

variable {host : Host} {key : String} {vault vault₁ vault₂ : Json}

theorem Extends.of_eq (hrows : (rawRows vault₁).Perm (rawRows vault))
    (hhead : chainHead vault₁ = chainHead vault) : Extends host key vault vault₁ [] [] :=
  ⟨by simpa using hrows, trivial, hhead, .nil⟩

theorem Extends.trans {appends appends' : List Append} {added added' : List Json}
    (h : Extends host key vault vault₁ appends added)
    (h' : Extends host key vault₁ vault₂ appends' added') :
    Extends host key vault vault₂ (appends ++ appends') (added ++ added') where
  rows := by
    rw [← List.append_assoc]
    exact h'.rows.trans (h.rows.append_right _)
  linked := Chain.Linked.append_iff.mpr ⟨h.linked, h.head ▸ h'.linked⟩
  head := by rw [h'.head, h.head, Chain.tip_append]
  written := List.rel_append h.written h'.written

/-- Every entry added is written for one of the appends. -/
theorem Extends.append_of_mem {appends : List Append} {added : List Json}
    (h : Extends host key vault vault₁ appends added) {entry : Json} (hentry : entry ∈ added) :
    ∃ append ∈ appends, WrittenFor host key append entry := by
  obtain ⟨i, hi, rfl⟩ := List.mem_iff_getElem.mp hentry
  obtain ⟨hlength, hget⟩ := List.forall₂_iff_get.mp h.written
  exact ⟨appends.get ⟨i, hlength ▸ hi⟩, List.get_mem _ _, hget i (hlength ▸ hi) hi⟩

theorem Extends.entry_of_mem {appends : List Append} {added : List Json}
    (h : Extends host key vault vault₁ appends added) {append : Append} (happend : append ∈ appends) :
    ∃ entry ∈ added, WrittenFor host key append entry := by
  obtain ⟨i, hi, rfl⟩ := List.mem_iff_getElem.mp happend
  obtain ⟨hlength, hget⟩ := List.forall₂_iff_get.mp h.written
  exact ⟨added.get ⟨i, hlength ▸ hi⟩, List.get_mem _ _, hget i hi (hlength ▸ hi)⟩

/-! ### Fields of the vault -/

theorem rowsOf_setField_same {name : String} {rows : List Json} (h : vault.isObject = true) :
    rowsOf (vault.setField name (.arr rows)) name = rows := by
  rw [rowsOf, Json.get?_setField_same h]
  rfl

theorem rowsOf_setField_ne {name name' : String} {value : Json} (h : name' ≠ name) :
    rowsOf (vault.setField name value) name' = rowsOf vault name' := by
  rw [rowsOf, Json.get?_setField_ne h, rowsOf]

theorem chainHead_setField_ne {name : String} {value : Json} (h : "chain_head" ≠ name) :
    chainHead (vault.setField name value) = chainHead vault := by
  rw [chainHead, text?, Json.get?_setField_ne h, chainHead, text?]

theorem isObject_vaultObjMut (host : Host) (createdMs : ℕ) (vault : Json) :
    (vaultObjMut host createdMs vault).isObject = true := by
  unfold vaultObjMut
  split
  · assumption
  · rfl

theorem rowsOf_defaultVault {createdMs : ℕ} {name : String} (h : name = "prime" ∨ name = "derived") :
    rowsOf (defaultVault host createdMs) name = [] := by
  have hget : (defaultVault host createdMs).get? name = some (.arr []) :=
    Json.get?_ofFields (f := (name, .arr [])) (by simp) (by obtain rfl | rfl := h <;> simp)
  rw [rowsOf, hget]
  rfl

@[simp] theorem rawRows_defaultVault {createdMs : ℕ} : rawRows (defaultVault host createdMs) = [] := by
  rw [rawRows, primeRows, derivedRows, rowsOf_defaultVault (.inl rfl), rowsOf_defaultVault (.inr rfl)]
  rfl

@[simp] theorem chainHead_defaultVault {createdMs : ℕ} :
    chainHead (defaultVault host createdMs) = "genesis" := by
  have hget : (defaultVault host createdMs).get? "chain_head" = some (.str "genesis") :=
    Json.get?_ofFields (f := ("chain_head", _)) (by simp) (by simp)
  rw [chainHead, text?, hget]
  rfl

/-- A value that is no object has no entries, like the default vault. -/
theorem vaultObjMut_rows (host : Host) (createdMs : ℕ) (vault : Json) :
    rawRows (vaultObjMut host createdMs vault) = rawRows vault ∧
      chainHead (vaultObjMut host createdMs vault) = chainHead vault := by
  unfold vaultObjMut
  split
  · exact ⟨rfl, rfl⟩
  · rename_i hobject
    rw [rawRows_defaultVault, chainHead_defaultVault]
    cases vault with
    | obj fields => exact absurd rfl hobject
    | _ => exact ⟨rfl, rfl⟩

theorem rawRows_pushRow {name : String} {row : Json} (hobject : vault.isObject = true)
    (hname : name = "prime" ∨ name = "derived") :
    (rawRows (pushRow vault name row)).Perm (rawRows vault ++ [row]) := by
  unfold rawRows primeRows derivedRows pushRow
  cases hname with
  | inl hname =>
    subst hname
    rw [rowsOf_setField_same hobject, rowsOf_setField_ne (by decide), List.append_assoc,
      List.append_assoc]
    exact (List.perm_append_comm).append_left _
  | inr hname =>
    subst hname
    rw [rowsOf_setField_same hobject, rowsOf_setField_ne (by decide), List.append_assoc]

theorem appendsOf_derive (key : String) (vault : Json) (parent directive signer : Option String)
    (allowUnsigned : Bool) : appendsOf key vault (.derive parent directive signer allowUnsigned) = [] ∨
      ∃ append, appendsOf key vault (.derive parent directive signer allowUnsigned) = [append] ∧
        append.bucket = "derived" := by
  simp only [appendsOf]
  split
  · exact .inl rfl
  · split
    · exact .inl rfl
    · split
      · exact .inl rfl
      · exact .inr ⟨_, rfl, rfl⟩

/-- Only the two buckets are written to. -/
theorem bucket_of_mem_appendsOf {command : Command} {append : Append}
    (h : append ∈ appendsOf key vault command) :
    append.bucket = "prime" ∨ append.bucket = "derived" := by
  cases command with
  | primeSign directive signer allowUnsigned =>
    simp only [appendsOf] at h
    split at h
    · cases h
    · exact .inl (List.mem_singleton.mp h ▸ rfl)
  | derive parent directive signer allowUnsigned =>
    exact .inr (bucket_of_mem_derive h)
  | supersede target directive signer allowUnsigned =>
    simp only [appendsOf] at h
    split at h
    · cases h
    · split at h
      · cases h
      · split at h
        · cases h
        · exact .inr (List.mem_singleton.mp h ▸ rfl)
  | migrate documents apply allowUnsigned =>
    simp only [appendsOf] at h
    split at h
    · cases h
    · obtain ⟨directive, -, rfl⟩ := List.mem_map.mp h
      exact .inl rfl
  | compaction directiveText signer parentId source =>
    exact .inr (List.mem_singleton.mp h ▸ rfl)
where
  bucket_of_mem_derive {parent directive signer : Option String} {allowUnsigned : Bool}
      {append : Append} (h : append ∈ appendsOf key vault (.derive parent directive signer allowUnsigned)) :
      append.bucket = "derived" := by
    obtain h' | ⟨a, ha, hbucket⟩ := appendsOf_derive key vault parent directive signer allowUnsigned
    · rw [h'] at h
      cases h
    · rw [ha] at h
      rw [List.mem_singleton.mp h, hbucket]

/-! ### Steps -/

theorem extends_append {append : Append} {readings : Readings}
    (h : append.bucket = "prime" ∨ append.bucket = "derived") :
    ∃ entry, Extends host key vault (appendDirectiveEntry host key vault append readings).2 [append]
      [entry] := by
  obtain ⟨hrows, hhead⟩ := vaultObjMut_rows host readings.createdMs vault
  have hobject := isObject_vaultObjMut host readings.createdMs vault
  unfold appendDirectiveEntry
  generalize vaultObjMut host readings.createdMs vault = base at hrows hhead hobject
  refine ⟨newEntry host key (chainHead base) append readings.idMs readings.tsMs, ?_, ?_, ?_, ?_⟩
  · have hset (row : Json) (head : String) : rawRows ((pushRow base append.bucket row).setField
        "chain_head" (.str head)) = rawRows (pushRow base append.bucket row) := by
      rw [rawRows, primeRows, derivedRows, rowsOf_setField_ne (by decide),
        rowsOf_setField_ne (by decide)]
      rfl
    rw [hset, ← hrows]
    exact rawRows_pushRow hobject h
  · exact ⟨prevHash_newEntry.trans hhead, trivial⟩
  · have hpushed (row : Json) : (pushRow base append.bucket row).isObject = true := by
      rw [pushRow, Json.isObject_setField, hobject]
    dsimp only
    generalize newEntry host key (chainHead base) append readings.idMs readings.tsMs = entry
    rw [chainHead, text?, Json.get?_setField_same (hpushed _)]
    rfl
  · exact .cons ⟨chainHead base, readings.idMs, readings.tsMs, rfl⟩ .nil

theorem extends_appendAll {readings : ℕ → Readings} {appends : List Append}
    (h : ∀ append ∈ appends, append.bucket = "prime" ∨ append.bucket = "derived") :
    ∃ added, Extends host key vault (appendAll host key readings vault appends) appends added := by
  unfold appendAll
  generalize 0 = start
  induction appends generalizing vault start with
  | nil => exact ⟨[], .of_eq (.refl _) rfl⟩
  | cons append appends ih =>
    rw [List.zipIdx_cons, List.foldl_cons]
    obtain ⟨entry, hentry⟩ : ∃ entry, Extends host key vault
        (appendDirectiveEntry host key vault append (readings start)).2 [append] [entry] :=
      extends_append (h append List.mem_cons_self)
    obtain ⟨added, hadded⟩ := ih (fun a ha => h a (List.mem_cons_of_mem _ ha)) (start + 1)
    exact ⟨entry :: added, hentry.trans hadded⟩

/-- Accepting an entry that is accepted already changes no entry. -/
theorem acceptLastDerived_rows (host : Host) (createdMs : ℕ) {last : Json} (hobject : vault.isObject = true)
    (hlast : (derivedRows vault).getLast? = some last)
    (haccepted : last.setField "accepted" (.bool true) = last) :
    rawRows (acceptLastDerived host createdMs vault) = rawRows vault ∧
      chainHead (acceptLastDerived host createdMs vault) = chainHead vault := by
  have hrows : (derivedRows vault).dropLast ++ [last] = derivedRows vault :=
    List.dropLast_append_getLast? last hlast
  have hmut : vaultObjMut host createdMs vault = vault := if_pos hobject
  simp only [acceptLastDerived, hmut, hlast, haccepted, hrows]
  constructor
  · have hprime : primeRows (vault.setField "derived" (.arr (derivedRows vault))) = primeRows vault :=
      rowsOf_setField_ne (by decide)
    have hderived : derivedRows (vault.setField "derived" (.arr (derivedRows vault))) =
        derivedRows vault := rowsOf_setField_same hobject
    rw [rawRows, hprime, hderived, rawRows]
  · exact chainHead_setField_ne (by decide)

theorem recordMigration_rows (host : Host) (readings : Readings) (count : ℕ) (vault : Json) :
    rawRows (recordMigration host readings count vault) = rawRows vault ∧
      chainHead (recordMigration host readings count vault) = chainHead vault := by
  obtain ⟨hrows, hhead⟩ := vaultObjMut_rows host readings.createdMs vault
  constructor
  · rw [← hrows, recordMigration, pushRow, rawRows, primeRows, derivedRows,
      rowsOf_setField_ne (by decide), rowsOf_setField_ne (by decide)]
    rfl
  · rw [← hhead, recordMigration, pushRow, chainHead_setField_ne (by decide)]

/-- The last derived entry after an append to the bucket is the new one. -/
theorem getLast?_derived_append {append : Append} {readings : Readings}
    (h : append.bucket = "derived") :
    (appendDirectiveEntry host key vault append readings).2.isObject = true ∧
      ∃ last, (derivedRows (appendDirectiveEntry host key vault append readings).2).getLast? =
        some last ∧ last.setField "accepted" (.bool true) = last := by
  have hobject := isObject_vaultObjMut host readings.createdMs vault
  unfold appendDirectiveEntry
  generalize vaultObjMut host readings.createdMs vault = base at hobject
  refine ⟨by simp [pushRow, hobject],
    newEntry host key (chainHead base) append readings.idMs readings.tsMs, ?_,
    setField_accepted_newEntry⟩
  rw [derivedRows, rowsOf_setField_ne (by decide), h, pushRow, rowsOf_setField_same hobject,
    List.getLast?_concat]

/-- **One command** adds an entry for each of its appends. -/
theorem extends_step (request : Request) : ∃ added, Extends host key vault
    (step host key vault request) (appendsOf key vault request.command) added := by
  obtain ⟨command, readings⟩ := request
  have happended : ∃ added, Extends host key vault
      (appendAll host key readings vault (appendsOf key vault command))
      (appendsOf key vault command) added :=
    extends_appendAll fun append h => bucket_of_mem_appendsOf h
  cases command with
  | primeSign directive signer allowUnsigned => exact happended
  | supersede target directive signer allowUnsigned => exact happended
  | compaction directiveText signer parentId source => exact happended
  | derive parent directive signer allowUnsigned =>
    obtain ⟨added, hadded⟩ := happended
    simp only [step]
    obtain hnone | ⟨append, hone, hbucket⟩ :=
      appendsOf_derive key vault parent directive signer allowUnsigned
    · rw [hnone]
      exact ⟨[], .of_eq (.refl _) rfl⟩
    · rw [hone] at hadded ⊢
      obtain ⟨hobject, last, hlast, haccepted⟩ :
          (appendAll host key readings vault [append]).isObject = true ∧
            ∃ last, (derivedRows (appendAll host key readings vault [append])).getLast? = some last ∧
              last.setField "accepted" (.bool true) = last :=
        getLast?_derived_append hbucket
      obtain ⟨hrows, hhead⟩ :=
        acceptLastDerived_rows host (readings 1).createdMs hobject hlast haccepted
      have haccept := hadded.trans (.of_eq (hrows ▸ .refl _) hhead)
      rw [List.append_nil, List.append_nil] at haccept
      exact ⟨added, haccept⟩
  | migrate documents apply allowUnsigned =>
    obtain ⟨added, hadded⟩ := happended
    simp only [step]
    split
    · rename_i hrefused
      have hnone : appendsOf key vault (.migrate documents apply allowUnsigned) = [] := if_pos hrefused
      rw [hnone]
      exact ⟨[], .of_eq (.refl _) rfl⟩
    · generalize appendsOf key vault (.migrate documents apply allowUnsigned) = appends at hadded
      obtain ⟨hrows, hhead⟩ := recordMigration_rows host (readings appends.length) appends.length
        (appendAll host key readings vault appends)
      have hrecord := hadded.trans (.of_eq (hrows ▸ .refl _) hhead)
      rw [List.append_nil, List.append_nil] at hrecord
      exact ⟨added, hrecord⟩

end Extends

end Protheus.Directive
