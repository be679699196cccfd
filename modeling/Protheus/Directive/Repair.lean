import Protheus.Directive.Decisions

/-!
`repair_vault_signatures`: the entries of a vault signed and chained anew.

The entries are taken in the order of their chain, and each is signed under the key of the
process and linked to the one before it (`relink`).  They go back to their places by their
identifiers.  Where these differ the repaired vault is intact and its rules are the ones it had;
where two entries share one, both places get the later entry, and the chain is broken
(`repair_iff`).
-/

namespace Protheus.Directive

open V8Kernel
open Std (ExtTreeMap)

/-! ## The command -/

/-- One turn of the loop over the rows, in `collect_structured_chain_entries`. -/
def indexRow (host : Host) (byHash : ExtTreeMap String Json) (row : Json) :
    Except String (ExtTreeMap String Json) :=
  if hashValid host row then .ok (byHash.insert (entryHash row) row)
  else .error "repair_entry_hash_invalid"

/-- `collect_structured_chain_entries`: the entries, oldest first. -/
def collectStructuredChainEntries (host : Host) (vault : Json) : Except String (List Json) := do
  let byHash ← (structuredRows vault).foldlM (indexRow host) ∅
  if byHash.isEmpty then return []
  if chainHead vault = "genesis" then throw "repair_missing_chain_head"
  let walked := traverse byHash (chainHead vault)
  match walked.2 with
  | .cycle => throw "repair_chain_cycle_detected"
  | .missing _ => throw "repair_chain_head_missing_entry"
  | .root =>
    if walked.1.length ≠ byHash.size then throw "repair_chain_length_mismatch"
    return walked.1.reverse

/-- An entry signed and hashed anew, after the entry with the given hash. -/
def relink (host : Host) (key prev : String) (row : Json) : Json :=
  let updated := row.setField "prev_hash" (.str prev)
  let updated := updated.setField "signature" (.str (signatureForEntry host key updated))
  updated.setField "entry_hash" (.str (recomputeEntryHash host updated))

/-- What the loop over the entries has so far. -/
structure Repairing where
  replacementById : ExtTreeMap String Json := ∅
  prevHash : String := "genesis"

/-- One turn of that loop. -/
def repairRow (host : Host) (key : String) (repairing : Repairing) (row : Json) :
    Except String Repairing :=
  let updated := relink host key repairing.prevHash row
  match text? updated "id" with
  | none => .error "repair_entry_id_missing"
  | some id =>
    .ok
      { replacementById := repairing.replacementById.insert id updated
        prevHash := storedHash updated }

def replaceRow (replacementById : ExtTreeMap String Json) (row : Json) : Json :=
  if isStructuredDirectiveEntry row then
    match text? row "id" with
    | none => row
    | some id => (replacementById[id]?).getD row
  else row

def replaceRows (replacementById : ExtTreeMap String Json) (vault : Json) (bucket : String) : Json :=
  vault.setField bucket (.arr ((rowsOf vault bucket).map (replaceRow replacementById)))

/-- What a repair reports: what it would do, or what it did. -/
inductive RepairReport where
  | eligible (mode : String) (keyPresent : Bool) (eligibleEntries : ℕ)
  | repaired (mode : String) (keyPresent : Bool) (repairedEntries : ℕ) (newChainHead : String)

def repairedVault (host : Host) (key : String) (createdMs : ℕ) (vault : Json) (ordered : List Json) :
    Except String (Repairing × Json) := do
  let repairing ← ordered.foldlM (repairRow host key) {}
  let vault := vaultObjMut host createdMs vault
  let vault := replaceRows repairing.replacementById vault "prime"
  let vault := replaceRows repairing.replacementById vault "derived"
  return (repairing, vault.setField "chain_head" (.str repairing.prevHash))

/-- `repair_vault_signatures`, with the vault that is stored after it; `writeError` is what
`write_vault` fails with, where it does. -/
def repairVaultSignatures (host : Host) (key : String) (apply allowUnsigned : Bool) (createdMs : ℕ)
    (writeError : Option String) (vault : Json) : Except String RepairReport × Json :=
  let keyPresent := signingKeyPresent key
  if !keyPresent && !allowUnsigned then (.error "missing_signing_key", vault)
  else
    let mode := if keyPresent then "keyed" else "unsigned"
    match collectStructuredChainEntries host vault with
    | .error err => (.error err, vault)
    | .ok ordered =>
      if !apply then (.ok (.eligible mode keyPresent ordered.length), vault)
      else
        match repairedVault host key createdMs vault ordered with
        | .error err => (.error err, vault)
        | .ok (repairing, repaired) =>
          match writeError with
          | some err => (.error err, vault)
          | none =>
            (.ok (.repaired mode keyPresent repairing.replacementById.size repairing.prevHash),
              repaired)

/-! ## The entries in the order of their chain -/

section Collect

variable {host : Host} {vault : Json} {rows : List Json}

/-- The rows by their hashes, where all of these are valid. -/
theorem indexRows_eq (hvalid : ∀ row ∈ rows, hashValid host row = true)
    (byHash : ExtTreeMap String Json) : rows.foldlM (indexRow host) byHash =
      .ok (rows.foldl (fun byHash row => byHash.insert (entryHash row) row) byHash) := by
  induction rows generalizing byHash with
  | nil => rfl
  | cons row rows ih =>
    rw [List.foldlM_cons, indexRow, if_pos (hvalid row List.mem_cons_self)]
    exact ih (fun r hr => hvalid r (List.mem_cons_of_mem _ hr)) _

/-- What a map of rows by a key holds. -/
structure Indexes {α : Type*} (key : α → String) (rows : List α) (index : ExtTreeMap String α) :
    Prop where
  sound : ∀ k row, index[k]? = some row → row ∈ rows ∧ key row = k
  complete : ∀ row ∈ rows, ∃ row', index[key row]? = some row'
  size : (rows.map key).Nodup → index.size = rows.length

/-- **The map by a key.** -/
theorem indexes_foldl {α : Type*} (key : α → String) (rows : List α) :
    Indexes key rows
      (rows.foldl (fun (index : ExtTreeMap String α) row => index.insert (key row) row) ∅) := by
  induction rows using List.reverseRecOn with
  | nil => exact ⟨by simp, by simp, by simp⟩
  | append_singleton rows row ih =>
    rw [List.foldl_append, List.foldl_cons, List.foldl_nil]
    generalize rows.foldl (fun (index : ExtTreeMap String α) row => index.insert (key row) row) ∅ =
      index at ih ⊢
    refine ⟨fun k row' hget => ?_, fun row' hrow' => ?_, fun hnodup => ?_⟩
    · rw [ExtTreeMap.getElem?_insert] at hget
      split at hget
      · rename_i hk
        obtain rfl := Option.some.inj hget
        exact ⟨by simp, by simpa using hk⟩
      · exact ⟨List.mem_append_left _ (ih.sound k row' hget).1, (ih.sound k row' hget).2⟩
    · rw [ExtTreeMap.getElem?_insert]
      split
      · exact ⟨row, rfl⟩
      · rename_i hk
        obtain hrow' | hrow' := List.mem_append.mp hrow'
        · exact ih.complete row' hrow'
        · rw [List.mem_singleton.mp hrow'] at hk
          simp at hk
    · rw [List.map_append, List.nodup_append] at hnodup
      have hfresh : ¬ index.contains (key row) = true := by
        intro hmem
        rw [ExtTreeMap.contains_iff_mem, ExtTreeMap.mem_iff_isSome_getElem?] at hmem
        obtain ⟨row', hrow'⟩ := Option.isSome_iff_exists.mp hmem
        obtain ⟨hold, hkey⟩ := ih.sound _ _ hrow'
        exact hnodup.2.2 _ (List.mem_map_of_mem hold) (key row) (by simp) hkey
      rw [ExtTreeMap.size_insert, if_neg hfresh, ih.size hnodup.1, List.length_append,
        List.length_singleton]

/-- A row stands in the map under its key, where keys differ. -/
theorem Indexes.get_of_mem {α : Type*} {key : α → String} {rows : List α}
    {index : ExtTreeMap String α} (h : Indexes key rows index) (hnodup : (rows.map key).Nodup)
    {row : α} (hrow : row ∈ rows) : index[key row]? = some row := by
  obtain ⟨row', hrow'⟩ := h.complete row hrow
  obtain ⟨hmem, hkey⟩ := h.sound _ _ hrow'
  rw [hrow', List.inj_on_of_nodup_map hnodup hmem hrow hkey]

/-- The structured entries carry their own hashes and make one chain from genesis to the head; a
vault without any has no chain to make. -/
structure OneChain (host : Host) (vault : Json) : Prop where
  hashed : ∀ row ∈ structuredRows vault, hashValid host row = true
  chained : structuredRows vault = [] ∨ ∃ chain : List Json, chain.Perm (structuredRows vault) ∧
    Chain.Linked entryHash prevHash "genesis" chain ∧
    Chain.tip entryHash "genesis" chain = chainHead vault

variable (ideal : IdealHost host)
include ideal

/-- A valid hash is that of the entry, but for the case of its letters. -/
theorem toAsciiLowercase_entryHash {row : Json} (h : hashValid host row = true) :
    RustStd.toAsciiLowercase (entryHash row) = recomputeEntryHash host row := by
  obtain ⟨-, hsame⟩ := Bool.and_eq_true_iff.mp h
  rw [eqIgnoreAsciiCase, beq_iff_eq] at hsame
  rw [hsame]
  exact (ideal.digest_hex _).toAsciiLowercase

theorem prevHash_of_entryHash {row row' : Json} (h : hashValid host row = true)
    (h' : hashValid host row' = true) (heq : entryHash row = entryHash row') :
    prevHash row = prevHash row' := by
  have hdigest : recomputeEntryHash host row = recomputeEntryHash host row' := by
    rw [← toAsciiLowercase_entryHash ideal h, heq, toAsciiLowercase_entryHash ideal h']
  have hcanonical := ideal.digest_injective hdigest
  have hget : row.get? "prev_hash" = row'.get? "prev_hash" := by
    rw [← get?_canonicalEntryForHash row (by decide), hcanonical,
      get?_canonicalEntryForHash row' (by decide)]
  rw [prevHash, prevHash, text?, text?, hget]

theorem entryHash_ne_genesis {row : Json} (h : hashValid host row = true) : entryHash row ≠ "genesis" := by
  intro hgenesis
  have hhash := toAsciiLowercase_entryHash ideal h
  have hlower : RustStd.toAsciiLowercase "genesis" = "genesis" := by decide
  rw [hgenesis, hlower] at hhash
  exact (ideal.digest_hex _).ne (c := 'g') (by decide) (by decide) hhash.symm

/-- The keys of a chain of entries with valid hashes differ. -/
theorem nodup_of_linked {chain : List Json} (hvalid : ∀ row ∈ chain, hashValid host row = true)
    (hlinked : Chain.Linked entryHash prevHash "genesis" chain) :
    ("genesis" :: chain.map entryHash).Nodup := by
  refine hlinked.nodup (fun hmem => ?_) fun a ha b hb heq =>
    prevHash_of_entryHash ideal (hvalid a ha) (hvalid b hb) heq
  obtain ⟨row, hrow, hgenesis⟩ := List.mem_map.mp hmem
  exact entryHash_ne_genesis ideal (hvalid row hrow) hgenesis

/-- **The entries of one chain are found in its order.** -/
theorem collectStructuredChainEntries_eq (h : OneChain host vault) : ∃ chain : List Json,
    chain.Perm (structuredRows vault) ∧ collectStructuredChainEntries host vault = .ok chain := by
  have hrows := indexRows_eq h.hashed ∅
  have hindex := indexes_foldl entryHash (structuredRows vault)
  generalize (structuredRows vault).foldl
    (fun (byHash : ExtTreeMap String Json) row => byHash.insert (entryHash row) row) ∅ = byHash
    at hrows hindex
  have hempty : byHash.isEmpty = (byHash.size == 0) := ExtTreeMap.isEmpty_eq_size_beq_zero
  unfold collectStructuredChainEntries
  rw [hrows]
  by_cases hnone : structuredRows vault = []
  · have hsize : byHash.size = 0 := by rw [hindex.size (by simp [hnone]), hnone, List.length_nil]
    refine ⟨[], by rw [hnone], ?_⟩
    simp [bind, Except.bind, hempty, hsize]
    rfl
  · obtain ⟨chain, hperm, hlinked, htip⟩ := h.chained.resolve_left hnone
    have hvalid : ∀ row ∈ chain, hashValid host row = true := fun row hrow =>
      h.hashed row (hperm.mem_iff.mp hrow)
    have hnodup := nodup_of_linked ideal hvalid hlinked
    have hkeys : ((structuredRows vault).map entryHash).Nodup :=
      ((hperm.map entryHash).nodup_iff).mp (List.nodup_cons.mp hnodup).2
    have hsize : byHash.size = (structuredRows vault).length := hindex.size hkeys
    have hpos : (structuredRows vault).length ≠ 0 := fun hzero => hnone (List.length_eq_zero_iff.mp hzero)
    have hhead : chainHead vault ≠ "genesis" := by
      rw [← htip]
      intro hgenesis
      cases chain using List.reverseRecOn with
      | nil => exact hnone (List.nil_perm.mp hperm)
      | append_singleton chain row =>
        rw [Chain.tip_append_singleton] at hgenesis
        exact entryHash_ne_genesis ideal (hvalid row (by simp)) hgenesis
    have hwalk := traverse_eq hindex.sound hindex.complete hperm hlinked hnodup
    rw [htip] at hwalk
    refine ⟨chain, hperm, ?_⟩
    simp [bind, Except.bind, hempty, hsize, hpos, hhead, hwalk, hperm.length_eq]
    rfl

end Collect

/-! ## One entry -/

/-- The fields a repair writes. -/
def relinkedNames : List String := ["prev_hash", "signature", "entry_hash"]

/-- An entry with all the fields of another but those a repair writes. -/
def SameRule (row row' : Json) : Prop := ∀ name, name ∉ relinkedNames → row'.get? name = row.get? name

section Relink

variable {host : Host} {key prev : String} {row : Json}

/-- The entry before its new hash. -/
def resigned (host : Host) (key prev : String) (row : Json) : Json :=
  (row.setField "prev_hash" (.str prev)).setField "signature"
    (.str (signatureForEntry host key (row.setField "prev_hash" (.str prev))))

theorem relink_eq : relink host key prev row = (resigned host key prev row).setField "entry_hash"
    (.str (recomputeEntryHash host (resigned host key prev row))) := rfl

theorem sameRule_relink : SameRule row (relink host key prev row) := by
  intro name hname
  simp only [relinkedNames, List.mem_cons, List.not_mem_nil, or_false, not_or] at hname
  rw [relink_eq, Json.get?_setField_ne hname.2.2, resigned, Json.get?_setField_ne hname.2.1,
    Json.get?_setField_ne hname.1]

theorem isObject_relink : (relink host key prev row).isObject = row.isObject := by
  rw [relink_eq, Json.isObject_setField, resigned, Json.isObject_setField, Json.isObject_setField]

theorem text?_of_sameRule {row' : Json} (h : SameRule row row') {name : String}
    (hname : name ∉ relinkedNames) : text? row' name = text? row name := by
  rw [text?, text?, h name hname]

theorem filter_insertField_ne {fields : List (String × Json)} {name : String} {value : Json} :
    (Json.insertField name value fields).filter (fun f => f.1 != name) =
      fields.filter fun f => f.1 != name := by
  induction fields with
  | nil => simp [Json.insertField]
  | cons f fields ih =>
    rw [Json.insertField]
    split
    · simp
    · split
      · rename_i hsame
        simp [hsame]
      · rw [List.filter_cons, List.filter_cons, ih]

/-- What is hashed of an entry does not depend on the hash it carries. -/
theorem canonicalEntryForHash_setField {value : Json} :
    canonicalEntryForHash (row.setField "entry_hash" value) = canonicalEntryForHash row := by
  cases row with
  | obj fields => exact congrArg Json.obj filter_insertField_ne
  | _ => rfl

section Object

variable (hobject : row.isObject = true)
include hobject

theorem isObject_resigned : (resigned host key prev row).isObject = true := by
  rw [resigned, Json.isObject_setField, Json.isObject_setField, hobject]

theorem text?_prevHash_relink : text? (relink host key prev row) "prev_hash" = some prev := by
  rw [text?, relink_eq, Json.get?_setField_ne (by decide), resigned, Json.get?_setField_ne (by decide),
    Json.get?_setField_same hobject]
  rfl

theorem prevHash_relink : prevHash (relink host key prev row) = prev := by
  rw [prevHash, text?_prevHash_relink hobject, Option.getD_some]

theorem text?_entryHash_relink : text? (relink host key prev row) "entry_hash" =
    some (recomputeEntryHash host (relink host key prev row)) := by
  have hhash : recomputeEntryHash host (relink host key prev row) =
      recomputeEntryHash host (resigned host key prev row) := by
    rw [recomputeEntryHash, relink_eq, canonicalEntryForHash_setField]
    rfl
  rw [hhash, text?, relink_eq, Json.get?_setField_same (isObject_resigned hobject)]
  rfl

/-- The new signature is that of the entry as it stands. -/
theorem text?_signature_relink : text? (relink host key prev row) "signature" =
    some (signatureForEntry host key (relink host key prev row)) := by
  have hpayload : canonicalSignaturePayload (relink host key prev row) =
      canonicalSignaturePayload (row.setField "prev_hash" (.str prev)) := by
    unfold canonicalSignaturePayload
    refine congrArg Json.ofFields (List.map_congr_left fun name hname => ?_)
    rw [field, field, relink_eq, Json.get?_setField_ne (ne_of_mem_of_not_mem hname (by decide)),
      resigned, Json.get?_setField_ne (ne_of_mem_of_not_mem hname (by decide))]
  have hsignature : signatureForEntry host key (relink host key prev row) =
      signatureForEntry host key (row.setField "prev_hash" (.str prev)) := by
    rw [signatureForEntry, hpayload, signatureForEntry]
  rw [hsignature, text?, relink_eq, Json.get?_setField_ne (by decide), resigned,
    Json.get?_setField_same (by rw [Json.isObject_setField, hobject])]
  rfl

variable (ideal : IdealHost host)
include ideal

theorem entryHash_relink : entryHash (relink host key prev row) =
    recomputeEntryHash host (relink host key prev row) := by
  rw [entryHash, text?_entryHash_relink hobject, Option.getD_some]
  exact (ideal.digest_hex _).trim

theorem storedHash_relink : storedHash (relink host key prev row) = entryHash (relink host key prev row) := by
  rw [entryHash_relink hobject ideal, storedHash, text?_entryHash_relink hobject, Option.getD_some]

theorem hashValid_relink : hashValid host (relink host key prev row) = true := by
  have hne : recomputeEntryHash host (relink host key prev row) ≠ "" := (ideal.digest_hex _).1
  rw [hashValid, entryHash_relink hobject ideal]
  simp [eqIgnoreAsciiCase, hne]

theorem verifyEntrySignature_relink : verifyEntrySignature host key (relink host key prev row) = true :=
  verifyEntrySignature_of_text ideal (text?_signature_relink hobject)

/-- An entry that counts still counts. -/
theorem structured_relink (hstructured : isStructuredDirectiveEntry row = true)
    (hprev : RustStd.trim prev ≠ "") :
    isStructuredDirectiveEntry (relink host key prev row) = true := by
  obtain ⟨-, hnames⟩ := isStructuredDirectiveEntry_iff.mp hstructured
  refine isStructuredDirectiveEntry_iff.mpr ⟨isObject_relink.trans hobject, fun name hname => ?_⟩
  by_cases hnew : name ∈ relinkedNames
  · simp only [relinkedNames, List.mem_cons, List.not_mem_nil, or_false] at hnew
    obtain rfl | rfl | rfl := hnew
    · rw [text?_prevHash_relink hobject, Option.getD_some]
      exact hprev
    · rw [text?_signature_relink hobject, Option.getD_some]
      exact trim_signatureForEntry_ne ideal _
    · rw [text?_entryHash_relink hobject, Option.getD_some, recomputeEntryHash,
        (ideal.digest_hex _).trim]
      exact (ideal.digest_hex _).1
  · rw [text?_of_sameRule sameRule_relink hnew]
    exact hnames name hname

end Object

end Relink

/-! ## The loop over the entries -/

section Loop

variable (host : Host) (key : String)

/-- The entries of a chain signed and linked anew. -/
def relinkAll : String → List Json → List Json
  | _, [] => []
  | prev, row :: rows =>
    let updated := relink host key prev row
    updated :: relinkAll (storedHash updated) rows

/-- The identifier of an entry. -/
def idOf (row : Json) : String := (text? row "id").getD ""

variable {host key} {prev : String} {rows : List Json}

theorem forall₂_relinkAll : List.Forall₂ (fun row updated => ∃ prev, updated = relink host key prev row)
    rows (relinkAll host key prev rows) := by
  induction rows generalizing prev with
  | nil => exact .nil
  | cons row rows ih => exact .cons ⟨prev, rfl⟩ ih

theorem text?_id {row : Json} (h : isStructuredDirectiveEntry row = true) :
    text? row "id" = some (idOf row) := by
  obtain ⟨-, hnames⟩ := isStructuredDirectiveEntry_iff.mp h
  have hid := hnames "id" (by decide)
  cases htext : text? row "id" with
  | none =>
    rw [htext] at hid
    exact absurd rfl hid
  | some id => rw [idOf, htext, Option.getD_some]

/-- **The loop** keeps the entries by their identifiers, the last one of each. -/
theorem repairRows_eq (hstructured : ∀ row ∈ rows, isStructuredDirectiveEntry row = true)
    (replaced : ExtTreeMap String Json) :
    rows.foldlM (repairRow host key) { replacementById := replaced, prevHash := prev } = .ok
      { replacementById := (relinkAll host key prev rows).foldl
          (fun (index : ExtTreeMap String Json) row => index.insert (idOf row) row) replaced
        prevHash := Chain.tip storedHash prev (relinkAll host key prev rows) } := by
  induction rows generalizing prev replaced with
  | nil => rfl
  | cons row rows ih =>
    have hid : text? (relink host key prev row) "id" = some (idOf (relink host key prev row)) := by
      have hsame : text? (relink host key prev row) "id" = text? row "id" :=
        text?_of_sameRule sameRule_relink (by decide)
      rw [idOf, hsame, text?_id (hstructured row List.mem_cons_self), Option.getD_some]
    rw [List.foldlM_cons, repairRow]
    dsimp only
    rw [hid]
    exact ih (fun r hr => hstructured r (List.mem_cons_of_mem _ hr)) _

theorem idOf_relink {row : Json} : idOf (relink host key prev row) = idOf row := by
  rw [idOf, text?_of_sameRule sameRule_relink (by decide), idOf]

theorem map_idOf_relinkAll : (relinkAll host key prev rows).map idOf = rows.map idOf := by
  induction rows generalizing prev with
  | nil => rfl
  | cons row rows ih => rw [relinkAll, List.map_cons, List.map_cons, ih, idOf_relink]

variable (ideal : IdealHost host)
include ideal

/-- **The new entries** count, verify, carry their hashes and make one chain. -/
theorem relinkAll_sound (hstructured : ∀ row ∈ rows, isStructuredDirectiveEntry row = true)
    (hprev : RustStd.trim prev ≠ "") :
    (∀ updated ∈ relinkAll host key prev rows, isStructuredDirectiveEntry updated = true ∧
      verifyEntrySignature host key updated = true ∧ hashValid host updated = true ∧
      storedHash updated = entryHash updated) ∧
    Chain.Linked entryHash prevHash prev (relinkAll host key prev rows) := by
  induction rows generalizing prev with
  | nil => exact ⟨by simp [relinkAll], trivial⟩
  | cons row rows ih =>
    have hrow := hstructured row List.mem_cons_self
    obtain ⟨hobject, -⟩ := isStructuredDirectiveEntry_iff.mp hrow
    have hstored : storedHash (relink host key prev row) = entryHash (relink host key prev row) :=
      storedHash_relink hobject ideal
    have hnext : RustStd.trim (storedHash (relink host key prev row)) ≠ "" := by
      rw [hstored, entryHash_relink hobject ideal, recomputeEntryHash, (ideal.digest_hex _).trim]
      exact (ideal.digest_hex _).1
    obtain ⟨hall, hlinked⟩ := ih (fun r hr => hstructured r (List.mem_cons_of_mem _ hr)) hnext
    refine ⟨fun updated hupdated => ?_, prevHash_relink hobject, hstored ▸ hlinked⟩
    obtain rfl | hupdated := List.mem_cons.mp hupdated
    · exact ⟨structured_relink hobject ideal hrow hprev, verifyEntrySignature_relink hobject ideal,
        hashValid_relink hobject ideal, hstored⟩
    · exact hall updated hupdated

end Loop

/-! ## The repaired vault -/

section Replace

variable {host : Host} {vault : Json} {index : ExtTreeMap String Json}

theorem replaceRow_of_structured {row : Json} (h : isStructuredDirectiveEntry row = true) :
    replaceRow index row = (index[idOf row]?).getD row := by
  rw [replaceRow, if_pos h, text?_id h]

theorem replaceRow_of_not {row : Json} (h : ¬ isStructuredDirectiveEntry row = true) :
    replaceRow index row = row := if_neg h

/-- Replacements that count put an entry that counts in the place of one. -/
theorem structured_replaceRow
    (hindex : ∀ (id : String) updated, index[id]? = some updated → isStructuredDirectiveEntry updated = true)
    (row : Json) : isStructuredDirectiveEntry (replaceRow index row) = isStructuredDirectiveEntry row := by
  by_cases h : isStructuredDirectiveEntry row = true
  · rw [replaceRow_of_structured h, h]
    cases hget : index[idOf row]? with
    | none => exact h
    | some updated => exact hindex _ _ hget
  · rw [replaceRow_of_not h]

theorem rowsOf_vaultObjMut (createdMs : ℕ) {name : String} (h : name = "prime" ∨ name = "derived") :
    rowsOf (vaultObjMut host createdMs vault) name = rowsOf vault name := by
  unfold vaultObjMut
  split
  · rfl
  · rename_i hobject
    rw [rowsOf_defaultVault h]
    cases vault with
    | obj fields => exact absurd rfl hobject
    | _ => rfl

variable (host index) in
/-- The vault that a repair writes. -/
def rewritten (createdMs : ℕ) (vault : Json) (head : String) : Json :=
  (replaceRows index (replaceRows index (vaultObjMut host createdMs vault) "prime") "derived").setField
    "chain_head" (.str head)

theorem rewritten_rows (createdMs : ℕ) (head : String) :
    primeRows (rewritten host index createdMs vault head) =
        (primeRows vault).map (replaceRow index) ∧
      derivedRows (rewritten host index createdMs vault head) =
        (derivedRows vault).map (replaceRow index) ∧
      chainHead (rewritten host index createdMs vault head) = head := by
  have hobject := isObject_vaultObjMut host createdMs vault
  have hprime := @rowsOf_vaultObjMut host vault createdMs "prime" (.inl rfl)
  have hderived := @rowsOf_vaultObjMut host vault createdMs "derived" (.inr rfl)
  unfold rewritten
  generalize vaultObjMut host createdMs vault = base at hobject hprime hderived
  have hobject' : (replaceRows index base "prime").isObject = true := by
    rw [replaceRows, Json.isObject_setField, hobject]
  refine ⟨?_, ?_, ?_⟩
  · rw [primeRows, rowsOf_setField_ne (by decide), replaceRows, rowsOf_setField_ne (by decide),
      replaceRows, rowsOf_setField_same hobject, hprime]
    rfl
  · rw [derivedRows, rowsOf_setField_ne (by decide), replaceRows, rowsOf_setField_same hobject',
      replaceRows, rowsOf_setField_ne (by decide), hderived]
    rfl
  · have hobject'' : (replaceRows index (replaceRows index base "prime") "derived").isObject = true := by
      rw [replaceRows, Json.isObject_setField, hobject']
    rw [chainHead, text?, Json.get?_setField_same hobject'']
    rfl

theorem rawRows_rewritten (createdMs : ℕ) (head : String) :
    rawRows (rewritten host index createdMs vault head) = (rawRows vault).map (replaceRow index) := by
  obtain ⟨hprime, hderived, -⟩ := @rewritten_rows host vault index createdMs head
  rw [rawRows, hprime, hderived, ← List.map_append, rawRows]

theorem structuredRows_rewritten
    (hindex : ∀ (id : String) updated, index[id]? = some updated → isStructuredDirectiveEntry updated = true)
    (createdMs : ℕ) (head : String) :
    structuredRows (rewritten host index createdMs vault head) =
      (structuredRows vault).map (replaceRow index) := by
  have hrows := @rawRows_rewritten host vault index createdMs head
  rw [structuredRows, ← rawRows, hrows, List.filter_map, structuredRows, ← rawRows]
  refine congrArg _ (List.filter_congr fun row _ => ?_)
  exact structured_replaceRow hindex row

/-- Where the replacements stand under the identifiers of the rows, one by one. -/
theorem map_replaceRow {rows updates : List Json}
    (h : List.Forall₂ (fun row updated => idOf updated = idOf row) rows updates)
    (hget : ∀ updated ∈ updates, index[idOf updated]? = some updated)
    (hstructured : ∀ row ∈ rows, isStructuredDirectiveEntry row = true) :
    rows.map (replaceRow index) = updates := by
  induction h with
  | nil => rfl
  | @cons row updated rows updates hid _ ih =>
    have hupdated := hget updated List.mem_cons_self
    rw [hid] at hupdated
    rw [List.map_cons, replaceRow_of_structured (hstructured row List.mem_cons_self), hupdated,
      Option.getD_some, ih (fun u hu => hget u (List.mem_cons_of_mem _ hu))
        fun r hr => hstructured r (List.mem_cons_of_mem _ hr)]

end Replace

/-! ## The rules of a vault -/

section Rules

/-- What the rules supersede, were all their signatures good. -/
def supersedings (rules : List Json) : List String := (rules.map supersedesOf).filter (· ≠ "")

/-- The denying, or the other, rules of a vault that match an action, were all signatures good. -/
def ruleHits (vault : Json) (action : String) (denies : Bool) : List Hit :=
  let rules := collectRules vault
  ((rules.filter fun row => !isSuperseded (supersedings rules) row &&
      matchesPattern (normalizeAction action) (rulePattern row)).filter
    fun row => (ruleKind row == "deny") == denies).map hitOf

variable {host : Host} {key : String} {vault vault' : Json} {action : String}

/-- The hits in an intact vault are its rules that match. -/
theorem hits_of_ok (hok : (directiveVaultIntegrity host key vault).ok = true) :
    (evaluateAction host key vault action).denyHits = ruleHits vault action true ∧
      (evaluateAction host key vault action).allowHits = ruleHits vault action false := by
  have hverified : ∀ row ∈ collectRules vault, verifyEntrySignature host key row = true :=
    fun row hrow => verified_of_ok hok hrow
  have hsuperseded : supersededIds host key (collectRules vault) = supersedings (collectRules vault) := by
    rw [supersededIds, List.filter_eq_self.mpr hverified, supersedings]
  have hmatching : matching host key (collectRules vault) (normalizeAction action) =
      (collectRules vault).filter fun row => !isSuperseded (supersedings (collectRules vault)) row &&
        matchesPattern (normalizeAction action) (rulePattern row) := by
    rw [matching, hsuperseded]
    exact List.filter_congr fun row hrow => by rw [hverified row hrow, Bool.and_true]
  constructor
  · simp [evaluateAction, hok, hmatching, ruleHits]
  · simp [evaluateAction, hok, hmatching, ruleHits, bne]

variable {row row' : Json} (h : SameRule row row')
include h

theorem SameRule.isEntryActive : isEntryActive row' = isEntryActive row := by
  rw [Directive.isEntryActive, h "accepted" (by decide), Directive.isEntryActive]

theorem SameRule.supersedesOf : supersedesOf row' = supersedesOf row := by
  rw [Directive.supersedesOf, text?_of_sameRule h (by decide), Directive.supersedesOf]

theorem SameRule.rowId : rowId row' = rowId row := by
  rw [Directive.rowId, text?_of_sameRule h (by decide), Directive.rowId]

theorem SameRule.ruleKind : ruleKind row' = ruleKind row := by
  rw [Directive.ruleKind, text?_of_sameRule h (by decide), Directive.ruleKind]

theorem SameRule.rulePattern : rulePattern row' = rulePattern row := by
  rw [Directive.rulePattern, text?_of_sameRule h (by decide), Directive.rulePattern]

theorem SameRule.hitOf : hitOf row' = hitOf row := by
  rw [Directive.hitOf, field, field, h "id" (by decide), h "signer" (by decide), h.ruleKind,
    h.rulePattern, Directive.hitOf, field, field]

omit h

theorem filter_map_of_same {rows : List Json} {f : Json → Json} {p q : Json → Bool}
    (h : ∀ row ∈ rows, q (f row) = p row) : (rows.map f).filter q = (rows.filter p).map f := by
  rw [List.filter_map]
  exact congrArg _ (List.filter_congr fun row hrow => h row hrow)

/-- Rows replaced by rows with the same rules have the same hits. -/
theorem ruleHits_of_sameRule {f : Json → Json} (hrows : rawRows vault' = (rawRows vault).map f)
    (hsame : ∀ row ∈ rawRows vault, SameRule row (f row))
    (hstructured : ∀ row, isStructuredDirectiveEntry (f row) = isStructuredDirectiveEntry row)
    (denies : Bool) : ruleHits vault' action denies = ruleHits vault action denies := by
  have hrules : collectRules vault' = (collectRules vault).map f := by
    rw [collectRules, ← rawRows, hrows, collectRules, ← rawRows]
    exact filter_map_of_same fun row hrow => by rw [(hsame row hrow).isEntryActive, hstructured]
  have hrule : ∀ row ∈ collectRules vault, SameRule row (f row) := fun row hrow =>
    hsame row (List.mem_of_mem_filter hrow)
  have hsuperseded : supersedings (collectRules vault') = supersedings (collectRules vault) := by
    rw [supersedings, hrules, List.map_map, supersedings]
    exact congrArg _ (List.map_congr_left fun row hrow => (hrule row hrow).supersedesOf)
  unfold ruleHits
  dsimp only
  rw [hsuperseded, hrules, filter_map_of_same fun row hrow => by
      rw [isSuperseded, (hrule row hrow).rowId, (hrule row hrow).rulePattern, ← isSuperseded],
    filter_map_of_same fun row hrow => by rw [(hrule row (List.mem_of_mem_filter hrow)).ruleKind],
    List.map_map]
  refine List.map_congr_left fun row hrow => ?_
  exact (hrule row (List.mem_of_mem_filter (List.mem_of_mem_filter hrow))).hitOf

end Rules

/-! ## What a repair keeps -/

/-- The structured entries have identifiers of their own. -/
def DistinctIds (vault : Json) : Prop := ((structuredRows vault).map idOf).Nodup

/-- A vault that is intact under the key, and has at every place an entry that differs from the old
one in its link, its signature and its hash at most; so its hits are those of the old rules. -/
structure Repairs (host : Host) (key : String) (vault vault' : Json) : Prop where
  ok : (directiveVaultIntegrity host key vault').ok = true
  prime : List.Forall₂ SameRule (primeRows vault) (primeRows vault')
  derived : List.Forall₂ SameRule (derivedRows vault) (derivedRows vault')
  hits : ∀ action, (evaluateAction host key vault' action).denyHits = ruleHits vault action true ∧
    (evaluateAction host key vault' action).allowHits = ruleHits vault action false
  kept : (directiveVaultIntegrity host key vault).ok = true → ∀ action,
    (evaluateAction host key vault' action).denyHits = (evaluateAction host key vault action).denyHits ∧
    (evaluateAction host key vault' action).allowHits = (evaluateAction host key vault action).allowHits

section Repair

variable {host : Host} {key : String} {vault : Json} {chain : List Json}
  {index : ExtTreeMap String Json}

theorem repairedVault_eq (hstructured : ∀ row ∈ chain, isStructuredDirectiveEntry row = true)
    (createdMs : ℕ) : ∃ repairing : Repairing,
      Indexes idOf (relinkAll host key "genesis" chain) repairing.replacementById ∧
      repairedVault host key createdMs vault chain = .ok (repairing,
        rewritten host repairing.replacementById createdMs vault
          (Chain.tip storedHash "genesis" (relinkAll host key "genesis" chain))) := by
  have hindex := indexes_foldl idOf (relinkAll host key "genesis" chain)
  have hloop := @repairRows_eq host key "genesis" chain hstructured ∅
  refine ⟨{ replacementById := _
            prevHash := Chain.tip storedHash "genesis" (relinkAll host key "genesis" chain) },
    hindex, ?_⟩
  unfold repairedVault
  rw [hloop]
  rfl

theorem structured_of_perm (hperm : chain.Perm (structuredRows vault)) :
    ∀ row ∈ chain, isStructuredDirectiveEntry row = true := fun _ hrow =>
  (List.mem_filter.mp (hperm.mem_iff.mp hrow)).2

variable (ideal : IdealHost host)
include ideal

/-- Where a repair that may go ahead gets to. -/
theorem repair_eq (h : OneChain host vault) {allowUnsigned : Bool} (createdMs : ℕ)
    (hallowed : signingKeyPresent key = true ∨ allowUnsigned = true) :
    ∃ chain index report, chain.Perm (structuredRows vault) ∧
      Indexes idOf (relinkAll host key "genesis" chain) index ∧
      repairVaultSignatures host key true allowUnsigned createdMs none vault =
        (.ok report, rewritten host index createdMs vault
          (Chain.tip storedHash "genesis" (relinkAll host key "genesis" chain))) := by
  obtain ⟨chain, hperm, hcollect⟩ := collectStructuredChainEntries_eq ideal h
  obtain ⟨repairing, hindex, hrepaired⟩ :=
    @repairedVault_eq host key vault chain (structured_of_perm hperm) createdMs
  have hguard : (!signingKeyPresent key && !allowUnsigned) = false := by
    obtain hkey | hunsigned := hallowed
    · rw [hkey]
      rfl
    · rw [hunsigned, Bool.not_true, Bool.and_false]
  refine ⟨chain, repairing.replacementById, .repaired
    (if signingKeyPresent key then "keyed" else "unsigned") (signingKeyPresent key)
    repairing.replacementById.size repairing.prevHash, hperm, hindex, ?_⟩
  simp [repairVaultSignatures, hguard, hcollect, hrepaired]

variable (hperm : chain.Perm (structuredRows vault))
  (hindex : Indexes idOf (relinkAll host key "genesis" chain) index)
include hperm hindex

theorem structured_of_index (id : String) (updated : Json) (hget : index[id]? = some updated) :
    isStructuredDirectiveEntry updated = true :=
  ((relinkAll_sound ideal (structured_of_perm hperm) (by decide)).1 updated
    (hindex.sound id updated hget).1).1

/-- Entries with one identifier are replaced with one entry, which breaks the chain. -/
theorem distinctIds_of_ok {createdMs : ℕ} {head : String}
    (hok : (directiveVaultIntegrity host key (rewritten host index createdMs vault head)).ok = true) :
    DistinctIds vault := by
  obtain ⟨-, -, chain', hperm', -, -, hnodup⟩ := (ok_iff _).mp hok
  have hkeys : chain'.Nodup := List.Nodup.of_map _ (List.nodup_cons.mp hnodup).2
  rw [hperm'.nodup_iff, structuredRows_rewritten (structured_of_index ideal hperm hindex)] at hkeys
  have hids : (structuredRows vault).map (replaceRow index) =
      ((structuredRows vault).map idOf).map fun id => (index[id]?).getD .null := by
    rw [List.map_map]
    refine List.map_congr_left fun row hrow => ?_
    have hstructured := (List.mem_filter.mp hrow).2
    have hid : idOf row ∈ (relinkAll host key "genesis" chain).map idOf := by
      rw [map_idOf_relinkAll]
      exact List.mem_map_of_mem (hperm.mem_iff.mpr hrow)
    obtain ⟨updated, hupdated, hsame⟩ := List.mem_map.mp hid
    obtain ⟨found, hfound⟩ := hindex.complete updated hupdated
    rw [hsame] at hfound
    rw [replaceRow_of_structured hstructured, hfound, Function.comp_apply, hfound]
    rfl
  rw [hids] at hkeys
  exact List.Nodup.of_map _ hkeys

variable (hids : DistinctIds vault)
include hids

omit ideal in
theorem map_replaceRow_chain : chain.map (replaceRow index) = relinkAll host key "genesis" chain := by
  have hnodup : ((relinkAll host key "genesis" chain).map idOf).Nodup := by
    rw [map_idOf_relinkAll, (hperm.map idOf).nodup_iff]
    exact hids
  refine map_replaceRow (forall₂_relinkAll.imp ?_) (fun updated hupdated =>
    hindex.get_of_mem hnodup hupdated) (structured_of_perm hperm)
  rintro row updated ⟨prev, rfl⟩
  exact idOf_relink

omit ideal in
theorem sameRule_replaceRow {row : Json} (hrow : row ∈ rawRows vault) :
    SameRule row (replaceRow index row) := by
  by_cases hstructured : isStructuredDirectiveEntry row = true
  · have hmem : row ∈ chain := hperm.mem_iff.mpr (List.mem_filter.mpr ⟨hrow, hstructured⟩)
    have hall : List.Forall₂ (fun row updated => ∃ prev, updated = relink host key prev row) chain
        (chain.map (replaceRow index)) := by
      rw [map_replaceRow_chain hperm hindex hids]
      exact forall₂_relinkAll
    rw [List.forall₂_map_right_iff, List.forall₂_same] at hall
    obtain ⟨prev, hprev⟩ := hall row hmem
    rw [hprev]
    exact sameRule_relink
  · rw [replaceRow_of_not hstructured]
    exact fun name _ => rfl

/-- **A vault whose entries have identifiers of their own is repaired.** -/
theorem repairs_rewritten (createdMs : ℕ) : Repairs host key vault (rewritten host index createdMs vault
    (Chain.tip storedHash "genesis" (relinkAll host key "genesis" chain))) := by
  obtain ⟨hprime, hderived, hhead⟩ := @rewritten_rows host vault index createdMs
    (Chain.tip storedHash "genesis" (relinkAll host key "genesis" chain))
  have hrows := @rawRows_rewritten host vault index createdMs
    (Chain.tip storedHash "genesis" (relinkAll host key "genesis" chain))
  have hstructured := @structuredRows_rewritten host vault index
    (structured_of_index ideal hperm hindex) createdMs
    (Chain.tip storedHash "genesis" (relinkAll host key "genesis" chain))
  have hkept := map_replaceRow_chain hperm hindex hids
  obtain ⟨hsound, hlinked⟩ := @relinkAll_sound host key "genesis" chain ideal
    (structured_of_perm hperm) (by decide)
  have hsame : ∀ row ∈ rawRows vault, SameRule row (replaceRow index row) := fun row hrow =>
    sameRule_replaceRow hperm hindex hids hrow
  have hnew : (relinkAll host key "genesis" chain).Perm (structuredRows (rewritten host index createdMs
      vault (Chain.tip storedHash "genesis" (relinkAll host key "genesis" chain)))) := by
    rw [hstructured, ← hkept]
    exact hperm.map _
  have hok : (directiveVaultIntegrity host key (rewritten host index createdMs vault
      (Chain.tip storedHash "genesis" (relinkAll host key "genesis" chain)))).ok = true := by
    refine (ok_iff _).mpr ⟨fun row hrow => (hsound row (hnew.mem_iff.mpr hrow)).2.1,
      fun row hrow => (hsound row (hnew.mem_iff.mpr hrow)).2.2.1,
      relinkAll host key "genesis" chain, hnew, hlinked, ?_,
      nodup_of_linked ideal (fun row hrow => (hsound row hrow).2.2.1) hlinked⟩
    rw [hhead]
    exact (Chain.tip_congr fun row hrow => (hsound row hrow).2.2.2).symm
  have hhits (action : String) := @hits_of_ok host key _ action hok
  have hrules (action : String) (denies : Bool) := @ruleHits_of_sameRule vault _ action
    (replaceRow index) hrows hsame
    (fun row => structured_replaceRow (structured_of_index ideal hperm hindex) row) denies
  refine ⟨hok, ?_, ?_, fun action => ?_, fun hbefore action => ?_⟩
  · rw [hprime, List.forall₂_map_right_iff, List.forall₂_same]
    exact fun row hrow => hsame row (List.mem_append_left _ hrow)
  · rw [hderived, List.forall₂_map_right_iff, List.forall₂_same]
    exact fun row hrow => hsame row (List.mem_append_right _ hrow)
  · rw [(hhits action).1, (hhits action).2, hrules, hrules]
    exact ⟨rfl, rfl⟩
  · obtain ⟨hdeny, hallow⟩ := @hits_of_ok host key vault action hbefore
    rw [(hhits action).1, (hhits action).2, hrules, hrules, hdeny, hallow]
    exact ⟨rfl, rfl⟩

end Repair

/-- A repair that fails leaves the vault. -/
theorem repair_unchanged {host : Host} {key : String} {apply allowUnsigned : Bool} {createdMs : ℕ}
    {writeError : Option String} {vault : Json} {err : String}
    (h : (repairVaultSignatures host key apply allowUnsigned createdMs writeError vault).1 = .error err) :
    (repairVaultSignatures host key apply allowUnsigned createdMs writeError vault).2 = vault := by
  unfold repairVaultSignatures at h ⊢
  dsimp only at h ⊢
  split
  · rfl
  · rename_i hguard
    rw [if_neg hguard] at h
    cases hcollect : collectStructuredChainEntries host vault with
    | error err => rfl
    | ok ordered =>
      rw [hcollect] at h
      dsimp only at h ⊢
      split
      · rfl
      · rename_i happly
        rw [if_neg happly] at h
        cases hrepaired : repairedVault host key createdMs vault ordered with
        | error err => rfl
        | ok repaired =>
          rw [hrepaired] at h
          cases writeError with
          | some err => rfl
          | none => cases h

/-- **Repair.**  A repair that fails leaves the vault.  A vault whose structured entries carry their
hashes and make one chain is repaired with its meaning kept exactly where the repair may sign and
the entries have identifiers of their own. -/
theorem repair_iff {host : Host} (ideal : IdealHost host) (key : String) (allowUnsigned : Bool)
    (createdMs : ℕ) (vault : Json) :
    (∀ apply writeError err,
      (repairVaultSignatures host key apply allowUnsigned createdMs writeError vault).1 = .error err →
        (repairVaultSignatures host key apply allowUnsigned createdMs writeError vault).2 = vault) ∧
    (OneChain host vault →
      ((∃ report vault', repairVaultSignatures host key true allowUnsigned createdMs none vault =
          (.ok report, vault') ∧ Repairs host key vault vault') ↔
        (signingKeyPresent key = true ∨ allowUnsigned = true) ∧ DistinctIds vault)) := by
  refine ⟨fun apply writeError err => repair_unchanged, fun h => ?_⟩
  by_cases hallowed : signingKeyPresent key = true ∨ allowUnsigned = true
  · obtain ⟨chain, index, report, hperm, hindex, hrepair⟩ := repair_eq ideal h createdMs hallowed
    rw [hrepair]
    constructor
    · rintro ⟨report', vault', heq, hrepairs⟩
      obtain ⟨-, rfl⟩ := Prod.mk.inj heq
      exact ⟨hallowed, distinctIds_of_ok ideal hperm hindex hrepairs.ok⟩
    · rintro ⟨-, hids⟩
      exact ⟨report, _, rfl, repairs_rewritten ideal hperm hindex hids createdMs⟩
  · obtain ⟨hkey, hunsigned⟩ := not_or.mp hallowed
    have hguard : (!signingKeyPresent key && !allowUnsigned) = true := by
      rw [Bool.not_eq_true] at hkey hunsigned
      rw [hkey, hunsigned]
      rfl
    constructor
    · rintro ⟨report, vault', heq, -⟩
      rw [repairVaultSignatures, if_pos hguard] at heq
      cases (Prod.ext_iff.mp heq).1
    · rintro ⟨hallowed', -⟩
      exact absurd hallowed' hallowed

/-! ## Two vaults -/

/-- A vault whose entries are these, signed and linked. -/
def chainVault (host : Host) (key : String) (rows : List Json) : Json :=
  Json.ofFields
    [("prime", .arr (relinkAll host key "genesis" rows)),
      ("chain_head", .str (Chain.tip storedHash "genesis" (relinkAll host key "genesis" rows)))]

theorem chainVault_rows {host : Host} (ideal : IdealHost host) {key : String} {rows : List Json}
    (hstructured : ∀ row ∈ rows, isStructuredDirectiveEntry row = true) :
    structuredRows (chainVault host key rows) = relinkAll host key "genesis" rows ∧
      OneChain host (chainVault host key rows) := by
  have hprime : primeRows (chainVault host key rows) = relinkAll host key "genesis" rows := by
    rw [primeRows, rowsOf, chainVault,
      Json.get?_ofFields_mem (v := .arr (relinkAll host key "genesis" rows)) (by simp) (by simp)]
    rfl
  have hderived : derivedRows (chainVault host key rows) = [] := by
    rw [derivedRows, rowsOf, chainVault, Json.get?_ofFields_of_notMem (by simp)]
    rfl
  have hhead : chainHead (chainVault host key rows) =
      Chain.tip storedHash "genesis" (relinkAll host key "genesis" rows) := by
    rw [chainHead, text?, chainVault, Json.get?_ofFields_mem
      (v := .str (Chain.tip storedHash "genesis" (relinkAll host key "genesis" rows))) (by simp) (by simp)]
    rfl
  obtain ⟨hsound, hlinked⟩ := @relinkAll_sound host key "genesis" rows ideal hstructured
    (by decide)
  have hrows : structuredRows (chainVault host key rows) = relinkAll host key "genesis" rows := by
    rw [structuredRows, hprime, hderived, List.append_nil]
    exact List.filter_eq_self.mpr fun row hrow => (hsound row hrow).1
  refine ⟨hrows, ?_, .inr ⟨_, by rw [hrows], hlinked, ?_⟩⟩
  · rw [hrows]
    exact fun row hrow => (hsound row hrow).2.2.1
  · rw [hhead]
    exact (Chain.tip_congr fun row hrow => (hsound row hrow).2.2.2).symm

/-- An entry of a few words. -/
def plainEntry (id kind pattern : String) : Json :=
  Json.ofFields
    [("id", .str id), ("directive", .str "a rule"), ("rule_kind", .str kind),
      ("rule_pattern", .str pattern), ("signer", .str "operator"), ("source", .str "operator_sign"),
      ("ts", .str "2024-01-01T00:00:00Z"), ("prev_hash", .str "genesis"), ("signature", .str "unsigned:"),
      ("entry_hash", .str "none")]

theorem repair_two : ∃ report vault', repairVaultSignatures plainHost "k" true false 0 none
      (chainVault plainHost "" [plainEntry "a" "deny" "rm", plainEntry "b" "allow" "*"]) =
        (.ok report, vault') ∧
    Repairs plainHost "k" (chainVault plainHost "" [plainEntry "a" "deny" "rm", plainEntry "b" "allow" "*"])
      vault' := by
  have hvault := @chainVault_rows plainHost plainHost_ideal ""
    [plainEntry "a" "deny" "rm", plainEntry "b" "allow" "*"] (by decide)
  refine ((repair_iff plainHost_ideal "k" false 0 _).2 hvault.2).mpr ⟨.inl (by decide), ?_⟩
  rw [DistinctIds, hvault.1, map_idOf_relinkAll]
  decide

/-- A denial and a later allowance under one identifier make one chain, and the repair, which puts
the allowance in both places, leaves a vault that is not intact. -/
theorem shared_id_breaks_chain :
    OneChain plainHost
        (chainVault plainHost "" [plainEntry "a" "deny" "rm", plainEntry "a" "allow" "*"]) ∧
      ¬ ∃ report vault', repairVaultSignatures plainHost "k" true true 0 none
          (chainVault plainHost "" [plainEntry "a" "deny" "rm", plainEntry "a" "allow" "*"]) =
            (.ok report, vault') ∧
        Repairs plainHost "k"
          (chainVault plainHost "" [plainEntry "a" "deny" "rm", plainEntry "a" "allow" "*"]) vault' := by
  have hvault := @chainVault_rows plainHost plainHost_ideal ""
    [plainEntry "a" "deny" "rm", plainEntry "a" "allow" "*"] (by decide)
  refine ⟨hvault.2, ?_⟩
  rintro ⟨report, vault', heq, hrepairs⟩
  obtain ⟨chain, index, report', hperm, hindex, hrepair⟩ :=
    @repair_eq plainHost "k" _ plainHost_ideal hvault.2 true 0 (.inr rfl)
  rw [hrepair] at heq
  obtain ⟨-, rfl⟩ := Prod.mk.inj heq
  have hids := distinctIds_of_ok plainHost_ideal hperm hindex hrepairs.ok
  rw [DistinctIds, hvault.1, map_idOf_relinkAll] at hids
  exact absurd hids (by decide)

end Protheus.Directive
