import Protheus.Directive.Entries
import Protheus.Lib.Runs

/-!
When `directive_vault_integrity` reports ok.

The check accepts exactly the vaults whose structured entries verify, carry their own
hashes and make one chain up to the head (`ok_iff`).  In a vault the kernel wrote, the
chain runs through every entry, also through those the check does not look at; so it
is intact exactly while no entry of it is left out (`ok_iff_structured`), and a
directive with a blank text, pattern, signer or source breaks it.
-/

namespace Protheus.Directive

open V8Kernel Runs
open Std (ExtTreeMap)

section Check

variable {host : Host} {key : String}

/-! ## The loop over the entries -/

/-- What the loop has found in some entries. -/
structure Found (host : Host) (key : String) (rows : List Json) (found : Checked) : Prop where
  signatures : found.signatureValidCount = rows.countP (verifyEntrySignature host key)
  hashes : found.hashValidCount = rows.countP (hashValid host)
  sound : ∀ k row, found.byHash[k]? = some row → row ∈ rows ∧ entryHash row = k
  complete : ∀ row ∈ rows, hashValid host row = true → ∃ row', found.byHash[entryHash row]? = some row'

theorem signatureValidCount_checkRow (found : Checked) (row : Json) (idx : ℕ) :
    (checkRow host key found (row, idx)).signatureValidCount =
      found.signatureValidCount + if verifyEntrySignature host key row then 1 else 0 := by
  cases hsignature : verifyEntrySignature host key row <;> cases hhash : hashValid host row <;>
    simp [checkRow, hsignature, hhash]

theorem hashValidCount_checkRow (found : Checked) (row : Json) (idx : ℕ) :
    (checkRow host key found (row, idx)).hashValidCount =
      found.hashValidCount + if hashValid host row then 1 else 0 := by
  cases hsignature : verifyEntrySignature host key row <;> cases hhash : hashValid host row <;>
    simp [checkRow, hsignature, hhash]

theorem byHash_checkRow (found : Checked) (row : Json) (idx : ℕ) :
    (checkRow host key found (row, idx)).byHash =
      if hashValid host row then found.byHash.insert (entryHash row) row else found.byHash := by
  cases hsignature : verifyEntrySignature host key row <;> cases hhash : hashValid host row <;>
    simp [checkRow, hsignature, hhash]

theorem Found.checkRow {rows : List Json} {row : Json} {idx : ℕ} {found : Checked}
    (h : Found host key rows found) :
    Found host key (rows ++ [row]) (checkRow host key found (row, idx)) := by
  obtain ⟨hsignatures, hhashes, hsound, hcomplete⟩ := h
  refine ⟨?_, ?_, ?_, ?_⟩
  · rw [signatureValidCount_checkRow, List.countP_append, List.countP_singleton, hsignatures]
  · rw [hashValidCount_checkRow, List.countP_append, List.countP_singleton, hhashes]
  · intro k row' hget
    have hold (hget : found.byHash[k]? = some row') : row' ∈ rows ++ [row] ∧ entryHash row' = k :=
      ⟨List.mem_append_left _ (hsound k row' hget).1, (hsound k row' hget).2⟩
    rw [byHash_checkRow] at hget
    split at hget
    · rw [ExtTreeMap.getElem?_insert] at hget
      split at hget
      · rename_i hk
        obtain rfl := Option.some.inj hget
        exact ⟨by simp, by simpa using hk⟩
      · exact hold hget
    · exact hold hget
  · intro row' hrow' hvalid
    rw [byHash_checkRow]
    obtain hrow' | hrow' := List.mem_append.mp hrow'
    · split
      · rw [ExtTreeMap.getElem?_insert]
        split
        · exact ⟨row, rfl⟩
        · exact hcomplete row' hrow' hvalid
      · exact hcomplete row' hrow' hvalid
    · obtain rfl := List.mem_singleton.mp hrow'
      rw [if_pos hvalid, ExtTreeMap.getElem?_insert_self]
      exact ⟨row', rfl⟩

/-- **The loop.** -/
theorem found_foldl (host : Host) (key : String) (rows : List Json) :
    Found host key rows (rows.zipIdx.foldl (checkRow host key) {}) := by
  induction rows using List.reverseRecOn with
  | nil => exact ⟨rfl, rfl, by simp, by simp⟩
  | append_singleton rows row ih =>
    rw [List.zipIdx_append, List.foldl_append, List.zipIdx_singleton, List.foldl_cons, List.foldl_nil]
    exact ih.checkRow

/-! ## What the check accepts -/

/-- Entries that verify, carry their own hashes and make one chain up to a head. -/
structure Sound (host : Host) (key head : String) (rows : List Json) : Prop where
  verified : ∀ row ∈ rows, verifyEntrySignature host key row = true
  hashed : ∀ row ∈ rows, hashValid host row = true
  chained : ∃ chain : List Json, chain.Perm rows ∧ Chain.Linked entryHash prevHash "genesis" chain ∧
    Chain.tip entryHash "genesis" chain = head ∧ ("genesis" :: chain.map entryHash).Nodup

/-- The traversal from the tip of a chain that is all there finds the chain. -/
theorem traverse_eq {rows chain : List Json} {byHash : ExtTreeMap String Json}
    (hsound : ∀ k row, byHash[k]? = some row → row ∈ rows ∧ entryHash row = k)
    (hcomplete : ∀ row ∈ rows, ∃ row', byHash[entryHash row]? = some row')
    (hperm : chain.Perm rows) (hlinked : Chain.Linked entryHash prevHash "genesis" chain)
    (hnodup : ("genesis" :: chain.map entryHash).Nodup) :
    traverse byHash (Chain.tip entryHash "genesis" chain) = (chain.reverse, .root) := by
  have hfind (x : Json) (hx : x ∈ chain) : byHash[entryHash x]? = some x := by
    obtain ⟨row, hrow⟩ := hcomplete x (hperm.mem_iff.mp hx)
    obtain ⟨hmem, hkey⟩ := hsound _ _ hrow
    rw [hrow, List.inj_on_of_nodup_map (List.nodup_cons.mp hnodup).2 (hperm.mem_iff.mpr hmem) hx hkey]
  have hkeys (k : String) (row : Json) (hget : byHash[k]? = some row) : k ∈ byHash.keys := by
    rw [ExtTreeMap.mem_keys, ExtTreeMap.mem_iff_isSome_getElem?, hget]
    rfl
  have hfuel : traverse byHash (Chain.tip entryHash "genesis" chain) =
      Chain.walk prevHash "genesis" (byHash[·]?) (byHash.size + chain.length + 1) []
        (Chain.tip entryHash "genesis" chain) := by
    refine Chain.walk_fuel hkeys List.nodup_nil (List.nil_subset _) ?_ ?_ <;>
      rw [ExtTreeMap.length_keys, List.length_nil] <;> omega
  rw [hfuel]
  exact Chain.walk_eq_of_linked hlinked hnodup hfind (by simp) (by omega)

theorem chainErrors_iff {rows : List Json} {byHash : ExtTreeMap String Json} {head : String}
    (hsound : ∀ k row, byHash[k]? = some row → row ∈ rows ∧ entryHash row = k)
    (hcomplete : ∀ row ∈ rows, ∃ row', byHash[entryHash row]? = some row') :
    chainErrors rows byHash head = [] ↔ ∃ chain : List Json, chain.Perm rows ∧
      Chain.Linked entryHash prevHash "genesis" chain ∧
      Chain.tip entryHash "genesis" chain = head ∧ ("genesis" :: chain.map entryHash).Nodup := by
  constructor
  · intro h
    unfold chainErrors at h
    split at h
    · rename_i hempty
      obtain rfl := List.isEmpty_iff.mp hempty
      split at h
      · cases h
      · rename_i hhead
        exact ⟨[], .refl _, trivial, (not_not.mp hhead).symm, by simp⟩
    · split at h
      · cases h
      · obtain ⟨hended, hcounted⟩ := List.append_eq_nil_iff.mp h
        have hroot : (traverse byHash head).2 = .root := by
          cases hend : (traverse byHash head).2 with
          | root => rfl
          | cycle => simp [hend] at hended
          | missing cursor => simp [hend] at hended
        have hlength : (traverse byHash head).1.length = rows.length := by
          by_contra hne
          rw [if_pos hne] at hcounted
          cases hcounted
        have hkey (k : String) (row : Json) (hget : byHash[k]? = some row) : entryHash row = k :=
          (hsound k row hget).2
        obtain ⟨hlinked, htip⟩ := Chain.Linked.of_walk hkey hroot
        obtain ⟨hnodup, hall⟩ : ((traverse byHash head).1.map entryHash).Nodup ∧
            ∀ a ∈ (traverse byHash head).1,
              byHash[entryHash a]? = some a ∧ entryHash a ≠ "genesis" ∧ entryHash a ∉ [] :=
          Chain.walk_nodup hkey
        refine ⟨(traverse byHash head).1.reverse, ?_, hlinked, htip, ?_⟩
        · have hsub : (traverse byHash head).1 ⊆ rows := fun a ha => (hsound _ a (hall a ha).1).1
          have hperm := (List.Nodup.of_map _ hnodup).subperm hsub
          exact (List.reverse_perm _).trans (hperm.perm_of_length_le hlength.ge)
        · rw [List.map_reverse]
          refine List.nodup_cons.mpr ⟨fun hmem => ?_, List.nodup_reverse.mpr hnodup⟩
          obtain ⟨a, ha, hgenesis⟩ := List.mem_map.mp (List.mem_reverse.mp hmem)
          exact (hall a ha).2.1 hgenesis
  · rintro ⟨chain, hperm, hlinked, rfl, hnodup⟩
    unfold chainErrors
    split
    · rename_i hempty
      obtain rfl := List.isEmpty_iff.mp hempty
      obtain rfl := hperm.eq_nil
      rfl
    · rename_i hrows
      rw [if_neg, traversalErrors, traverse_eq hsound hcomplete hperm hlinked hnodup]
      · simp [hperm.length_eq]
      · cases chain using List.reverseRecOn with
        | nil => exact absurd (by simp [List.nil_perm.mp hperm]) hrows
        | append_singleton chain row =>
          rw [Chain.tip_append_singleton]
          exact fun hgenesis => (List.nodup_cons.mp hnodup).1 (by simp [hgenesis])

/-- **What the integrity check accepts.** -/
theorem ok_iff (vault : Json) : (directiveVaultIntegrity host key vault).ok = true ↔
    Sound host key (chainHead vault) (structuredRows vault) := by
  have hfound := found_foldl host key (structuredRows vault)
  have hcount (p : Json → Bool) : ((structuredRows vault).length == (structuredRows vault).countP p) =
      true ↔ ∀ row ∈ structuredRows vault, p row = true := by
    rw [beq_iff_eq, eq_comm, List.countP_eq_length]
  unfold directiveVaultIntegrity
  simp only [hfound.signatures, hfound.hashes, Bool.and_eq_true, hcount, List.isEmpty_iff]
  constructor
  · rintro ⟨⟨hverified, hhashed⟩, hchain⟩
    exact ⟨hverified, hhashed, (chainErrors_iff hfound.sound fun row hrow =>
      hfound.complete row hrow (hhashed row hrow)).mp hchain⟩
  · rintro ⟨hverified, hhashed, hchain⟩
    exact ⟨⟨hverified, hhashed⟩, (chainErrors_iff hfound.sound fun row hrow =>
      hfound.complete row hrow (hhashed row hrow)).mpr hchain⟩

end Check

/-! ## Vaults the kernel wrote -/

/-- A vault whose entries, in the order they were written, are these. -/
structure Records (host : Host) (key : String) (vault : Json) (log : List Json) : Prop where
  rows : (rawRows vault).Perm log
  linked : Chain.Linked entryHash prevHash "genesis" log
  head : chainHead vault = Chain.tip entryHash "genesis" log
  written : ∀ entry ∈ log, ∃ append, WrittenFor host key append entry

section Records

variable {host : Host} {key : String} {vault vault' : Json} {log added : List Json}
  {appends : List Append}

theorem records_defaultVault (createdMs : ℕ) : Records host key (defaultVault host createdMs) [] where
  rows := by rw [rawRows_defaultVault]
  linked := trivial
  head := chainHead_defaultVault
  written := by simp

variable (ideal : IdealHost host)
include ideal

theorem storedHash_written {entry : Json} {append : Append} (h : WrittenFor host key append entry) :
    storedHash entry = entryHash entry := by
  obtain ⟨head, idMs, tsMs, rfl⟩ := h
  rw [entryHash_newEntry ideal, storedHash, text?_entryHash_newEntry, Option.getD_some]

theorem Records.extend (h : Records host key vault log)
    (hext : Extends host key vault vault' appends added) :
    Records host key vault' (log ++ added) := by
  have hstored (entry : Json) (hentry : entry ∈ added) : storedHash entry = entryHash entry := by
    obtain ⟨append, -, hwritten⟩ := hext.append_of_mem hentry
    exact storedHash_written ideal hwritten
  refine ⟨hext.rows.trans (h.rows.append_right added), ?_, ?_, fun entry hentry => ?_⟩
  · exact Chain.Linked.append_iff.mpr ⟨h.linked, h.head ▸ hext.linked.congr hstored⟩
  · rw [hext.head, h.head, Chain.tip_append, Chain.tip_congr hstored]
  · obtain hentry | hentry := List.mem_append.mp hentry
    · exact h.written entry hentry
    · obtain ⟨append, -, hwritten⟩ := hext.append_of_mem hentry
      exact ⟨append, hwritten⟩

theorem written_hashed {entry : Json} {append : Append} (h : WrittenFor host key append entry) :
    hashValid host entry = true ∧ IsHex (entryHash entry) := by
  obtain ⟨head, idMs, tsMs, rfl⟩ := h
  exact ⟨hashValid_newEntry ideal, entryHash_newEntry ideal ▸ ideal.digest_hex _⟩

theorem eq_of_entryHash {entry entry' : Json} {append append' : Append}
    (h : WrittenFor host key append entry) (h' : WrittenFor host key append' entry')
    (heq : entryHash entry = entryHash entry') : entry = entry' := by
  obtain ⟨head, idMs, tsMs, rfl⟩ := h
  obtain ⟨head', idMs', tsMs', rfl⟩ := h'
  rw [entryHash_newEntry ideal, entryHash_newEntry ideal] at heq
  rw [newEntry, newEntry, ideal.digest_injective heq]

theorem genesis_notMem {entries : List Json}
    (h : ∀ entry ∈ entries, ∃ append, WrittenFor host key append entry) :
    "genesis" ∉ entries.map entryHash := by
  intro hmem
  obtain ⟨entry, hentry, hgenesis⟩ := List.mem_map.mp hmem
  obtain ⟨append, hwritten⟩ := h entry hentry
  exact (written_hashed ideal hwritten).2.ne (c := 'g') (by decide) rfl hgenesis

theorem Records.keys (h : Records host key vault log) : ("genesis" :: log.map entryHash).Nodup := by
  refine h.linked.nodup (genesis_notMem ideal h.written) fun a ha b hb heq => ?_
  obtain ⟨append, hwritten⟩ := h.written a ha
  obtain ⟨append', hwritten'⟩ := h.written b hb
  rw [eq_of_entryHash ideal hwritten hwritten' heq]

/-- A vault the kernel wrote, checked under a key its entries verify under. -/
theorem Records.ok_iff {key' : String} (h : Records host key vault log)
    (hverified : ∀ entry ∈ log, verifyEntrySignature host key' entry = true) :
    (directiveVaultIntegrity host key' vault).ok = true ↔
      ∀ entry ∈ log, isStructuredDirectiveEntry entry = true := by
  rw [Directive.ok_iff, h.head]
  have hlog {entry : Json} (hentry : entry ∈ structuredRows vault) : entry ∈ log :=
    h.rows.mem_iff.mp (List.mem_of_mem_filter hentry)
  constructor
  · rintro ⟨-, -, chain, hperm, hlinked, htip, hnodup⟩
    have hchain (entry : Json) (hentry : entry ∈ chain) := h.written entry (hlog (hperm.mem_iff.mp hentry))
    have hall : chain = log := by
      refine hlinked.eq_of_tip h.linked (List.nodup_cons.mp hnodup).1
        (genesis_notMem ideal h.written) (fun a ha b hb heq => ?_) htip
      obtain ⟨append, ha⟩ := hchain a ha
      obtain ⟨append', hb⟩ := h.written b hb
      exact eq_of_entryHash ideal ha hb heq
    intro entry hentry
    rw [← hall] at hentry
    exact (List.mem_filter.mp (hperm.mem_iff.mp hentry)).2
  · intro hstructured
    refine ⟨fun entry hentry => hverified entry (hlog hentry), fun entry hentry => ?_, log, ?_,
      h.linked, rfl, h.keys ideal⟩
    · obtain ⟨append, hwritten⟩ := h.written entry (hlog hentry)
      exact (written_hashed ideal hwritten).1
    · have hfilter := h.rows.filter isStructuredDirectiveEntry
      rw [List.filter_eq_self.mpr hstructured] at hfilter
      exact hfilter.symm

/-- **A vault the kernel wrote is intact exactly when the check looks at every entry.** -/
theorem Records.ok_iff_structured (h : Records host key vault log) :
    (directiveVaultIntegrity host key vault).ok = true ↔
      ∀ entry ∈ log, isStructuredDirectiveEntry entry = true := by
  refine h.ok_iff ideal fun entry hentry => ?_
  obtain ⟨append, head, idMs, tsMs, rfl⟩ := h.written entry hentry
  exact verifyEntrySignature_newEntry ideal

/-- Which of the entries added the check looks at. -/
theorem Records.structured_iff (h : Records host key vault log)
    (hext : Extends host key vault vault' appends added) :
    (∀ entry ∈ added, isStructuredDirectiveEntry entry = true) ↔ ∀ append ∈ appends, Storable append := by
  have hnext := h.extend ideal hext
  have hhead {entry : Json} (hentry : entry ∈ added) : RustStd.trim (prevHash entry) ≠ "" := by
    obtain hroot | ⟨a, ha, hkey⟩ := hnext.linked.prev_eq (List.mem_append_right _ hentry)
    · rw [hroot]
      decide
    · obtain ⟨append, hwritten⟩ := hnext.written a ha
      have hhex := (written_hashed ideal hwritten).2
      rw [hkey, hhex.trim]
      exact hhex.1
  have hone {append : Append} {entry : Json} (hwritten : WrittenFor host key append entry)
      (hentry : entry ∈ added) : isStructuredDirectiveEntry entry = true ↔ Storable append := by
    obtain ⟨head, idMs, tsMs, rfl⟩ := hwritten
    have := hhead hentry
    rw [prevHash_newEntry] at this
    exact structured_newEntry_iff ideal this
  constructor
  · intro hall append happend
    obtain ⟨entry, hentry, hwritten⟩ := hext.entry_of_mem happend
    exact (hone hwritten hentry).mp (hall entry hentry)
  · intro hall entry hentry
    obtain ⟨append, happend, hwritten⟩ := hext.append_of_mem hentry
    exact (hone hwritten hentry).mpr (hall append happend)

theorem exists_records_step (h : ∃ log, Records host key vault log) (request : Request) :
    ∃ log, Records host key (step host key vault request) log := by
  obtain ⟨log, hlog⟩ := h
  obtain ⟨added, hadded⟩ : ∃ added, Extends host key vault (step host key vault request)
      (appendsOf key vault request.command) added := extends_step request
  exact ⟨log ++ added, hlog.extend ideal hadded⟩

/-- **One command** keeps a vault intact exactly when it appends nothing blank. -/
theorem ok_step_iff (h : ∃ log, Records host key vault log) (request : Request)
    (hok : (directiveVaultIntegrity host key vault).ok = true) :
    (directiveVaultIntegrity host key (step host key vault request)).ok = true ↔
      ∀ append ∈ appendsOf key vault request.command, Storable append := by
  obtain ⟨log, hlog⟩ := h
  obtain ⟨added, hadded⟩ : ∃ added, Extends host key vault (step host key vault request)
      (appendsOf key vault request.command) added := extends_step request
  rw [(hlog.extend ideal hadded).ok_iff_structured ideal, ← hlog.structured_iff ideal hadded]
  have hold := (hlog.ok_iff_structured ideal).mp hok
  simp only [List.mem_append, or_imp, forall_and]
  exact ⟨fun hall => hall.2, fun hnew => ⟨hold, hnew⟩⟩

/-- The first entries of a vault. -/
theorem ok_after_step (key : String) (request : Request)
    (h : ∀ append ∈ appendsOf key (defaultVault host 0) request.command, Storable append) :
    (directiveVaultIntegrity host key (step host key (defaultVault host 0) request)).ok = true := by
  have hstart : Records host key (defaultVault host 0) [] := records_defaultVault 0
  exact (ok_step_iff ideal ⟨[], hstart⟩ request ((hstart.ok_iff_structured ideal).mpr (by simp))).mpr h

end Records

/-! ## Runs -/

/-- The check reports ok, and no decision falls into the branch for a check that fails. -/
def Intact (host : Host) (key : String) (vault : Json) : Prop :=
  (directiveVaultIntegrity host key vault).ok = true ∧
    ∀ action, (evaluateAction host key vault action).integrity.ok = true

theorem integrity_evaluateAction (host : Host) (key : String) (vault : Json) (action : String) :
    (evaluateAction host key vault action).integrity = directiveVaultIntegrity host key vault := by
  unfold evaluateAction
  dsimp only
  split <;> rfl

theorem intact_iff {host : Host} {key : String} {vault : Json} :
    Intact host key vault ↔ (directiveVaultIntegrity host key vault).ok = true := by
  simp only [Intact, integrity_evaluateAction, forall_const, and_self]

/-- **Intact vaults.**  The vault is intact at every moment exactly when no command
appends a directive with a blank text, pattern, signer or source. -/
theorem intact_throughout_iff {host : Host} (ideal : IdealHost host) (key : String)
    (createdMs : ℕ) (requests : List Request) :
    (∀ n, Intact host key (before (step host key) (defaultVault host createdMs) requests n)) ↔
      Meets (step host key) (fun vault request =>
        ∀ append ∈ appendsOf key vault request.command, Storable append)
        (defaultVault host createdMs) requests := by
  let Inv (vault : Json) : Prop :=
    (∃ log, Records host key vault log) ∧ (directiveVaultIntegrity host key vault).ok = true
  have hrecords (n : ℕ) : ∃ log, Records host key
      (before (step host key) (defaultVault host createdMs) requests n) log :=
    run_invariant (fun vault request (h : ∃ log, Records host key vault log) =>
      exists_records_step ideal h request) _ _ ⟨[], records_defaultVault createdMs⟩
  have hstart : Inv (defaultVault host createdMs) := by
    refine ⟨⟨[], records_defaultVault createdMs⟩, ?_⟩
    exact ((records_defaultVault createdMs).ok_iff_structured ideal).mpr (by simp)
  have hstep (vault : Json) (request : Request) (h : Inv vault) : Inv (step host key vault request) ↔
      ∀ append ∈ appendsOf key vault request.command, Storable append := by
    rw [← ok_step_iff ideal h.1 request h.2]
    exact and_iff_right (exists_records_step ideal h.1 request)
  rw [← Meets.iff_before hstep hstart]
  simp only [intact_iff]
  exact forall_congr' fun n => (and_iff_right (hrecords n)).symm

theorem intact_after_denial : Intact plainHost "" (before (step plainHost "")
    (defaultVault plainHost 0)
    [{ command := .primeSign (some "deny:rm") none true, readings := fun _ => ⟨0, 0, 0⟩ }] 1) :=
  (intact_throughout_iff plainHost_ideal "" 0 _).mpr (by decide) 1

/-- A directive without a pattern, signed as any other. -/
def blankPattern : Request where
  command := .primeSign (some "deny:") none true
  readings _ := ⟨0, 0, 0⟩

/-- It is stored where the check does not see it, and its hash becomes the head. -/
theorem blank_pattern_breaks_vault : Intact plainHost "" (defaultVault plainHost 0) ∧
    ¬ Intact plainHost "" (step plainHost "" (defaultVault plainHost 0) blankPattern) := by
  have hrecords : ∃ log, Records plainHost "" (defaultVault plainHost 0) log :=
    ⟨[], records_defaultVault 0⟩
  have hok : (directiveVaultIntegrity plainHost "" (defaultVault plainHost 0)).ok = true :=
    ((records_defaultVault 0).ok_iff_structured plainHost_ideal).mpr (by simp)
  rw [intact_iff, intact_iff, ok_step_iff plainHost_ideal hrecords blankPattern hok]
  exact ⟨hok, by decide⟩

end Protheus.Directive
