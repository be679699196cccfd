import Protheus.Directive.Integrity

/-!
What a vault that passes the integrity check may say when its writer does not know
the signing key.

A rule is the ten fields its signature covers and the signature.  A keyed signature
that occurs in an honest vault pins the rule it stands on, the name of the entry
before it, and through the hash in that name the whole of that entry; so the keyed
entries of a vault that passes are the first ones of the honest vault, and only the
last of them may have been switched off.  But `verify_entry_signature` also takes
signatures without a key, which anybody can compute: the rules are a prefix of the
honest ones exactly when none of them carries such a signature (`rules_prefix_iff`).
-/

namespace Protheus.Directive

open V8Kernel Runs

/-! ## Rules in chain order -/

/-- The entries the chain runs through, oldest first. -/
def chainOrder (rows : List Json) (head : String) : List Json :=
  (Chain.walk prevHash "genesis" (fun hash => rows.find? fun row => entryHash row == hash)
    (rows.length + 1) [] head).1.reverse

/-- The rules of `collect_rules` in chain order.  Where two entries carry one hash, the
chain runs through the one the integrity check looks at. -/
def rulesInChainOrder (vault : Json) : List Json :=
  (chainOrder (structuredRows vault ++ rawRows vault) (chainHead vault)).filter fun row =>
    isEntryActive row && isStructuredDirectiveEntry row

/-- What a rule says: the fields its signature covers, and the signature. -/
def ruleOf (row : Json) : Json × String := (canonicalSignaturePayload row, signatureOf row)

/-- A signature that takes no key. -/
def Unkeyed (row : Json) : Prop := ∃ raw, signatureOf row = "unsigned:" ++ raw

/-- A signature that takes the key. -/
def Keyed (row : Json) : Prop := ∃ raw, signatureOf row = "sig:" ++ raw

theorem Keyed.not_unkeyed {row : Json} (h : Keyed row) : ¬ Unkeyed row := by
  obtain ⟨raw, hraw⟩ := h
  rintro ⟨raw', hraw'⟩
  exact keyed_ne_unsigned raw raw' (hraw.symm.trans hraw')

section ChainOrder

variable {rows chain : List Json}

/-- A chain of rows, each the first with its hash, is the chain order of its tip. -/
theorem chainOrder_eq (hlinked : Chain.Linked entryHash prevHash "genesis" chain)
    (hnodup : ("genesis" :: chain.map entryHash).Nodup)
    (hfind : ∀ x ∈ chain, rows.find? (fun row => entryHash row == entryHash x) = some x) :
    chainOrder rows (Chain.tip entryHash "genesis" chain) = chain := by
  have hsub : chain ⊆ rows := fun x hx => List.mem_of_find?_eq_some (hfind x hx)
  have hlength := ((List.nodup_cons.mp hnodup).2.of_map.subperm hsub).length_le
  rw [chainOrder, Chain.walk_eq_of_linked hlinked hnodup hfind (by simp) (by omega),
    List.reverse_reverse]

theorem find?_entryHash {x : Json} (hx : x ∈ rows)
    (honly : ∀ row ∈ rows, entryHash row = entryHash x → row = x) :
    rows.find? (fun row => entryHash row == entryHash x) = some x := by
  cases hfind : rows.find? (fun row => entryHash row == entryHash x) with
  | none => exact absurd (List.find?_eq_none.mp hfind x hx) (by simp)
  | some row =>
    rw [honly row (List.mem_of_find?_eq_some hfind) (by simpa using List.find?_some hfind)]

end ChainOrder

/-! ## What a signature and a hash pin down -/

section Pinned

variable {host : Host} {key : String} {a b : Json}

theorem text?_eq_field (entry : Json) (name : String) : text? entry name = (field entry name).asStr := by
  unfold text? field
  cases entry.get? name with
  | none => rfl
  | some value => rfl

theorem field_eq_of_payload (h : canonicalSignaturePayload a = canonicalSignaturePayload b)
    {name : String} (hname : name ∈ signedNames) : field a name = field b name := by
  have hget (entry : Json) : (canonicalSignaturePayload entry).get? name = some (field entry name) := by
    refine Json.get?_ofFields (f := (name, field entry name)) ?_ (List.mem_map.mpr ⟨name, hname, rfl⟩)
    rw [List.map_map, show Prod.fst ∘ (fun name => (name, field entry name)) = id from rfl, List.map_id]
    decide
  exact Option.some.inj ((hget a).symm.trans (h ▸ hget b))

theorem prevHash_eq_of_ruleOf (h : ruleOf a = ruleOf b) : prevHash a = prevHash b := by
  have hpayload : canonicalSignaturePayload a = canonicalSignaturePayload b := congrArg Prod.fst h
  rw [prevHash, prevHash, text?_eq_field, text?_eq_field, field_eq_of_payload hpayload (by decide)]

theorem eq_of_canonicalEntryForHash (h : canonicalEntryForHash a = canonicalEntryForHash b) :
    ruleOf a = ruleOf b ∧ isEntryActive a = isEntryActive b := by
  have hget {name : String} (hname : name ≠ "entry_hash") : a.get? name = b.get? name := by
    rw [← get?_canonicalEntryForHash a hname, h, get?_canonicalEntryForHash b hname]
  constructor
  · refine Prod.ext ?_ ?_
    · refine congrArg Json.ofFields (List.map_congr_left fun name hname => ?_)
      rw [field, field, hget (ne_of_mem_of_not_mem hname (by decide))]
    · change signatureOf a = signatureOf b
      rw [signatureOf, signatureOf, text?, text?, hget (by decide)]
  · rw [isEntryActive, isEntryActive, hget (by decide)]

variable (ideal : IdealHost host)
include ideal

/-- The hash of a written entry pins whatever carries it. -/
theorem canonical_eq_of_entryHash {append : Append} (ha : hashValid host a = true)
    (hb : WrittenFor host key append b) (h : entryHash a = entryHash b) :
    canonicalEntryForHash a = canonicalEntryForHash b := by
  obtain ⟨hvalid, hhex⟩ := written_hashed ideal hb
  have hown {entry : Json} (hentry : hashValid host entry = true) (hword : IsHex (entryHash entry)) :
      entryHash entry = host.digest (canonicalEntryForHash entry) :=
    hword.eq_of_eqIgnoreAsciiCase (ideal.digest_hex _) (Bool.and_eq_true_iff.mp hentry).2
  have := (hown ha (h ▸ hhex)).symm.trans (h.trans (hown hvalid hhex))
  exact ideal.digest_injective this

/-- **A keyed signature pins its rule.** -/
theorem ruleOf_eq_of_signature {append : Append} (hkey : signingKeyPresent key = true)
    (ha : verifyEntrySignature host key a = true) (hb : WrittenFor host key append b)
    (h : signatureOf b = signatureOf a) : ruleOf a = ruleOf b := by
  have hsigned : signatureOf b = "sig:" ++ keyedDigestHex host key (canonicalSignaturePayload b) := by
    obtain ⟨head, idMs, tsMs, rfl⟩ := hb
    rw [signatureOf_newEntry ideal, signatureForEntry, if_pos hkey]
  rw [verifyEntrySignature_of_keyed (h.symm.trans hsigned), Bool.and_eq_true] at ha
  have := (ideal.keyedDigestHex_hex _ _).eq_of_eqIgnoreAsciiCase (ideal.keyedDigestHex_hex _ _) ha.2
  exact Prod.ext (ideal.keyedDigestHex_injective this).symm h.symm

end Pinned

/-! ## The honest vault -/

section Honest

variable {host : Host} {key : String} {vault : Json} {log : List Json}

theorem isEntryActive_written {append : Append} {entry : Json} (h : WrittenFor host key append entry) :
    isEntryActive entry = true := by
  obtain ⟨head, idMs, tsMs, rfl⟩ := h
  exact isEntryActive_newEntry

theorem Records.rulesInChainOrder_eq (ideal : IdealHost host) (h : Records host key vault log) :
    rulesInChainOrder vault = log.filter isStructuredDirectiveEntry := by
  have hrows {row : Json} (hrow : row ∈ structuredRows vault ++ rawRows vault) : row ∈ log := by
    obtain hrow | hrow := List.mem_append.mp hrow
    · exact h.rows.mem_iff.mp (List.mem_of_mem_filter hrow)
    · exact h.rows.mem_iff.mp hrow
  have horder : chainOrder (structuredRows vault ++ rawRows vault) (chainHead vault) = log := by
    rw [h.head]
    refine chainOrder_eq h.linked (h.keys ideal) fun x hx => ?_
    refine find?_entryHash (List.mem_append_right _ (h.rows.mem_iff.mpr hx)) fun row hrow heq => ?_
    obtain ⟨append, hwritten⟩ := h.written row (hrows hrow)
    obtain ⟨append', hwritten'⟩ := h.written x hx
    exact eq_of_entryHash ideal hwritten hwritten' heq
  rw [rulesInChainOrder, horder]
  refine List.filter_congr fun entry hentry => ?_
  obtain ⟨append, hwritten⟩ := h.written entry hentry
  rw [isEntryActive_written hwritten, Bool.true_and]

end Honest

/-! ## The edited vault -/

/-- A vault that passes runs through its structured entries. -/
theorem rulesInChainOrder_of_ok {vault : Json} {chain : List Json}
    (hperm : chain.Perm (structuredRows vault))
    (hlinked : Chain.Linked entryHash prevHash "genesis" chain)
    (htip : Chain.tip entryHash "genesis" chain = chainHead vault)
    (hnodup : ("genesis" :: chain.map entryHash).Nodup) :
    rulesInChainOrder vault = chain.filter isEntryActive := by
  have horder : chainOrder (structuredRows vault ++ rawRows vault) (chainHead vault) = chain := by
    rw [← htip]
    refine chainOrder_eq hlinked hnodup fun x hx => ?_
    rw [List.find?_append, find?_entryHash (hperm.mem_iff.mp hx) fun row hrow heq =>
      List.inj_on_of_nodup_map (List.nodup_cons.mp hnodup).2 (hperm.mem_iff.mpr hrow) hx heq,
      Option.some_or]
  rw [rulesInChainOrder, horder]
  refine List.filter_congr fun row hrow => ?_
  rw [(List.mem_filter.mp (hperm.mem_iff.mp hrow)).2, Bool.and_true]

/-- A chain of entries that verify, whose keyed signatures all occur in a log. -/
structure Edited (host : Host) (key : String) (log chain : List Json) : Prop where
  verified : ∀ x ∈ chain, verifyEntrySignature host key x = true
  hashed : ∀ x ∈ chain, hashValid host x = true
  linked : Chain.Linked entryHash prevHash "genesis" chain
  keys : ("genesis" :: chain.map entryHash).Nodup
  seen : ∀ x ∈ chain, Keyed x → ∃ y ∈ log, signatureOf y = signatureOf x

section Edited

variable {host : Host} {key : String} {vault : Json} {log chain : List Json}

theorem Edited.of_initial {chain' : List Json} (h : Edited host key log chain)
    (hinitial : chain' <+: chain) : Edited host key log chain' := by
  obtain ⟨rest, rfl⟩ := hinitial
  refine ⟨fun x hx => h.verified x (List.mem_append_left _ hx),
    fun x hx => h.hashed x (List.mem_append_left _ hx), (Chain.Linked.append_iff.mp h.linked).1, ?_,
    fun x hx => h.seen x (List.mem_append_left _ hx)⟩
  have hkeys := h.keys
  rw [List.map_append, ← List.cons_append] at hkeys
  exact hkeys.of_append_left

variable (ideal : IdealHost host) (hkey : signingKeyPresent key = true)
  (hlog : Records host key vault log)
include ideal hkey hlog

theorem keyed_of_mem {y : Json} (hy : y ∈ log) : Keyed y := by
  obtain ⟨append, head, idMs, tsMs, rfl⟩ := hlog.written y hy
  exact ⟨_, by rw [signatureOf_newEntry ideal, signatureForEntry, if_pos hkey]⟩

omit hkey in
theorem Edited.eq_of_entryHash (h : Edited host key log chain) {x y : Json} (hx : x ∈ chain)
    (hy : y ∈ log) (heq : entryHash x = entryHash y) :
    ruleOf x = ruleOf y ∧ isEntryActive x = isEntryActive y := by
  obtain ⟨append, hwritten⟩ := hlog.written y hy
  exact eq_of_canonicalEntryForHash (canonical_eq_of_entryHash ideal (h.hashed x hx) hwritten heq)

theorem Edited.exists_ruleOf (h : Edited host key log chain) {x : Json} (hx : x ∈ chain)
    (hkeyed : Keyed x) : ∃ y ∈ log, ruleOf x = ruleOf y := by
  obtain ⟨y, hy, hsignature⟩ := h.seen x hx hkeyed
  obtain ⟨append, hwritten⟩ := hlog.written y hy
  exact ⟨y, hy, ruleOf_eq_of_signature ideal hkey (h.verified x hx) hwritten hsignature⟩

/-- Before a keyed entry all entries are keyed, and none is switched off. -/
theorem Edited.keyed_before {xs : List Json} {x : Json} (h : Edited host key log (xs ++ [x]))
    (hkeyed : Keyed x) : ∀ z ∈ xs, Keyed z ∧ isEntryActive z = true := by
  induction xs using List.reverseRecOn generalizing x with
  | nil => simp
  | append_singleton xs z ih =>
    obtain ⟨y, hy, hrule⟩ := h.exists_ruleOf ideal hkey hlog (by simp) hkeyed
    have hname : prevHash y = entryHash z := by
      rw [← prevHash_eq_of_ruleOf hrule, (Chain.Linked.concat_iff.mp h.linked).2,
        Chain.tip_append_singleton]
    have hz : Keyed z ∧ isEntryActive z = true := by
      obtain hroot | ⟨y₀, hy₀, hnamed⟩ := hlog.linked.prev_eq hy
      · have hgenesis : "genesis" = entryHash z := hroot.symm.trans hname
        exact absurd (List.mem_map.mpr ⟨z, by simp, hgenesis.symm⟩) (List.nodup_cons.mp h.keys).1
      · obtain ⟨hsame, hactive⟩ := h.eq_of_entryHash ideal hlog (by simp) hy₀ (hname.symm.trans hnamed)
        obtain ⟨raw, hraw⟩ := keyed_of_mem ideal hkey hlog hy₀
        obtain ⟨append, hwritten⟩ := hlog.written y₀ hy₀
        exact ⟨⟨raw, (congrArg Prod.snd hsame).trans hraw⟩, hactive.trans (isEntryActive_written hwritten)⟩
    intro w hw
    obtain hw | hw := List.mem_append.mp hw
    · exact ih (h.of_initial (List.prefix_append _ _)) hz.1 w hw
    · rwa [List.mem_singleton.mp hw]

/-- Where no rule goes without the key, the entries that are switched on are the first
ones, and keyed. -/
theorem Edited.filter_active (h : Edited host key log chain)
    (hall : ∀ x ∈ chain, isEntryActive x = true → ¬ Unkeyed x) :
    chain.filter isEntryActive <+: chain ∧ ∀ x ∈ chain.filter isEntryActive, Keyed x := by
  induction chain using List.reverseRecOn with
  | nil => simp
  | append_singleton xs x ih =>
    cases hactive : isEntryActive x with
    | false =>
      obtain ⟨hinitial, hkeyed⟩ := ih (h.of_initial (List.prefix_append _ _))
        fun z hz => hall z (List.mem_append_left _ hz)
      rw [List.filter_append, List.filter_singleton, hactive, cond_false, List.append_nil]
      exact ⟨hinitial.trans (List.prefix_append _ _), hkeyed⟩
    | true =>
      have hx : Keyed x := by
        obtain ⟨raw, hraw | hraw⟩ := verifyEntrySignature_cases (h.verified x (by simp))
        · exact absurd ⟨raw, hraw⟩ (hall x (by simp) hactive)
        · exact ⟨raw, hraw⟩
      have hbefore := h.keyed_before ideal hkey hlog hx
      have hself : (xs ++ [x]).filter isEntryActive = xs ++ [x] := by
        refine List.filter_eq_self.mpr fun z hz => ?_
        obtain hz | hz := List.mem_append.mp hz
        · exact (hbefore z hz).2
        · rwa [List.mem_singleton.mp hz]
      rw [hself]
      refine ⟨List.prefix_refl _, fun z hz => ?_⟩
      obtain hz | hz := List.mem_append.mp hz
      · exact (hbefore z hz).1
      · rwa [List.mem_singleton.mp hz]

/-- Keyed entries are the first of the log. -/
theorem Edited.map_initial (h : Edited host key log chain) (hkeyed : ∀ x ∈ chain, Keyed x) :
    chain.map ruleOf <+: log.map ruleOf :=
  h.linked.map_initial prevHash_eq_of_ruleOf hlog.linked h.keys (hlog.keys ideal)
    (fun _ hx _ hy heq => (h.eq_of_entryHash ideal hlog hx hy heq).1)
    fun x hx => h.exists_ruleOf ideal hkey hlog hx (hkeyed x hx)

omit hkey in
theorem structured_of_ruleOf {x y : Json} (hy : y ∈ log) (hrule : ruleOf x = ruleOf y)
    (hx : isStructuredDirectiveEntry x = true) : isStructuredDirectiveEntry y = true := by
  obtain ⟨append, hwritten⟩ := hlog.written y hy
  obtain ⟨-, hfilled⟩ := isStructuredDirectiveEntry_iff.mp hx
  refine isStructuredDirectiveEntry_iff.mpr ⟨?_, fun name hname => ?_⟩
  · obtain ⟨head, idMs, tsMs, rfl⟩ := hwritten
    exact isObject_newEntry
  · have hkinds : ∀ name ∈ requiredNames,
        name ∈ signedNames ∨ name = "signature" ∨ name = "entry_hash" := by decide
    obtain hsigned | rfl | rfl := hkinds name hname
    · rw [text?_eq_field, ← field_eq_of_payload (congrArg Prod.fst hrule) hsigned, ← text?_eq_field]
      exact hfilled name hname
    · change signatureOf y ≠ ""
      rw [← show signatureOf x = signatureOf y from congrArg Prod.snd hrule]
      exact hfilled "signature" hname
    · exact (written_hashed ideal hwritten).2.1

/-- **The rules of a chain without unkeyed rules are the first of the log's.** -/
theorem Edited.rules_initial (h : Edited host key log chain)
    (hstructured : ∀ x ∈ chain, isStructuredDirectiveEntry x = true)
    (hall : ∀ x ∈ chain, isEntryActive x = true → ¬ Unkeyed x) :
    (chain.filter isEntryActive).map ruleOf <+:
      (log.filter isStructuredDirectiveEntry).map ruleOf := by
  obtain ⟨hinitial, hkeyed⟩ := h.filter_active ideal hkey hlog hall
  have hmap := (h.of_initial hinitial).map_initial ideal hkey hlog hkeyed
  generalize chain.filter isEntryActive = kept at hinitial hmap
  rw [List.prefix_iff_eq_take, ← List.map_take, List.length_map] at hmap
  have hfirst : (log.take kept.length).filter isStructuredDirectiveEntry = log.take kept.length := by
    refine List.filter_eq_self.mpr fun y hy => ?_
    obtain ⟨x, hx, hrule⟩ := List.mem_map.mp (hmap ▸ List.mem_map_of_mem hy)
    exact structured_of_ruleOf ideal hlog (List.mem_of_mem_take hy) hrule
      (hstructured x (hinitial.subset hx))
  rw [hmap, ← hfirst]
  exact ((List.take_prefix _ log).filter _).map ruleOf

end Edited

/-! ## Forgeries -/

/-- **Who does not know the key.**  For a vault the kernel wrote under a key, and any
vault that passes the check with no keyed signature but the first one's: its rules are
the first rules of that vault, in chain order, exactly when none of them has a
signature without the key. -/
theorem rules_prefix_iff {host : Host} (ideal : IdealHost host) {key : String}
    (hkey : signingKeyPresent key = true) (createdMs : ℕ) (requests : List Request) (vault' : Json)
    (hseen : ∀ row' ∈ rawRows vault', Keyed row' →
      ∃ row ∈ rawRows (run (step host key) (defaultVault host createdMs) requests),
        signatureOf row = signatureOf row')
    (hok : (directiveVaultIntegrity host key vault').ok = true) :
    (rulesInChainOrder vault').map ruleOf <+:
        (rulesInChainOrder (run (step host key) (defaultVault host createdMs) requests)).map ruleOf ↔
      ∀ row ∈ collectRules vault', ¬ Unkeyed row := by
  obtain ⟨log, hlog⟩ : ∃ log, Records host key
      (run (step host key) (defaultVault host createdMs) requests) log :=
    run_invariant (fun vault request (h : ∃ log, Records host key vault log) =>
      exists_records_step ideal h request) _ _ ⟨[], records_defaultVault createdMs⟩
  obtain ⟨hverified, hhashed, chain, hperm, hlinked, htip, hnodup⟩ := (ok_iff vault').mp hok
  have hrow {x : Json} (hx : x ∈ chain) := hperm.mem_iff.mp hx
  have hedited : Edited host key log chain :=
    { verified := fun x hx => hverified x (hrow hx)
      hashed := fun x hx => hhashed x (hrow hx)
      linked := hlinked
      keys := hnodup
      seen := fun x hx hkeyed => by
        obtain ⟨y, hy, heq⟩ := hseen x (List.mem_of_mem_filter (hrow hx)) hkeyed
        exact ⟨y, hlog.rows.mem_iff.mp hy, heq⟩ }
  have hrules {row : Json} : row ∈ collectRules vault' ↔ row ∈ chain ∧ isEntryActive row = true := by
    rw [hperm.mem_iff, structuredRows, collectRules, List.mem_filter, List.mem_filter,
      Bool.and_eq_true]
    tauto
  rw [rulesInChainOrder_of_ok hperm hlinked htip hnodup, hlog.rulesInChainOrder_eq ideal]
  constructor
  · rintro hinitial row hmem hunkeyed
    have hkept : ruleOf row ∈ (chain.filter isEntryActive).map ruleOf :=
      List.mem_map_of_mem (List.mem_filter.mpr (hrules.mp hmem))
    obtain ⟨y, hy, hrule⟩ := List.mem_map.mp (hinitial.subset hkept)
    obtain ⟨raw, hraw⟩ := keyed_of_mem ideal hkey hlog (List.mem_of_mem_filter hy)
    exact Keyed.not_unkeyed ⟨raw, (congrArg Prod.snd hrule).symm.trans hraw⟩ hunkeyed
  · exact fun hall => hedited.rules_initial ideal hkey hlog
      (fun x hx => (List.mem_filter.mp (hrow hx)).2) fun x hx hactive => hall x (hrules.mpr ⟨hx, hactive⟩)

def denial : Request where
  command := .primeSign (some "deny:rm") none false
  readings _ := ⟨0, 0, 0⟩

/-- The vault of one request against that of two. -/
theorem honest_vault_rules_prefix_iff :
    (rulesInChainOrder (run (step plainHost "k") (defaultVault plainHost 0) [denial])).map ruleOf <+:
        (rulesInChainOrder (run (step plainHost "k") (defaultVault plainHost 0) [denial, denial])).map ruleOf ↔
      ∀ row ∈ collectRules (run (step plainHost "k") (defaultVault plainHost 0) [denial]),
        ¬ Unkeyed row := by
  obtain ⟨added, hadded⟩ : ∃ added, Extends plainHost "k"
      (run (step plainHost "k") (defaultVault plainHost 0) [denial])
      (run (step plainHost "k") (defaultVault plainHost 0) [denial, denial]) _ added := extends_step denial
  refine rules_prefix_iff plainHost_ideal (by decide) 0 [denial, denial] _ (fun row hrow _ => ?_)
    (ok_after_step plainHost_ideal "k" denial (by decide))
  exact ⟨row, hadded.rows.mem_iff.mpr (List.mem_append_left added hrow), rfl⟩

/-- A rule written by somebody without a key. -/
def unkeyedAllowance : Request where
  command := .primeSign (some "allow:*") none true
  readings _ := ⟨0, 0, 0⟩

/-- What is signed without a key verifies under every key. -/
theorem verifyEntrySignature_unkeyed {host : Host} (ideal : IdealHost host) {key key' : String}
    {append : Append} {entry : Json} (hkey : signingKeyPresent key = false)
    (h : WrittenFor host key append entry) :
    Unkeyed entry ∧ verifyEntrySignature host key' entry = true := by
  have hsigned : signatureOf entry =
      "unsigned:" ++ host.digest (canonicalSignaturePayload entry) := by
    obtain ⟨head, idMs, tsMs, rfl⟩ := h
    rw [signatureOf_newEntry ideal, signatureForEntry, if_neg (by simp [hkey])]
  refine ⟨⟨_, hsigned⟩, ?_⟩
  rw [verifyEntrySignature_of_unsigned hsigned]
  simp [eqIgnoreAsciiCase]

/-- Beside an empty vault under the key `k`, a vault with one rule signed without a key
passes the check. -/
theorem unkeyed_rule_passes :
    (∀ row ∈ rawRows (step plainHost "" (defaultVault plainHost 0) unkeyedAllowance), ¬ Keyed row) ∧
      (directiveVaultIntegrity plainHost "k"
        (step plainHost "" (defaultVault plainHost 0) unkeyedAllowance)).ok = true ∧
      ¬ (rulesInChainOrder (step plainHost "" (defaultVault plainHost 0) unkeyedAllowance)).map
          ruleOf <+: (rulesInChainOrder (defaultVault plainHost 0)).map ruleOf := by
  have hstart : Records plainHost "" (defaultVault plainHost 0) [] := records_defaultVault 0
  obtain ⟨added, hadded⟩ : ∃ added, Extends plainHost "" (defaultVault plainHost 0)
      (step plainHost "" (defaultVault plainHost 0) unkeyedAllowance)
      (appendsOf "" (defaultVault plainHost 0) unkeyedAllowance.command) added :=
    extends_step unkeyedAllowance
  have hlog := hstart.extend plainHost_ideal hadded
  rw [List.nil_append] at hlog
  have hunkeyed {entry : Json} (hentry : entry ∈ added) :
      Unkeyed entry ∧ verifyEntrySignature plainHost "k" entry = true := by
    obtain ⟨append, hwritten⟩ := hlog.written entry hentry
    exact verifyEntrySignature_unkeyed plainHost_ideal (by decide) hwritten
  have hstructured : ∀ entry ∈ added, isStructuredDirectiveEntry entry = true :=
    (hstart.structured_iff plainHost_ideal hadded).mpr (by decide)
  refine ⟨fun row hrow hkeyed => ?_, ?_, fun hinitial => ?_⟩
  · exact hkeyed.not_unkeyed (hunkeyed (hlog.rows.mem_iff.mp hrow)).1
  · exact (hlog.ok_iff plainHost_ideal fun entry hentry => (hunkeyed hentry).2).mpr hstructured
  · rw [hstart.rulesInChainOrder_eq plainHost_ideal, hlog.rulesInChainOrder_eq plainHost_ideal, List.filter_eq_self.mpr hstructured] at hinitial
    have hnil : added = [] := by simpa using hinitial
    have hlength := hadded.written.length_eq
    rw [hnil] at hlength
    exact absurd hlength (by decide)

end Protheus.Directive
