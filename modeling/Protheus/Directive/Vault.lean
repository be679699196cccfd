import Protheus.Lib.Chain
import Protheus.V8Kernel
import Std.Data.ExtTreeMap

/-!
The directive vault of `directive_kernel.rs`: entries, their signatures and hashes,
`directive_vault_integrity` and `evaluate_action`.

The vault is the value `load_vault` gives; the file is written whole or not at all.
An entry names the hash of the entry before it, carries a signature of ten of its
fields and a hash of all of them.  `verify_entry_signature` takes two kinds of
signature: one keyed with `DIRECTIVE_KERNEL_SIGNING_KEY`, and one anybody can compute.
-/

namespace Protheus.Directive

open V8Kernel
open Std (ExtTreeMap)

def defaultVault (host : Host) (createdMs : ℕ) : Json :=
  Json.ofFields
    [("version", .str "1.0"), ("prime", .arr []), ("derived", .arr []),
      ("chain_head", .str "genesis"), ("created_at", .str (host.nowIso createdMs)),
      ("migrations", .arr [])]

/-! ## Fields -/

/-- `entry.get(name).cloned().unwrap_or(Value::Null)`. -/
def field (entry : Json) (name : String) : Json := (entry.get? name).getD .null

/-- `entry.get(name).and_then(Value::as_str)`. -/
def text? (entry : Json) (name : String) : Option String := (entry.get? name).bind Json.asStr

/-- `vault.get(name).and_then(Value::as_array)`, or no rows. -/
def rowsOf (vault : Json) (name : String) : List Json := ((vault.get? name).bind Json.asArray).getD []

def primeRows (vault : Json) : List Json := rowsOf vault "prime"

def derivedRows (vault : Json) : List Json := rowsOf vault "derived"

def chainHead (vault : Json) : String := (text? vault "chain_head").getD "genesis"

/-! ## Rules -/

def normalizeRule (raw : String) : String × String :=
  let cleaned := RustStd.toAsciiLowercase (clean raw 512)
  match RustStd.stripPrefix cleaned "deny:" with
  | some v => ("deny", clean v 320)
  | none =>
    match RustStd.stripPrefix cleaned "allow:" with
    | some v => ("allow", clean v 320)
    | none => if RustStd.strContains cleaned "deny" then ("deny", cleaned) else ("allow", cleaned)

def matchesPattern (action pattern : String) : Bool :=
  if pattern.isEmpty || pattern == "*" || pattern == "all" then true
  else if pattern.toList.contains '*' then
    ((RustStd.splitChar '*' pattern).map RustStd.trim |>.filter (!·.isEmpty)).all
      (RustStd.strContains action)
  else RustStd.strContains action pattern

/-! ## Signatures and hashes -/

/-- The fields a signature covers. -/
def signedNames : List String :=
  ["id", "directive", "rule_kind", "rule_pattern", "signer", "source", "parent_id", "supersedes",
    "ts", "prev_hash"]

def canonicalSignaturePayload (entry : Json) : Json :=
  Json.ofFields (signedNames.map fun name => (name, field entry name))

def signingKeyPresent (key : String) : Bool := RustStd.trim key != ""

/-- `signature_for_entry`, under the key of the process. -/
def signatureForEntry (host : Host) (key : String) (entry : Json) : String :=
  let payload := canonicalSignaturePayload entry
  if signingKeyPresent key then "sig:" ++ keyedDigestHex host key payload
  else "unsigned:" ++ host.digest payload

/-- The signature an entry carries. -/
def signatureOf (entry : Json) : String := RustStd.trim ((text? entry "signature").getD "")

def verifyEntrySignature (host : Host) (key : String) (entry : Json) : Bool :=
  let payload := canonicalSignaturePayload entry
  match RustStd.stripPrefix (signatureOf entry) "unsigned:" with
  | some raw => eqIgnoreAsciiCase raw (host.digest payload)
  | none =>
    match RustStd.stripPrefix (signatureOf entry) "sig:" with
    | some raw => signingKeyPresent key && eqIgnoreAsciiCase raw (keyedDigestHex host key payload)
    | none => false

def requiredNames : List String :=
  ["id", "directive", "rule_kind", "rule_pattern", "signer", "source", "prev_hash", "signature",
    "entry_hash", "ts"]

def isStructuredDirectiveEntry (entry : Json) : Bool :=
  entry.isObject && requiredNames.all fun name =>
    ((text? entry name).map fun v => RustStd.trim v != "").getD false

/-- `canonical_entry_for_hash`. -/
def canonicalEntryForHash : Json → Json
  | .obj fields => .obj (fields.filter fun f => f.1 != "entry_hash")
  | other => other

theorem get?_canonicalEntryForHash (entry : Json) {name : String} (h : name ≠ "entry_hash") :
    (canonicalEntryForHash entry).get? name = entry.get? name := by
  cases entry with
  | obj fields => exact Json.lookup_filter_ne h
  | _ => rfl

def recomputeEntryHash (host : Host) (entry : Json) : String :=
  host.digest (canonicalEntryForHash entry)

def entryHash (entry : Json) : String := RustStd.trim ((text? entry "entry_hash").getD "")

def prevHash (entry : Json) : String := (text? entry "prev_hash").getD "genesis"

/-- Whether an entry carries its own hash. -/
def hashValid (host : Host) (entry : Json) : Bool :=
  !(entryHash entry).isEmpty && eqIgnoreAsciiCase (entryHash entry) (recomputeEntryHash host entry)

def isEntryActive (entry : Json) : Bool := ((entry.get? "accepted").bind Json.asBool).getD true

def collectRules (vault : Json) : List Json :=
  (primeRows vault ++ derivedRows vault).filter fun row =>
    isEntryActive row && isStructuredDirectiveEntry row

/-! ## Integrity -/

/-- What the loop over the entries has found. -/
structure Checked where
  signatureValidCount : ℕ := 0
  hashValidCount : ℕ := 0
  errors : List String := []
  byHash : ExtTreeMap String Json := ∅

/-- One turn of the loop. -/
def checkRow (host : Host) (key : String) (found : Checked) (entry : Json × ℕ) : Checked :=
  let (row, idx) := entry
  let found :=
    if verifyEntrySignature host key row then
      { found with signatureValidCount := found.signatureValidCount + 1 }
    else { found with errors := found.errors ++ ["signature_invalid_at:" ++ toString idx] }
  if hashValid host row then
    { found with
      hashValidCount := found.hashValidCount + 1
      errors := found.errors ++
        if found.byHash.contains (entryHash row) then ["duplicate_entry_hash:" ++ entryHash row] else []
      byHash := found.byHash.insert (entryHash row) row }
  else { found with errors := found.errors ++ ["entry_hash_mismatch_at:" ++ toString idx] }

/-- The entries an integrity check looks at. -/
def structuredRows (vault : Json) : List Json :=
  (primeRows vault ++ derivedRows vault).filter isStructuredDirectiveEntry

/-- The entries from the chain head back, as far as they go. -/
def traverse (byHash : ExtTreeMap String Json) (head : String) :
    List Json × Chain.WalkEnd String :=
  Chain.walk prevHash "genesis" (byHash[·]?) (byHash.size + 1) [] head

/-- The errors of a traversal of a vault with so many entries; none when it is valid. -/
def traversalErrors (entryCount : ℕ) (walked : List Json × Chain.WalkEnd String) : List String :=
  let ended := match walked.2 with
    | .root => []
    | .cycle => ["chain_cycle_detected"]
    | .missing cursor => ["chain_head_missing_entry:" ++ cursor]
  let counted :=
    if walked.1.length ≠ entryCount then
      ["chain_length_mismatch:traversed=" ++ toString walked.1.length ++ ":entries=" ++
        toString entryCount]
    else []
  ended ++ counted

def chainErrors (rows : List Json) (byHash : ExtTreeMap String Json) (head : String) :
    List String :=
  if rows.isEmpty then
    if head ≠ "genesis" then ["non_genesis_chain_head_for_empty_vault"] else []
  else if head = "genesis" then ["missing_chain_head"]
  else traversalErrors rows.length (traverse byHash head)

structure Integrity where
  ok : Bool
  rawEntryCount : ℕ
  entryCount : ℕ
  ignoredLegacyEntryCount : ℕ
  signatureValidCount : ℕ
  hashValidCount : ℕ
  chainValid : Bool
  chainHead : String
  errors : List String

def directiveVaultIntegrity (host : Host) (key : String) (vault : Json) : Integrity :=
  let rawRows := primeRows vault ++ derivedRows vault
  let rows := structuredRows vault
  let found := rows.zipIdx.foldl (checkRow host key) {}
  let chain := chainErrors rows found.byHash (chainHead vault)
  { ok := rows.length == found.signatureValidCount && rows.length == found.hashValidCount &&
      chain.isEmpty
    rawEntryCount := rawRows.length
    entryCount := rows.length
    ignoredLegacyEntryCount := rawRows.length - rows.length
    signatureValidCount := found.signatureValidCount
    hashValidCount := found.hashValidCount
    chainValid := chain.isEmpty
    chainHead := chainHead vault
    errors := found.errors ++ chain }

/-! ## Decisions -/

/-- A rule that matched. -/
structure Hit where
  id : Json
  ruleKind : String
  rulePattern : String
  signer : Json

/-- What `evaluate_action` answers; the source lists the superseded identifiers in no
particular order. -/
structure Evaluation where
  allowed : Bool
  action : String
  denyHits : List Hit
  allowHits : List Hit
  invalidSignatureHits : List Json
  supersededIds : List String
  integrity : Integrity
  policyHash : String

def directiveVaultHash (host : Host) (vault : Json) : String := host.digest vault

/-- What an entry supersedes; the empty text when it supersedes nothing. -/
def supersedesOf (row : Json) : String := ((text? row "supersedes").map (clean · 128)).getD ""

def supersededIds (host : Host) (key : String) (rules : List Json) : List String :=
  ((rules.filter (verifyEntrySignature host key)).map supersedesOf).filter (· ≠ "")

def rowId (row : Json) : String := ((text? row "id").map (clean · 128)).getD ""

def isSuperseded (superseded : List String) (row : Json) : Bool :=
  rowId row != "" && superseded.contains (rowId row)

def ruleKind (row : Json) : String := RustStd.toAsciiLowercase ((text? row "rule_kind").getD "allow")

def rulePattern (row : Json) : String :=
  RustStd.toAsciiLowercase ((text? row "rule_pattern").getD "")

def hitOf (row : Json) : Hit where
  id := field row "id"
  ruleKind := ruleKind row
  rulePattern := rulePattern row
  signer := field row "signer"

/-- The rules that have a say: neither superseded nor with a bad signature, and
matching. -/
def matching (host : Host) (key : String) (rules : List Json) (action : String) : List Json :=
  rules.filter fun row =>
    !isSuperseded (supersededIds host key rules) row && verifyEntrySignature host key row &&
      matchesPattern action (rulePattern row)

def normalizeAction (action : String) : String := RustStd.toAsciiLowercase (clean action 320)

def evaluateAction (host : Host) (key : String) (vault : Json) (action : String) : Evaluation :=
  let integrity := directiveVaultIntegrity host key vault
  let action := normalizeAction action
  if !integrity.ok then
    { allowed := false
      action
      denyHits := [{ id := .str "integrity", ruleKind := "deny", rulePattern := "vault_integrity",
                     signer := .null }]
      allowHits := []
      invalidSignatureHits := []
      supersededIds := []
      integrity
      policyHash := directiveVaultHash host vault }
  else
    let rules := collectRules vault
    let superseded := supersededIds host key rules
    let hits := matching host key rules action
    let denyHits := (hits.filter fun row => ruleKind row == "deny").map hitOf
    let allowHits := (hits.filter fun row => ruleKind row != "deny").map hitOf
    { allowed := denyHits.isEmpty && !allowHits.isEmpty
      action, denyHits, allowHits
      invalidSignatureHits :=
        (rules.filter fun row =>
          !isSuperseded superseded row && !verifyEntrySignature host key row).map fun row =>
            Json.ofFields [("id", field row "id"), ("signer", field row "signer"),
              ("reason", .str "invalid_signature")]
      supersededIds := superseded
      integrity
      policyHash := directiveVaultHash host vault }

/-! ## Appends -/

/-- The arguments of `append_directive_entry`. -/
structure Append where
  bucket : String
  directiveText : String
  signer : String
  parentId : Option String := none
  supersedes : Option String := none
  source : String

/-- The identifier of a new entry. -/
def newId (host : Host) (append : Append) (idMs : ℕ) : String :=
  let digest := host.sha256HexStr (host.nowIso idMs ++ ":" ++ append.directiveText ++ ":" ++
    append.signer)
  "dir_" ++ String.ofList (digest.toList.take 16)

/-- The fields of a new entry before it is signed; `idMs` and `tsMs` are the clock
readings for its identifier and its time stamp. -/
def entryFields (host : Host) (head : String) (append : Append) (idMs tsMs : ℕ) :
    List (String × Json) :=
  let rule := normalizeRule append.directiveText
  [("id", .str (newId host append idMs)),
    ("directive", .str (clean append.directiveText 512)),
    ("rule_kind", .str rule.1), ("rule_pattern", .str rule.2),
    ("signer", .str (clean append.signer 128)), ("source", .str (clean append.source 128)),
    ("parent_id", .str (append.parentId.getD "")),
    ("supersedes", .str (append.supersedes.getD "")), ("accepted", .bool true),
    ("ts", .str (host.nowIso tsMs)), ("prev_hash", .str head)]

/-- The new entry, signed but not yet hashed. -/
def signedEntry (host : Host) (key head : String) (append : Append) (idMs tsMs : ℕ) : Json :=
  let payload := Json.ofFields (entryFields host head append idMs tsMs)
  payload.setField "signature" (.str (signatureForEntry host key payload))

def newEntry (host : Host) (key head : String) (append : Append) (idMs tsMs : ℕ) : Json :=
  let payload := signedEntry host key head append idMs tsMs
  payload.setField "entry_hash" (.str (host.digest payload))

/-- `vault_obj_mut`. -/
def vaultObjMut (host : Host) (createdMs : ℕ) (vault : Json) : Json :=
  if vault.isObject then vault else defaultVault host createdMs

/-- `ensure_array(obj, name).push(row)`. -/
def pushRow (vault : Json) (name : String) (row : Json) : Json :=
  vault.setField name (.arr (rowsOf vault name ++ [row]))

/-- The three clock readings of an append. -/
structure Readings where
  createdMs : ℕ
  idMs : ℕ
  tsMs : ℕ

/-- `append_directive_entry`: the entry, and the vault it writes. -/
def appendDirectiveEntry (host : Host) (key : String) (vault : Json) (append : Append)
    (readings : Readings) : Json × Json :=
  let vault := vaultObjMut host readings.createdMs vault
  let entry := newEntry host key (chainHead vault) append readings.idMs readings.tsMs
  (entry, (pushRow vault append.bucket entry).setField "chain_head"
    (.str ((text? entry "entry_hash").getD "")))

/-! ## Commands -/

def resolveParent (vault : Json) (hint : String) : Option Json :=
  let norm := clean hint 512
  if norm = "" then none
  else (primeRows vault ++ derivedRows vault).find? fun row =>
    text? row "id" == some norm || text? row "directive" == some norm

def hasInheritanceConflict (parent : Json) (childRuleKind childPattern : String) : Bool :=
  if ruleKind parent != "deny" || childRuleKind != "allow" then false
  else childPattern == rulePattern parent || matchesPattern childPattern (rulePattern parent) ||
    matchesPattern (rulePattern parent) childPattern

/-- The directives of the legacy documents: the items of their lists. -/
def harvest (documents : List String) : List String :=
  let items := documents.flatMap fun raw =>
    (RustStd.splitChar '\n' raw).filterMap fun line =>
      let trimmed := RustStd.trim line
      if trimmed.toList.head? = some '-' ∨ trimmed.toList.head? = some '*' then
        let cleaned := RustStd.trim (String.ofList
          ((trimmed.toList.dropWhile (· == '-')).dropWhile (· == '*')))
        if cleaned = "" then none else some (clean cleaned 512)
      else none
  (items.insertionSort (· ≤ ·)).destutter (· ≠ ·)

/-- A command that may append; `migrate` gets the legacy documents that are there. -/
inductive Command where
  | primeSign (directive signer : Option String) (allowUnsigned : Bool)
  | derive (parent directive signer : Option String) (allowUnsigned : Bool)
  | supersede (target directive signer : Option String) (allowUnsigned : Bool)
  | migrate (documents : List String) (apply allowUnsigned : Bool)
  | compaction (directiveText signer : String) (parentId : Option String) (source : String)

structure Request where
  command : Command
  /-- The clock at each append of the command, and at its end. -/
  readings : ℕ → Readings

/-- What a command appends, if it gets that far. -/
def appendsOf (key : String) (vault : Json) : Command → List Append
  | .primeSign directive signer allowUnsigned =>
    if !allowUnsigned && !signingKeyPresent key then []
    else
      [{ bucket := "prime", directiveText := directive.getD "deny:unsafe_action"
         signer := signer.getD "operator", source := "operator_sign" }]
  | .derive parent directive signer allowUnsigned =>
    let directive := directive.getD "allow:bounded_autonomy"
    if !allowUnsigned && !signingKeyPresent key then []
    else
      match resolveParent vault (parent.getD "") with
      | none => []
      | some parent =>
        let (childKind, childPattern) := normalizeRule directive
        if hasInheritanceConflict parent childKind childPattern then []
        else
          [{ bucket := "derived", directiveText := directive, signer := signer.getD "system"
             parentId := some ((text? parent "id").getD ""), source := "derived_engine" }]
  | .supersede target directive signer allowUnsigned =>
    if !allowUnsigned && !signingKeyPresent key then []
    else
      match resolveParent vault (target.getD "") with
      | none => []
      | some target =>
        let targetId := (text? target "id").getD ""
        if targetId = "" then []
        else
          [{ bucket := "derived", directiveText := directive.getD "deny:unsafe_action"
             signer := signer.getD "operator", parentId := some targetId
             supersedes := some targetId, source := "supersession" }]
  | .migrate documents apply allowUnsigned =>
    if !apply || (!allowUnsigned && !signingKeyPresent key) then []
    else (harvest documents).map fun directive =>
      { bucket := "prime", directiveText := directive, signer := "migration"
        source := "legacy_markdown" }
  | .compaction directiveText signer parentId source =>
    [{ bucket := "derived", directiveText, signer, parentId, source }]

/-- Appends one entry after another. -/
def appendAll (host : Host) (key : String) (readings : ℕ → Readings) (vault : Json)
    (appends : List Append) : Json :=
  appends.zipIdx.foldl
    (fun vault entry => (appendDirectiveEntry host key vault entry.1 (readings entry.2)).2) vault

/-- The end of `derive`: the last derived entry is written once more, as accepted. -/
def acceptLastDerived (host : Host) (createdMs : ℕ) (vault : Json) : Json :=
  let vault := vaultObjMut host createdMs vault
  match (derivedRows vault).getLast? with
  | none => vault
  | some last =>
    vault.setField "derived"
      (.arr ((derivedRows vault).dropLast ++ [last.setField "accepted" (.bool true)]))

/-- The end of `migrate --apply`: a record of the import. -/
def recordMigration (host : Host) (readings : Readings) (count : ℕ) (vault : Json) : Json :=
  pushRow (vaultObjMut host readings.createdMs vault) "migrations"
    (Json.ofFields [("ts", .str (host.nowIso readings.tsMs)),
      ("type", .str "legacy_markdown_import"), ("count", Json.ofNat count)])

/-- The vault after a command. -/
def step (host : Host) (key : String) (vault : Json) (request : Request) : Json :=
  let appends := appendsOf key vault request.command
  let appended := appendAll host key request.readings vault appends
  let last := request.readings appends.length
  match request.command with
  | .derive .. =>
    if appends.isEmpty then vault else acceptLastDerived host last.createdMs appended
  | .migrate _ apply allowUnsigned =>
    if !apply || (!allowUnsigned && !signingKeyPresent key) then vault
    else recordMigration host last appends.length appended
  | _ => appended

end Protheus.Directive
