import Protheus.Security.StartupAttestation

/-!
Runs of the startup attestation.

What `issue` stores is read back as it was signed, and a state under a right signature says what was
signed, whatever else it looks like (`expectedMap_of_same`).  So a state that is let through has the rows
of an issue of the run, and nothing has drifted where the files are those of that issue.
-/

namespace Protheus.Security.StartupAttestation

open RustStd
open V8Kernel (clean clean_eq_self)

/-! ## What is signed -/

section Payload

variable (host : Host) (call : Call)

theorem nodup_payloadFields : ((payloadFields host call).map Prod.fst).Nodup := by
  have hkeys : (payloadFields host call).map Prod.fst = ["type", "version", "ts", "expires_at", "ttl_hours",
      "policy_path", "critical_hashes", "missing_paths"] := rfl
  rw [hkeys]
  decide

variable {host call} in
theorem payload_get? {name : String} {value : Json} (h : (name, value) ∈ payloadFields host call) :
    (payload host call).get? name = some value :=
  Json.get?_ofFields_mem (nodup_payloadFields host call) h

theorem HashRow.storable_toJson (row : HashRow) : Storable row.toJson ∧ row.toJson.depth ≤ 1 := by
  have hfields (f : String × Json) (hf : f ∈ [("path", Json.str row.path), ("sha256", .str row.sha256),
      ("size_bytes", .ofNat row.sizeBytes)]) : Storable f.2 ∧ f.2.depth ≤ 0 := by
    simp only [List.mem_cons, List.not_mem_nil, or_false] at hf
    obtain rfl | rfl | rfl := hf
    · exact ⟨storable_str _, le_rfl⟩
    · exact ⟨storable_str _, le_rfl⟩
    · exact ⟨storable_ofNat _, le_rfl⟩
  refine ⟨storable_ofFields fun f hf => ?_, Json.depth_ofFields_le fun f hf => (hfields f hf).2⟩
  exact ⟨(hfields f hf).1, (hfields f hf).2.trans (Nat.zero_le 126)⟩

theorem storable_payloadFields :
    ∀ f ∈ payloadFields host call, Storable f.2 ∧ f.2.depth ≤ 126 := by
  intro f hf
  have hint (n : ℤ) : (Json.ofInt n).depth = 0 := by
    unfold Json.ofInt
    split <;> rfl
  simp only [payloadFields, List.mem_cons, List.not_mem_nil, or_false] at hf
  obtain rfl | rfl | rfl | rfl | rfl | rfl | rfl | rfl := hf
  case inr.inr.inr.inr.inl => exact ⟨storable_ofInt _, (hint _).le.trans (Nat.zero_le 126)⟩
  case inr.inr.inr.inr.inr.inr.inl =>
    have hrow (item : Json) (hitem : item ∈ (hashRows host call).map HashRow.toJson) :
        Storable item ∧ item.depth ≤ 1 := by
      obtain ⟨row, -, rfl⟩ := List.mem_map.mp hitem
      exact row.storable_toJson
    refine ⟨storable_arr (fun item h => (hrow item h).1) fun item h => (hrow item h).2.trans ?_,
      Json.depth_arr_le.mpr fun item h => (hrow item h).2.trans ?_⟩
    · decide
    · decide
  case inr.inr.inr.inr.inr.inr.inr =>
    have hpath (item : Json) (hitem : item ∈ (missingPaths call).map Json.str) :
        Storable item ∧ item.depth ≤ 0 := by
      obtain ⟨path, -, rfl⟩ := List.mem_map.mp hitem
      exact ⟨storable_str path, le_rfl⟩
    refine ⟨storable_arr (fun item h => (hpath item h).1) fun item h => (hpath item h).2.trans ?_,
      Json.depth_arr_le.mpr fun item h => (hpath item h).2.trans ?_⟩
    · decide
    · decide
  all_goals exact ⟨storable_str _, Nat.zero_le 126⟩

theorem distinct_payload : (payload host call).Distinct :=
  (storable_ofFields (storable_payloadFields host call)).distinct

/-- What is stored is read back as it was. -/
theorem storable_signed (key : String) : Storable (signed host key call) := by
  have hmem (f : String × Json) (hf : f ∈ Json.insertField "signature"
      (.str (hmacSha256Hex host key (payload host call)))
        (Json.insertFields (payloadFields host call) [])) : Storable f.2 ∧ f.2.depth ≤ 126 := by
    obtain rfl | hf := Json.mem_insertField hf
    · exact ⟨storable_str _, Nat.zero_le 126⟩
    · obtain hf | hf := Json.mem_insertFields hf
      · exact storable_payloadFields host call f hf
      · cases hf
  exact storable_obj (pairwise_insertField (pairwise_insertFields List.Pairwise.nil))
    (fun f hf => (hmem f hf).1) fun f hf => (hmem f hf).2

/-- Taking the signature off what is stored leaves what was signed. -/
theorem withoutSignature_signed (key : String) :
    withoutSignature (signed host key call) = payload host call := by
  have hfresh : "signature" ∉ (Json.insertFields (payloadFields host call) []).map Prod.fst := by
    intro hmem
    obtain ⟨f, hf, hkey⟩ := List.mem_map.mp hmem
    have hkeys : "signature" ∉ (payloadFields host call).map Prod.fst := by
      simp [payloadFields]
    obtain hf | hf := Json.mem_insertFields hf
    · exact hkeys (hkey ▸ List.mem_map_of_mem hf)
    · cases hf
  exact congrArg Json.obj (Json.filter_insertField hfresh)

theorem expectedRows_payload :
    expectedRows (payload host call) = (hashRows host call).map HashRow.toJson := by
  rw [expectedRows, @payload_get? host call "critical_hashes"
    (.arr ((hashRows host call).map HashRow.toJson)) (by simp [payloadFields])]
  rfl

theorem text?_type_payload : text? (payload host call) "type" = some "startup_attestation" := by
  rw [text?, @payload_get? host call "type" (.str "startup_attestation") (by simp [payloadFields])]
  rfl

end Payload

/-! ## What a state says -/

/-- Taking the signature off leaves the other fields. -/
theorem get?_withoutSignature {state : Json} {name : String} (h : name ≠ "signature") :
    (withoutSignature state).get? name = state.get? name := by
  cases state with
  | obj fields => exact Json.lookup_filter_ne h
  | _ => rfl

theorem expectedRows_withoutSignature (state : Json) :
    expectedRows (withoutSignature state) = expectedRows state := by
  rw [expectedRows, expectedRows, get?_withoutSignature (by decide)]

theorem expiry_withoutSignature (host : Host) (state : Json) :
    expiry host (withoutSignature state) = expiry host state := by
  rw [expiry, expiry, text?, text?, get?_withoutSignature (by decide)]

theorem expiry_of_same (host : Host) {v w : Json} (hv : v.Distinct) (hw : w.Distinct)
    (h : Json.same v w = true) : expiry host v = expiry host w := by
  rw [expiry, expiry, text?, text?, Json.asStr_get?_of_same hv hw h]

theorem distinct_expectedRows {v : Json} (h : v.Distinct) : ∀ row ∈ expectedRows v, row.Distinct := by
  intro row hrow
  rw [expectedRows] at hrow
  cases v with
  | obj fields =>
    cases hget : fields.lookup "critical_hashes" with
    | none =>
      rw [Json.get?, hget] at hrow
      cases hrow
    | some held =>
      rw [Json.get?, hget] at hrow
      have hheld := Json.distinct_of_lookup h.2 hget
      cases held with
      | arr items => exact distinctItems_iff.mp hheld row hrow
      | _ => cases hrow
  | _ => cases hrow

theorem expectedRows_sorted {v : Json} (h : v.Distinct) :
    expectedRows v.sorted = (expectedRows v).map Json.sorted := by
  rw [expectedRows, expectedRows, Json.get?_sorted h]
  cases v.get? "critical_hashes" with
  | none => rfl
  | some held =>
    cases held with
    | arr items => exact sortedItems_eq_map items
    | _ => rfl

theorem expectRow_sorted {row : Json} (h : row.Distinct) (map : Std.ExtTreeMap String String) :
    expectRow map row.sorted = expectRow map row := by
  have htext (name : String) : text? row.sorted name = text? row name := by
    rw [text?, text?, Json.get?_sorted h]
    cases row.get? name with
    | none => rfl
    | some value => exact Json.asStr_sorted value
  rw [expectRow, expectRow, htext, htext]

theorem expectedMap_sorted {rows : List Json} (h : ∀ row ∈ rows, row.Distinct) :
    expectedMap (rows.map Json.sorted) = expectedMap rows := by
  have hfold (map : Std.ExtTreeMap String String) :
      (rows.map Json.sorted).foldl expectRow map = rows.foldl expectRow map := by
    induction rows generalizing map with
    | nil => rfl
    | cons row rows ih =>
      rw [List.map_cons, List.foldl_cons, List.foldl_cons, expectRow_sorted (h row List.mem_cons_self)]
      exact ih (fun r hr => h r (List.mem_cons_of_mem row hr)) _
  exact hfold ∅

/-- The same values expect the same files. -/
theorem expectedMap_of_same {v w : Json} (hv : v.Distinct) (hw : w.Distinct) (h : Json.same v w = true) :
    expectedMap (expectedRows v) = expectedMap (expectedRows w) := by
  have hsorted := congrArg (fun u => expectedMap (expectedRows u)) ((Json.same_iff hv hw).mp h)
  simpa only [expectedRows_sorted hv, expectedRows_sorted hw, expectedMap_sorted (distinct_expectedRows hv),
    expectedMap_sorted (distinct_expectedRows hw)] using hsorted

/-! ## Verify -/

variable {host : Host}

/-- A state is under a right signature of the key. -/
def Sealed (host : Host) (key : String) (state : Json) : Prop :=
  Leases.secureEqHex (signatureOf state) (hmacSha256Hex host key (withoutSignature state)) = true

/-- What has to hold of a state for `verify` to be ok. -/
structure Accepted (host : Host) (call : Call) (key : String) (state : Json) : Prop where
  object : state.isObject = true
  type : text? state "type" = some "startup_attestation"
  expiry : call.nowMs < expiry host state
  signature : signatureOf state ≠ ""
  mac : Sealed host key state
  drift : driftRows (expectedMap (expectedRows state)) (hashRows host call) = []

theorem verify_ok_iff {call : Call} {stored : Option String} : (verify host call stored).ok = true ↔
    ∃ key, call.secret = some key ∧ Accepted host call key (readState host stored) := by
  unfold verify
  dsimp only
  cases hobject : (readState host stored).isObject with
  | false => exact iff_of_false (fun h => by cases h) fun ⟨_, _, h⟩ => by cases hobject.symm.trans h.object
  | true =>
    by_cases htype : text? (readState host stored) "type" = some "startup_attestation"
    swap
    · rw [if_pos (by simp [htype])]
      exact iff_of_false (fun h => by cases h) fun ⟨_, _, h⟩ => htype h.type
    rw [if_neg (by simp [htype])]
    cases hkey : call.secret with
    | none => exact iff_of_false (fun h => by cases h) fun ⟨_, h, _⟩ => by cases h
    | some key =>
      dsimp only
      by_cases hexpiry : expiry host (readState host stored) ≤ call.nowMs
      · rw [if_pos hexpiry]
        exact iff_of_false (fun h => by cases h) fun ⟨_, _, h⟩ => absurd h.expiry (not_lt.mpr hexpiry)
      rw [if_neg hexpiry]
      by_cases hsignature : signatureOf (readState host stored) = ""
      · rw [if_pos hsignature]
        exact iff_of_false (fun h => by cases h) fun ⟨_, _, h⟩ => h.signature hsignature
      rw [if_neg hsignature]
      by_cases hseal : Sealed host key (readState host stored)
      swap
      · rw [if_pos (by simpa [Sealed] using hseal)]
        refine iff_of_false (fun h => by cases h) fun ⟨_, hsame, h⟩ => hseal ?_
        exact Option.some.inj hsame ▸ h.mac
      rw [if_neg (by simpa [Sealed] using hseal)]
      by_cases hdrift : driftRows (expectedMap (expectedRows (readState host stored)))
          (hashRows host call) = []
      · rw [if_pos hdrift]
        exact iff_of_true rfl ⟨key, rfl, hobject, htype, not_le.mp hexpiry, hsignature, hseal, hdrift⟩
      · rw [if_neg hdrift]
        exact iff_of_false (fun h => by cases h) fun ⟨_, _, h⟩ => hdrift h.drift

/-- What an issue leaves in the file. -/
def issuedText (host : Host) (key : String) (issuer : Call) : Option String :=
  some (host.toStringPretty (signed host key issuer))

theorem readState_issuedText (libraries : Libraries host) (key : String) (issuer : Call) :
    readState host (issuedText host key issuer) = signed host key issuer := by
  rw [readState, issuedText, Option.bind_some, libraries.stored _ (storable_signed host issuer key)]
  rfl

theorem trim_hmacSha256Hex (key : String) (value : Json) :
    trim (hmacSha256Hex host key value) = hmacSha256Hex host key value :=
  trim_eq_self fun _ hc => SecretBroker.hexEncode_not_whitespace hc

theorem length_hmacSha256Hex (libraries : Libraries host) (key : String) (value : Json) :
    (hmacSha256Hex host key value).length = 64 := by
  rw [hmacSha256Hex, SecretBroker.length_hexEncode, libraries.mac]

theorem signatureOf_signed (libraries : Libraries host) (key : String) (issuer : Call) :
    signatureOf (signed host key issuer) =
      toAsciiLowercase (hmacSha256Hex host key (payload host issuer)) := by
  have htext : text? (signed host key issuer) "signature" =
      some (hmacSha256Hex host key (payload host issuer)) := by
    rw [text?, signed, Json.get?_setField_same rfl]
    rfl
  have hclean : clean (hmacSha256Hex host key (payload host issuer)) 240 =
      hmacSha256Hex host key (payload host issuer) := by
    refine clean_eq_self (trim_hmacSha256Hex key _) ?_
    rw [length_hmacSha256Hex libraries]
    decide
  rw [signatureOf, htext, Option.getD_some, hclean]

/-- What was issued is let through for as long as it lasts and nothing drifts. -/
theorem accepted_signed (libraries : Libraries host) {key : String} {issuer call : Call}
    (hexpiry : call.nowMs < expiry host (payload host issuer))
    (hfound : ∀ path, call.found path = issuer.found path) :
    Accepted host call key (signed host key issuer) := by
  have hread {name : String} (h : name ≠ "signature") :
      (signed host key issuer).get? name = (payload host issuer).get? name := by
    rw [← withoutSignature_signed host issuer key, get?_withoutSignature h]
  refine ⟨rfl, ?_, ?_, ?_, ?_, ?_⟩
  · rw [text?, hread (by decide)]
    exact text?_type_payload host issuer
  · rwa [← expiry_withoutSignature, withoutSignature_signed]
  · intro hempty
    have hlength := congrArg String.length ((signatureOf_signed libraries key issuer).symm.trans hempty)
    rw [toAsciiLowercase, String.length_ofList, List.length_map, String.length_toList,
      length_hmacSha256Hex libraries] at hlength
    cases hlength
  · have hlower := LaneUtils.toAsciiLowercase_trim_idem (hmacSha256Hex host key (payload host issuer))
    rw [trim_hmacSha256Hex] at hlower
    rw [Sealed, signatureOf_signed libraries, withoutSignature_signed, Leases.secureEqHex, hlower,
      trim_hmacSha256Hex]
    exact beq_self_eq_true _
  · rw [← expectedRows_withoutSignature, withoutSignature_signed, expectedRows_payload,
      driftRows_issued libraries]
    intro path
    rw [digestOf, digestOf, hfound]

/-! ## Runs -/

/-- HMAC as an ideal MAC: a state in the file is under a right signature of the caller's key only where
what it says was signed by an issue of the run with that key. -/
def Unforged (host : Host) (events : List Event) (call : Call) (stored : Option String) : Prop :=
  ∀ key, call.secret = some key → Sealed host key (readState host stored) →
    ∃ issuer, .issue issuer ∈ events ∧ issuer.secret = some key ∧
      (withoutSignature (readState host stored)).stableJsonString host.printFloat =
        (payload host issuer).stableJsonString host.printFloat

/-- SHA-256 tells the contents of the critical files apart. -/
def Tells (host : Host) (events : List Event) (call : Call) : Prop :=
  ∀ issuer path then' now, .issue issuer ∈ events → issuer.found path = some then' →
    call.found path = some now → host.sha256HexBytes then' = host.sha256HexBytes now → then' = now

theorem distinct_readState (libraries : Libraries host) (stored : Option String) :
    (readState host stored).Distinct := by
  rw [readState]
  cases hread : stored.bind host.parseJson with
  | none => trivial
  | some value =>
    obtain ⟨text, -, hparse⟩ := Option.bind_eq_some_iff.mp hread
    exact libraries.distinct text value hparse

/-- What is let through was issued, and finds the files of that issue. -/
theorem issued_of_accepted (libraries : Libraries host) {events : List Event} {call : Call}
    {stored : Option String} {key : String} (hmac : Unforged host events call stored)
    (htells : Tells host events call) (hkey : call.secret = some key)
    (h : Accepted host call key (readState host stored)) :
    ∃ issuer, .issue issuer ∈ events ∧ issuer.secret = some key ∧
      Json.same (withoutSignature (readState host stored)) (payload host issuer) = true ∧
      call.nowMs < expiry host (payload host issuer) ∧ ∀ path, call.found path = issuer.found path := by
  obtain ⟨issuer, hissue, hsecret, htext⟩ := hmac key hkey h.mac
  have hdistinct := distinct_withoutSignature (distinct_readState libraries stored)
  have hpayload := distinct_payload host issuer
  have hsame := (Json.stableJsonString_eq_iff libraries.floats hdistinct hpayload).mp htext
  refine ⟨issuer, hissue, hsecret, hsame, ?_, fun path => ?_⟩
  · rw [← expiry_of_same host hdistinct hpayload hsame, expiry_withoutSignature]
    exact h.expiry
  · have hdrift := h.drift
    rw [← expectedRows_withoutSignature, expectedMap_of_same hdistinct hpayload hsame,
      expectedRows_payload, driftRows_issued libraries] at hdrift
    have hdigest := hdrift path
    rw [digestOf, digestOf] at hdigest
    cases hnow : call.found path with
    | none =>
      rw [hnow, Option.map_none, eq_comm, Option.map_eq_none_iff] at hdigest
      exact hdigest.symm
    | some now =>
      rw [hnow, Option.map_some, eq_comm, Option.map_eq_some_iff] at hdigest
      obtain ⟨then', hthen, hsha⟩ := hdigest
      rw [hthen, htells issuer path then' now hissue hthen hnow hsha]

/-- **The attestation detects drift.**  After every run, `verify` is ok only where what the file says was
signed by an issue of the run with the same key and is in time, and the critical files are those of that
issue.  After an issue it is ok for as long as the attestation lasts, what was stored is still there, and
the critical files are the same. -/
theorem attestation_detects_drift (libraries : Libraries host) (start : Option String)
    (events : List Event) (call : Call) :
    (Unforged host events call (Runs.run (step host) start events) → Tells host events call →
      (verify host call (Runs.run (step host) start events)).ok = true → ∃ issuer key,
        .issue issuer ∈ events ∧ issuer.secret = some key ∧ call.secret = some key ∧
        Json.same (withoutSignature (readState host (Runs.run (step host) start events)))
          (payload host issuer) = true ∧
        call.nowMs < expiry host (payload host issuer) ∧ ∀ path, call.found path = issuer.found path) ∧
    ∀ earlier issuer later key, events = earlier ++ .issue issuer :: later →
      issuer.secret = some key → issuer.writeError = none → call.secret = some key →
      Runs.run (step host) start events = Runs.run (step host) start (earlier ++ [.issue issuer]) →
      call.nowMs < expiry host (payload host issuer) →
      call.policy.criticalPaths = issuer.policy.criticalPaths →
      (∀ path ∈ issuer.policy.criticalPaths, call.read path = issuer.read path) →
      (verify host call (Runs.run (step host) start events)).ok = true := by
  constructor
  · intro hmac htells hok
    obtain ⟨key, hkey, haccepted⟩ := verify_ok_iff.mp hok
    obtain ⟨issuer, hissue, hsecret, hrest⟩ := issued_of_accepted libraries hmac htells hkey haccepted
    exact ⟨issuer, key, hissue, hsecret, hkey, hrest⟩
  · intro earlier issuer later key hevents hsecret hwrite hkey hkept hexpiry hpaths hread
    have hfound (path : String) : call.found path = issuer.found path := by
      rw [Call.found, Call.found, hpaths]
      exact if_ctx_congr Iff.rfl (hread path) fun _ => rfl
    have hstep (stored : Option String) :
        step host stored (.issue issuer) = issuedText host key issuer := by
      rw [step, hsecret, hwrite]
      rfl
    rw [hkept, Runs.run_append, Runs.run_cons, Runs.run_nil, hstep]
    refine verify_ok_iff.mpr ⟨key, hkey, ?_⟩
    rw [readState_issuedText libraries]
    exact accepted_signed libraries hexpiry hfound

/-! ### A file that is left alone -/

/-- The value that a text was written from. -/
noncomputable def readValue (text : String) : Option Json :=
  open Classical in
  if h : ∃ value : Json, value.Distinct ∧ V8Kernel.plainHost.toText value = text then some h.choose else none

/-- A host with one digest, that of an empty file, one MAC and one expiry, a day after the epoch. -/
noncomputable def plainStartup : Host where
  hmacSha256 _ _ := List.replicate 32 0
  sha256HexBytes _ := "e3b0c44298fc1c149afbf4c8996fb92427ae41e4649b934ca495991b7852b855"
  printFloat := V8Kernel.plainHost.printFloat
  toStringPretty := V8Kernel.plainHost.toText
  parseJson := readValue
  isoMillis _ := some "1970-01-02T00:00:00.000Z"
  parseRfc3339 text := if text = "1970-01-02T00:00:00.000Z" then some 86400000 else none

theorem plainStartup_libraries : Libraries plainStartup where
  floats := V8Kernel.floatText_pointed
  distinct text value h := by
    change readValue text = some value at h
    unfold readValue at h
    split at h
    · rename_i hexists
      exact Option.some.inj h ▸ hexists.choose_spec.1
    · cases h
  stored value h := by
    have hexists : ∃ value' : Json, value'.Distinct ∧
        V8Kernel.plainHost.toText value' = V8Kernel.plainHost.toText value := ⟨value, h.distinct, rfl⟩
    change readValue (V8Kernel.plainHost.toText value) = some value
    rw [readValue, dif_pos hexists]
    have hsorted := Json.render_injective V8Kernel.floatText_pointed hexists.choose_spec.2
    exact congrArg some hsorted
  digest _ h := by
    have hne : ("e3b0c44298fc1c149afbf4c8996fb92427ae41e4649b934ca495991b7852b855" : String) ≠ "" := by decide
    exact hne h
  mac _ _ := rfl

/-- An attestation of one empty file. -/
def guardCall : Call where
  secret := some "key"
  policyFile := some { criticalPaths := ["guard.json"] }
  policyRel := "config/startup_attestation_policy.json"
  read path := if path = "guard.json" then some [] else none
  nowMs := 0
  nowIso := "1970-01-01T00:00:00.000Z"
  ttlHours := none
  writeError := none

theorem expiry_guard (call : Call) : expiry plainStartup (payload plainStartup call) = 86400000 := by
  rw [expiry, text?, @payload_get? plainStartup call "expires_at" (.str "1970-01-02T00:00:00.000Z")
    (by simp [payloadFields, plainStartup])]
  rfl

theorem attestation_detects_drift_guard :
    (verify plainStartup { guardCall with nowMs := 1000 }
      (Runs.run (step plainStartup) none [.issue guardCall])).ok = true ∧ ∃ issuer key,
        .issue issuer ∈ [Event.issue guardCall] ∧ issuer.secret = some key ∧
        1000 < expiry plainStartup (payload plainStartup issuer) ∧
        ∀ path, guardCall.found path = issuer.found path := by
  obtain ⟨hdetects, hissued⟩ := attestation_detects_drift plainStartup_libraries none
    [.issue guardCall] { guardCall with nowMs := 1000 }
  have hok := hissued [] guardCall [] "key" rfl rfl rfl rfl rfl (by rw [expiry_guard]; decide) rfl
    fun _ _ => rfl
  have hmac : Unforged plainStartup [.issue guardCall] { guardCall with nowMs := 1000 }
      (Runs.run (step plainStartup) none [.issue guardCall]) := by
    intro key hkey _
    refine ⟨guardCall, List.mem_cons_self, hkey, ?_⟩
    have hstate : readState plainStartup (Runs.run (step plainStartup) none [.issue guardCall]) =
        signed plainStartup "key" guardCall :=
      readState_issuedText plainStartup_libraries "key" guardCall
    rw [hstate, withoutSignature_signed]
  have htells : Tells plainStartup [.issue guardCall] { guardCall with nowMs := 1000 } := by
    intro issuer path then' now hissue hthen hnow _
    obtain rfl : issuer = guardCall := by simpa using hissue
    exact Option.some.inj (hthen.symm.trans hnow)
  obtain ⟨issuer, key, hissue, hsecret, -, -, hexpiry, hfound⟩ := hdetects hmac htells hok
  exact ⟨hok, issuer, key, hissue, hsecret, hexpiry, hfound⟩

end Protheus.Security.StartupAttestation
