import Protheus.Security.Leases

/-!
Runs of the lease commands.

A lease is single-use and bound where no two commands that write overlap (`Sound`): each writes back
the file it has read.  Two `consume` that have both read the file before either writes it are both
answered ok (`consumed_twice`).
-/

namespace Protheus.Security.Leases

open V8Kernel RustStd

/-- What is taken of the libraries: a digest is written in hex digits, the JSON of a lease is read
back as it was written, a MAC has 32 bytes, and a time stamp is shorter than a line. -/
structure Libraries (host : Host) : Prop where
  hex : ∀ s, ∀ c ∈ (host.sha256HexStr s).toList, isHexDigit c = true
  readsBack : ∀ lease : Lease, host.parseJson (lease.bytes host) = some (.ofFields lease.fields)
  mac : ∀ key body, (host.hmacSha256 key body).length = 32
  stamp : ∀ ms stamp, host.isoText ms = some stamp → stamp.length ≤ 40
  now : ∀ ms, (host.nowIso ms).length ≤ 40

/-! ## Tokens are read back -/

/-- The fields of a lease as an object. -/
def Lease.map (lease : Lease) : List (String × Json) := Json.insertFields lease.fields []

theorem Lease.lookup_map (lease : Lease) {key : String} {value : Json}
    (h : (key, value) ∈ lease.fields) : lease.map.lookup key = some value := by
  have hkeys : lease.fields.map Prod.fst = ["v", "id", "scope", "target", "issued_at_ms",
      "issued_at", "expires_at_ms", "expires_at", "issued_by", "reason", "nonce"] := rfl
  have hnodup : (lease.fields.map Prod.fst).Nodup := by
    rw [hkeys]
    decide
  rw [Lease.map, Json.lookup_insertFields_nil hnodup]
  exact (Json.lookup_eq_some_iff_mem hnodup).mpr h

/-- A lease's bytes are not empty. -/
theorem bytes_ne_nil (host : Host) (lease : Lease) : lease.bytes host ≠ [] := by
  intro h
  have hsize : (lease.bytes host).length = (host.toText (.ofFields lease.fields)).utf8ByteSize := rfl
  have htext : host.toText (.ofFields lease.fields) = "\x7b" ++
      Json.renderFields host.printFloat lease.map ++ "\x7d" := rfl
  have hopen : "\x7b".utf8ByteSize = 1 := by decide
  rw [h, htext, String.utf8ByteSize_append, String.utf8ByteSize_append, hopen, List.length_nil] at hsize
  omega

section Libraries

variable {host : Host} (libraries : Libraries host) {key : String}
include libraries

theorem readsBack_body (lease : Lease) :
    ((Base64Url.decode (lease.body host).toList).bind host.parseJson).bind Json.asObject =
      some lease.map := by
  rw [Lease.body, String.toList_ofList, Base64Url.decode_encode, Option.bind_some,
    libraries.readsBack, Option.bind_some]
  rfl

theorem leaseUnpackToken_pack (lease : Lease) : leaseUnpackToken host (leasePackToken host lease key) =
    .ok (lease.body host, leaseSign host (lease.body host) key, lease.map) := by
  have hsplit : splitChar '.' (trim (leasePackToken host lease key)) =
      [lease.body host, leaseSign host (lease.body host) key] := by
    rw [leasePackToken, Lease.body, leaseSign, SecretBroker.trim_signed,
      SecretBroker.splitChar_signed]
  have hbody : lease.body host ≠ "" := by
    intro h
    have hlength := congrArg String.length h
    rw [Lease.body, String.length_ofList, Base64Url.length_encode] at hlength
    have hpos := List.length_pos_iff.mpr (bytes_ne_nil host lease)
    have hzero : "".length = 0 := rfl
    omega
  have hsig : leaseSign host (lease.body host) key ≠ "" := by
    intro h
    have hlength := congrArg String.length h
    rw [leaseSign, SecretBroker.length_hexEncode, libraries.mac] at hlength
    cases hlength
  rw [leaseUnpackToken, hsplit]
  dsimp only
  rw [if_neg (not_or.mpr ⟨hbody, hsig⟩), readsBack_body libraries]

/-- What is unpacked from the body of a lease is the lease. -/
theorem fields_of_unpack {lease : Lease} {token sig : String} {fields : List (String × Json)}
    (h : leaseUnpackToken host token = .ok (lease.body host, sig, fields)) : fields = lease.map := by
  unfold leaseUnpackToken at h
  split at h
  · split at h
    · cases h
    · split at h
      · rename_i hread
        obtain ⟨rfl, -, rfl⟩ : _ = lease.body host ∧ _ = sig ∧ _ = fields := by
          simpa using Except.ok.inj h
        rw [readsBack_body libraries] at hread
        exact (Option.some.inj hread).symm
      · cases h
  · cases h

/-- The id of a lease is a word. -/
theorem clean_id (call : Call) (ttl : Int64) : clean (leaseOf host call ttl).id 120 = (leaseOf host call ttl).id ∧
    (leaseOf host call ttl).id ≠ "" ∧ (leaseOf host call ttl).id.length ≤ 22 := by
  obtain ⟨text, hid⟩ : ∃ text, (leaseOf host call ttl).id = "lease_" ++ hash16 host text := ⟨_, rfl⟩
  have hmark : "lease_".length = 6 := by decide
  have hlength : (leaseOf host call ttl).id.length ≤ 22 := by
    have hhash : (hash16 host text).length ≤ 16 := by
      rw [hash16, String.length_ofList]
      exact List.length_take_le _ _
    rw [hid, String.length_append]
    omega
  refine ⟨clean_eq_self (trim_eq_self fun c hc => ?_) (hlength.trans (by omega)), ?_, hlength⟩
  · rw [hid, String.toList_append, List.mem_append] at hc
    obtain hmark | hhash := hc
    · have hword : "lease_".toList = ['l', 'e', 'a', 's', 'e', '_'] := by decide
      rw [hword] at hmark
      revert c
      simp [isWhitespace]
    · rw [hash16, String.toList_ofList] at hhash
      exact isHexDigit_not_whitespace (libraries.hex _ c (List.mem_of_mem_take hhash))
  · intro h
    have hzero := congrArg String.length h
    rw [hid, String.length_append, hmark] at hzero
    have hempty : "".length = 0 := by decide
    omega

end Libraries

/-! ## What is read of a lease -/

/-- The scope and the target of an `issue` do not end in a blank where they are cut. -/
def Call.Trimmed (call : Call) : Prop :=
  trim call.scope = call.scope ∧ ∀ target ∈ call.filled "target" 240, trim target = target

theorem filled_spec {call : Call} {name text : String} {maxLen : ℕ}
    (h : call.filled name maxLen = some text) : text ≠ "" ∧ text.length ≤ maxLen := by
  obtain ⟨hmap, hne⟩ := Option.filter_eq_some_iff.mp h
  obtain ⟨raw, -, rfl⟩ := Option.map_eq_some_iff.mp hmap
  exact ⟨by simpa using hne, length_clean_le raw maxLen⟩

/-- What is read from a lease's fields is the lease, with every text cleaned once more. -/
theorem presentedOf_map (lease : Lease) : presentedOf lease.map = {
    leaseId := clean lease.id 120
    scope := clean lease.scope 180
    target := (lease.target.map (clean · 240)).filter (· ≠ "")
    expiresAtMs := lease.expiresAtMs.toInt
    expiresAt := .str lease.expiresAt } := by
  have htarget : (optional lease.target).asStr = lease.target := by
    cases lease.target with
    | none => rfl
    | some text => rfl
  rw [presentedOf, @Lease.lookup_map lease "id" (.str lease.id) (by simp [Lease.fields]),
    @Lease.lookup_map lease "scope" (.str lease.scope) (by simp [Lease.fields]),
    @Lease.lookup_map lease "target" (optional lease.target) (by simp [Lease.fields]),
    @Lease.lookup_map lease "expires_at_ms" (.ofInt lease.expiresAtMs.toInt) (by simp [Lease.fields]),
    @Lease.lookup_map lease "expires_at" (.str lease.expiresAt) (by simp [Lease.fields])]
  simp only [Option.bind_some, Json.asI64_ofInt, Option.getD_some, htarget]
  rfl

/-- A lease whose texts do not end in a blank is read as it was issued. -/
theorem presentedOf_leaseOf {host : Host} (libraries : Libraries host) {call : Call}
    (htrimmed : call.Trimmed) (ttl : Int64) : presentedOf (leaseOf host call ttl).map = {
      leaseId := (leaseOf host call ttl).id
      scope := (leaseOf host call ttl).scope
      target := (leaseOf host call ttl).target
      expiresAtMs := (leaseOf host call ttl).expiresAtMs.toInt
      expiresAt := .str (leaseOf host call ttl).expiresAt } := by
  obtain ⟨hscope, htarget⟩ := htrimmed
  rw [presentedOf_map, (clean_id libraries call ttl).1]
  have hscope' : clean (leaseOf host call ttl).scope 180 = (leaseOf host call ttl).scope :=
    clean_eq_self hscope (length_clean_le _ _)
  have htarget' : ((leaseOf host call ttl).target.map (clean · 240)).filter (· ≠ "") =
      (leaseOf host call ttl).target := by
    have hdef : (leaseOf host call ttl).target = call.filled "target" 240 := rfl
    rw [hdef]
    cases hfilled : call.filled "target" 240 with
    | none => rfl
    | some text =>
      obtain ⟨hne, hlength⟩ := filled_spec hfilled
      rw [Option.map_some, clean_eq_self (htarget text hfilled) hlength, Option.filter_some]
      simp [hne]
  rw [hscope', htarget']

/-! ### A token is not cut -/

theorem fieldSize_optional_le (printFloat : ℚ → String) (name : String) {v : Option String}
    {bound : ℕ} (h : ∀ text ∈ v, text.length ≤ bound) :
    Json.fieldSize printFloat (name, optional v) ≤ 6 * name.length + 6 * bound + 10 := by
  cases v with
  | none =>
    have hkey := Json.size_renderStr_le name
    have hnull : "null".utf8ByteSize = 4 := by decide
    have hrender : (optional none).render printFloat = "null" := rfl
    rw [Json.fieldSize]
    dsimp only
    rw [hrender, hnull]
    omega
  | some text =>
    have hsize := @SecretBroker.fieldSize_str_le printFloat name text bound (h text rfl)
    have hstr : optional (some text) = .str text := rfl
    rw [hstr]
    omega

/-- The bytes of a lease are few. -/
theorem length_bytes_le {host : Host} (libraries : Libraries host) (call : Call) (ttl : Int64) :
    ((leaseOf host call ttl).bytes host).length ≤ 7000 := by
  have hsize : ((leaseOf host call ttl).bytes host).length =
      (host.toText (.ofFields (leaseOf host call ttl).fields)).utf8ByteSize := rfl
  rw [hsize]
  change ((Json.ofFields (leaseOf host call ttl).fields).render host.printFloat).utf8ByteSize ≤ 7000
  have htotal := Json.size_ofFields_le host.printFloat (leaseOf host call ttl).fields
  have hexpires : (leaseOf host call ttl).expiresAt.length ≤ 40 := by
    have hdef : (leaseOf host call ttl).expiresAt =
        (host.isoText (leaseOf host call ttl).expiresAtMs).getD
          (host.nowIso call.clock.fallbackMs) := rfl
    rw [hdef]
    cases hiso : host.isoText (leaseOf host call ttl).expiresAtMs with
    | none => exact libraries.now _
    | some stamp => exact libraries.stamp _ _ hiso
  have hnonce : (leaseOf host call ttl).nonce.length ≤ 16 := by
    have hdef : (leaseOf host call ttl).nonce =
        hash16 host (toString call.clock.nowMs ++ ":" ++ toString call.pid) := rfl
    rw [hdef, hash16, String.length_ofList]
    exact List.length_take_le _ _
  have h0 : Json.fieldSize host.printFloat ("v", .str "1.0") ≤ 6 * "v".length + 6 * 3 + 6 :=
    SecretBroker.fieldSize_str_le host.printFloat (show "1.0".length ≤ 3 by decide)
  have h1 := @SecretBroker.fieldSize_str_le host.printFloat "id" _ _ (clean_id libraries call ttl).2.2
  have h2 := @SecretBroker.fieldSize_str_le host.printFloat "scope" _ _
    (length_clean_le ((call.flags.lookup "scope").getD "") 180)
  have h3 := @fieldSize_optional_le host.printFloat "target" (call.filled "target" 240) 240
    fun text h => (filled_spec h).2
  have h4 := SecretBroker.fieldSize_ofInt_le host.printFloat "issued_at_ms" call.clock.nowMs
  have h5 := @SecretBroker.fieldSize_str_le host.printFloat "issued_at" _ _
    (libraries.now call.clock.issuedMs)
  have h6 := SecretBroker.fieldSize_ofInt_le host.printFloat "expires_at_ms"
    (leaseOf host call ttl).expiresAtMs
  have h7 := @SecretBroker.fieldSize_str_le host.printFloat "expires_at" _ _ hexpires
  have h8 := @SecretBroker.fieldSize_str_le host.printFloat "issued_by" _ _
    (length_clean_le (((call.flags.lookup "issued-by").or (call.flags.lookup "issued_by")).getD
      "unknown") 120)
  have h9 := @fieldSize_optional_le host.printFloat "reason" (call.filled "reason" 240) 240
    fun text h => (filled_spec h).2
  have h10 := @SecretBroker.fieldSize_str_le host.printFloat "nonce" _ _ hnonce
  have hkeys : "v".length = 1 ∧ "id".length = 2 ∧ "scope".length = 5 ∧ "target".length = 6 ∧
      "issued_at_ms".length = 12 ∧ "issued_at".length = 9 ∧ "expires_at_ms".length = 13 ∧
      "expires_at".length = 10 ∧ "issued_by".length = 9 ∧ "reason".length = 6 ∧
      "nonce".length = 5 := by
    decide
  have hfields : ((leaseOf host call ttl).fields.map (Json.fieldSize host.printFloat)).sum =
      Json.fieldSize host.printFloat ("v", .str "1.0") +
      (Json.fieldSize host.printFloat ("id", .str (leaseOf host call ttl).id) +
      (Json.fieldSize host.printFloat ("scope", .str call.scope) +
      (Json.fieldSize host.printFloat ("target", optional (call.filled "target" 240)) +
      (Json.fieldSize host.printFloat ("issued_at_ms", .ofInt call.clock.nowMs.toInt) +
      (Json.fieldSize host.printFloat ("issued_at", .str (host.nowIso call.clock.issuedMs)) +
      (Json.fieldSize host.printFloat
        ("expires_at_ms", .ofInt (leaseOf host call ttl).expiresAtMs.toInt) +
      (Json.fieldSize host.printFloat ("expires_at", .str (leaseOf host call ttl).expiresAt) +
      (Json.fieldSize host.printFloat ("issued_by", .str (leaseOf host call ttl).issuedBy) +
      (Json.fieldSize host.printFloat ("reason", optional (call.filled "reason" 240)) +
      (Json.fieldSize host.printFloat ("nonce", .str (leaseOf host call ttl).nonce) + 0)))))))))) :=
    rfl
  change Json.fieldSize host.printFloat ("scope", .str call.scope) ≤ _ at h2
  change Json.fieldSize host.printFloat ("issued_by", .str (leaseOf host call ttl).issuedBy) ≤ _ at h8
  rw [hfields] at htotal
  omega

/-- A command that hands a token back presents it whole. -/
theorem token_of_flag {host : Host} (libraries : Libraries host) {key : String} {call issue : Call}
    {ttl : Int64}
    (h : call.flags.lookup "token" = some (leasePackToken host (leaseOf host issue ttl) key)) :
    call.token = leasePackToken host (leaseOf host issue ttl) key ∧ call.token ≠ "" := by
  have hlength : (leasePackToken host (leaseOf host issue ttl) key).length =
      (4 * ((leaseOf host issue ttl).bytes host).length + 2) / 3 + 1 + 64 := by
    rw [leasePackToken, Lease.body, leaseSign, SecretBroker.length_signed, libraries.mac]
  have hbytes := length_bytes_le libraries issue ttl
  have htoken : call.token = leasePackToken host (leaseOf host issue ttl) key := by
    rw [Call.token, h, Option.getD_some]
    refine clean_eq_self ?_ (by omega)
    rw [leasePackToken, Lease.body, leaseSign]
    exact SecretBroker.trim_signed _ _
  refine ⟨htoken, fun hempty => ?_⟩
  rw [← htoken, hempty] at hlength
  have hzero : "".length = 0 := rfl
  omega

/-! ## One command -/

/-- **When a token with a right signature is let through.** -/
theorem denial_eq_none_iff {state : LeaseState} {call : Call} {lease : Presented} :
    denial state call lease = none ↔ lease.leaseId ≠ "" ∧
      call.clock.nowMs.toInt < lease.expiresAtMs ∧
      (∀ scope ∈ call.requiredScope, scope = lease.scope) ∧
      (∀ target ∈ call.requiredTarget, lease.target.getD "" = target) ∧
      contains state.consumed lease.leaseId = false ∧ contains state.issued lease.leaseId = true := by
  have hscope : call.requiredScope.filter (· ≠ lease.scope) = none ↔
      ∀ scope ∈ call.requiredScope, scope = lease.scope := by
    simp
  have htarget : call.requiredTarget.filter (lease.target.getD "" ≠ ·) = none ↔
      ∀ target ∈ call.requiredTarget, lease.target.getD "" = target := by
    simp
  have hconsumed : contains state.consumed lease.leaseId = false ↔
      state.consumed.lookup lease.leaseId = none := by
    rw [contains, Option.isSome_eq_false_iff, Option.isNone_iff_eq_none]
  rw [denial, ← hscope, ← htarget, hconsumed]
  by_cases hid : lease.leaseId = ""
  · rw [if_pos hid]
    exact ⟨nofun, fun h => absurd hid h.1⟩
  by_cases hexpiry : lease.expiresAtMs ≤ call.clock.nowMs.toInt
  · rw [if_neg hid, if_pos hexpiry]
    exact ⟨nofun, fun h => absurd hexpiry (not_le.mpr h.2.1)⟩
  rw [if_neg hid, if_neg hexpiry]
  cases call.requiredScope.filter (· ≠ lease.scope) with
  | some required => exact ⟨nofun, fun h => absurd h.2.2.1 nofun⟩
  | none =>
    cases call.requiredTarget.filter (lease.target.getD "" ≠ ·) with
    | some required => exact ⟨nofun, fun h => absurd h.2.2.2.1 nofun⟩
    | none =>
      cases state.consumed.lookup lease.leaseId with
      | some row => exact ⟨nofun, fun h => absurd h.2.2.2.2.1 nofun⟩
      | none =>
        dsimp only
        split
        · rename_i hissued
          exact ⟨fun _ => ⟨hid, not_le.mp hexpiry, rfl, rfl, rfl, hissued⟩, fun _ => rfl⟩
        · rename_i hissued
          exact ⟨nofun, fun h => absurd h.2.2.2.2.2 hissued⟩

section Check

variable {host : Host} {key : String} {state : LeaseState} {call : Call}

/-- A token that is let through is signed. -/
theorem check_ok {answer : Accepted} (h : check host key state call = .ok answer) :
    ∃ body sig fields, leaseUnpackToken host call.token = .ok (body, sig, fields) ∧
      secureEqHex sig (leaseSign host body key) = true ∧
      denial state call (presentedOf fields) = none ∧ answer = acceptedOf call (presentedOf fields) := by
  unfold check at h
  split at h
  · cases h
  · split at h
    · cases h
    · rename_i body sig fields hunpack
      split at h
      · rename_i hsig
        split at h
        · cases h
        · rename_i hdenial
          exact ⟨body, sig, fields, hunpack, hsig, hdenial, (Except.ok.inj h).symm⟩
      · cases h

theorem check_of_denial {body sig : String} {fields : List (String × Json)} (htoken : call.token ≠ "")
    (hunpack : leaseUnpackToken host call.token = .ok (body, sig, fields))
    (hsig : secureEqHex sig (leaseSign host body key) = true)
    (hdenial : denial state call (presentedOf fields) = none) :
    check host key state call = .ok (acceptedOf call (presentedOf fields)) := by
  rw [check, if_neg htoken, hunpack]
  dsimp only
  rw [if_pos hsig, hdenial]

end Check

/-! ## Steps -/

/-- What a step of a process can do. -/
inductive Outcome (host : Host) (key : String) : Action → LeaseState → Place →
    LeaseState × Place × Option (Call × Reply) → Prop where
  | stays {action file place} : Outcome host key action file place (file, place, none)
  | leaves {action file place} : Outcome host key action file place (file, .idle, none)
  | refused {action file place} (call : Call) (refusal : Refusal) :
      Outcome host key action file place (file, .idle, some (call, .refused refusal))
  | verified {file call answer} (command : call.command = .verify)
      (ok : check host key file call = .ok answer) :
      Outcome host key (.start call) file .idle (file, .idle, some (call, .accepted answer))
  | issueStarts {file call ttl} (command : call.command = .issue) (life : call.ttlSec = some ttl) :
      Outcome host key (.start call) file .idle (file, .issuing call ttl file, none)
  | consumeStarts {file call answer} (command : call.command = .consume)
      (ok : check host key file call = .ok answer) :
      Outcome host key (.start call) file .idle (file, .consuming call answer file, none)
  | issues {file call ttl loaded} : Outcome host key (.save none) file (.issuing call ttl loaded)
      (loaded.issue (leaseOf host call ttl), .idle, some (call,
        .issued (leaseOf host call ttl) ttl (leasePackToken host (leaseOf host call ttl) key)))
  | consumes {file call answer loaded} :
      Outcome host key (.save none) file (.consuming call answer loaded)
      (loaded.consume host call answer.leaseId, .idle, some (call, .accepted answer))

theorem turn_outcome (host : Host) (key : String) (action : Action) (file : LeaseState)
    (place : Place) : Outcome host key action file place (turn host key action file place) := by
  cases action with
  | start call =>
    cases place with
    | idle =>
      rw [turn, start]
      cases hcommand : call.command with
      | issue =>
        dsimp only
        split
        · exact .refused call _
        · split
          · rename_i httl
            exact .issueStarts hcommand httl
          · exact .leaves
      | verify =>
        dsimp only
        cases hcheck : check host key file call with
        | error refusal => exact .refused call refusal
        | ok answer => exact .verified hcommand hcheck
      | consume =>
        dsimp only
        cases hcheck : check host key file call with
        | error refusal => exact .refused call refusal
        | ok answer => exact .consumeStarts hcommand hcheck
    | issuing call ttl loaded => exact .stays
    | consuming call answer loaded => exact .stays
  | save failure =>
    cases failure with
    | none =>
      cases place with
      | idle => exact .stays
      | issuing call ttl loaded => exact .issues
      | consuming call answer loaded => exact .consumes
    | some err =>
      cases place with
      | idle => exact .stays
      | issuing call ttl loaded => exact .refused call _
      | consuming call answer loaded => exact .refused call _

/-! ## What a run guarantees -/

section Runs

variable {ι : Type*} (host : Host) (key : String)

/-- The answer names the scope and the target of a lease that was issued before, which has not run
out, and these are what the request asks for. -/
def Bound (history : List (Call × Reply)) (call : Call) (answer : Accepted) : Prop :=
  ∃ issue lease ttl token, (issue, .issued lease ttl token) ∈ history ∧
    answer.leaseId = lease.id ∧ answer.scope = lease.scope ∧ answer.target = lease.target ∧
    call.clock.nowMs < lease.expiresAtMs ∧ (∀ scope ∈ call.requiredScope, scope = answer.scope) ∧
    ∀ target ∈ call.requiredTarget, answer.target = some target

/-- **Leases are single-use and bound**, as the answers of a run show it. -/
structure SingleUse (history : List (Call × Reply)) : Prop where
  /-- An id names one lease. -/
  distinct : history.Pairwise fun x y => ∀ lease ttl token lease' ttl' token',
    x.2 = .issued lease ttl token → y.2 = .issued lease' ttl' token' → lease.id ≠ lease'.id
  /-- After a `consume` that is ok, nothing is ok with this lease. -/
  once : history.Pairwise fun x y => ∀ answer answer', x.2 = .accepted answer →
    x.1.command = .consume → y.2 = .accepted answer' → answer'.leaseId ≠ answer.leaseId
  bound : ∀ early call answer late, history = early ++ (call, .accepted answer) :: late →
    Bound early call answer

/-- No command has written the file since a command that writes it has read it, and `issue` makes an
id that is new and texts that do not end in a blank. -/
def Sound (world : World ι) (event : ι × Action) : Prop :=
  match event.2, world.shared.place event.1 with
  | .start call, .idle => ∀ ttl, call.command = .issue → call.ttlSec = some ttl →
    call.Trimmed ∧ contains world.shared.file.issued (leaseOf host call ttl).id = false
  | .save none, .issuing _ _ loaded => world.shared.file = loaded
  | .save none, .consuming _ _ loaded => world.shared.file = loaded
  | _, _ => True

/-- HMAC as an ideal MAC: a signature that is presented is right only for the body of a token that
was answered earlier in the run. -/
def Unforged (world : World ι) (event : ι × Action) : Prop :=
  match event.2 with
  | .start call => call.command ≠ .issue → ∀ body sig fields,
    leaseUnpackToken host call.token = .ok (body, sig, fields) →
    secureEqHex sig (leaseSign host body key) = true →
      ∃ issue lease ttl token, (issue, .issued lease ttl token) ∈ world.history ∧
        lease.body host = body
  | .save _ => True

/-- What a process has in hand. -/
def Held (history : List (Call × Reply)) : Place → Prop
  | .idle => True
  | .issuing call ttl loaded =>
    call.Trimmed ∧ contains loaded.issued (leaseOf host call ttl).id = false
  | .consuming call answer loaded =>
    Bound history call answer ∧ contains loaded.consumed answer.leaseId = false ∧
      call.command = .consume

/-- The file knows what has been issued and consumed. -/
structure Inv (world : World ι) : Prop where
  single : SingleUse world.history
  issued : ∀ call lease ttl token, (call, .issued lease ttl token) ∈ world.history →
    contains world.shared.file.issued lease.id = true ∧ lease = leaseOf host call ttl ∧
      token = leasePackToken host lease key ∧ call.Trimmed
  consumed : ∀ id, contains world.shared.file.consumed id = true ↔
    ∃ call answer, (call, .accepted answer) ∈ world.history ∧ call.command = .consume ∧
      answer.leaseId = id
  held : ∀ p, Held host world.history (world.shared.place p)

/-! ### What is kept as the history grows -/

section History

variable {host} {key}

theorem Bound.mono {history more : List (Call × Reply)} {call : Call} {answer : Accepted}
    (h : Bound history call answer) : Bound (history ++ more) call answer := by
  obtain ⟨issue, lease, ttl, token, hmem, hrest⟩ := h
  exact ⟨issue, lease, ttl, token, List.mem_append_left _ hmem, hrest⟩

theorem Held.mono {history more : List (Call × Reply)} {place : Place}
    (h : Held host history place) : Held host (history ++ more) place := by
  cases place with
  | idle => trivial
  | issuing call ttl loaded => exact h
  | consuming call answer loaded => exact ⟨h.1.mono, h.2⟩

/-- A history grows by an answer that repeats nothing. -/
theorem SingleUse.concat {history : List (Call × Reply)} (h : SingleUse history) {call : Call}
    {reply : Reply}
    (hissued : ∀ lease ttl token, reply = .issued lease ttl token → ∀ call' lease' ttl' token',
      (call', .issued lease' ttl' token') ∈ history → lease'.id ≠ lease.id)
    (haccepted : ∀ answer, reply = .accepted answer → Bound history call answer ∧
      ∀ call' answer', (call', .accepted answer') ∈ history → call'.command = .consume →
        answer.leaseId ≠ answer'.leaseId) : SingleUse (history ++ [(call, reply)]) := by
  constructor
  · rw [List.pairwise_append]
    refine ⟨h.distinct, List.pairwise_singleton _ _, fun x hx y hy => ?_⟩
    obtain rfl := List.mem_singleton.mp hy
    rintro lease ttl token lease' ttl' token' hlease hlease'
    obtain ⟨call', reply'⟩ := x
    obtain rfl : reply' = _ := hlease
    exact hissued lease' ttl' token' hlease' call' lease ttl token hx
  · rw [List.pairwise_append]
    refine ⟨h.once, List.pairwise_singleton _ _, fun x hx y hy => ?_⟩
    obtain rfl := List.mem_singleton.mp hy
    rintro answer answer' hanswer hcommand hanswer'
    obtain ⟨call', reply'⟩ := x
    obtain rfl : reply' = _ := hanswer
    exact (haccepted answer' hanswer').2 call' answer hx hcommand
  · intro early call' answer late hsplit
    cases late using List.reverseRecOn with
    | nil =>
      obtain ⟨rfl, hlast⟩ := List.append_inj' hsplit rfl
      obtain ⟨rfl, rfl⟩ : call = call' ∧ reply = _ := by simpa using hlast
      exact (haccepted answer rfl).1
    | append_singleton late last =>
      rw [← List.cons_append, ← List.append_assoc] at hsplit
      exact h.bound early call' answer late (List.append_inj' hsplit rfl).1

theorem contains_insertField {rows : List (String × Json)} {id id' : String} {row : Json} :
    contains (Json.insertField id row rows) id' = (id' == id || contains rows id') := by
  by_cases h : id' = id
  · rw [h, contains, Json.lookup_insertField_same]
    simp
  · rw [contains, Json.lookup_insertField_ne h, contains]
    simp [h]

end History

/-! ### Steps keep it -/

theorem inv_initial : Inv host key (World.initial : World ι) where
  single := by
    constructor
    · exact List.Pairwise.nil
    · exact List.Pairwise.nil
    · intro early call answer late h
      cases early <;> cases h
  issued call lease ttl token h := by cases h
  consumed id := by
    constructor
    · intro h
      cases h
    · rintro ⟨call, answer, hmem, -⟩
      cases hmem
  held p := trivial

variable {host} {key} {world : World ι}

/-- What is not consumed in the file has not been consumed. -/
theorem Inv.unused (h : Inv host key world) {id : String}
    (hid : contains world.shared.file.consumed id = false) {call : Call} {answer : Accepted}
    (hmem : (call, .accepted answer) ∈ world.history) (hcommand : call.command = .consume) :
    id ≠ answer.leaseId := by
  rintro rfl
  have hconsumed := (h.consumed answer.leaseId).mpr ⟨call, answer, hmem, hcommand, rfl⟩
  rw [hid] at hconsumed
  cases hconsumed

/-- A token that is let through is bound to a lease that was issued. -/
theorem bound_of_check (libraries : Libraries host) (h : Inv host key world) {p : ι} {call : Call}
    {answer : Accepted} (hmac : Unforged host key world (p, .start call)) (hcommand : call.command ≠ .issue)
    (hok : check host key world.shared.file call = .ok answer) :
    Bound world.history call answer ∧ contains world.shared.file.consumed answer.leaseId = false := by
  obtain ⟨body, sig, fields, hunpack, hsig, hdenial, rfl⟩ := check_ok hok
  obtain ⟨issue, lease, ttl, token, hissued, rfl⟩ := hmac hcommand body sig fields hunpack hsig
  obtain ⟨-, hlease, -, htrimmed⟩ := h.issued issue lease ttl token hissued
  obtain rfl := fields_of_unpack libraries hunpack
  have hread : presentedOf lease.map = {
      leaseId := lease.id
      scope := lease.scope
      target := lease.target
      expiresAtMs := lease.expiresAtMs.toInt
      expiresAt := .str lease.expiresAt } := by
    rw [hlease]
    exact presentedOf_leaseOf libraries htrimmed ttl
  obtain ⟨-, hexpiry, hscope, htarget, hconsumed, -⟩ := denial_eq_none_iff.mp hdenial
  rw [hread] at hexpiry hscope htarget hconsumed ⊢
  refine ⟨⟨issue, lease, ttl, token, hissued, rfl, rfl, rfl, Int64.lt_iff_toInt_lt.mpr hexpiry, hscope,
    fun target hasked => ?_⟩, hconsumed⟩
  have hsame := htarget target hasked
  have hne := (filled_spec hasked).1
  cases hheld : lease.target with
  | none =>
    rw [hheld] at hsame
    exact absurd hsame.symm hne
  | some held =>
    rw [hheld] at hsame
    exact congrArg some hsame

section Steps

variable [DecidableEq ι]

/-- A process moves on: the others hold what they held. -/
theorem held_update (h : ∀ q, Held host world.history (world.shared.place q)) {p : ι} {place : Place}
    {more : List (Call × Reply)} (hplace : Held host (world.history ++ more) place) (q : ι) :
    Held host (world.history ++ more) (Function.update world.shared.place p place q) := by
  by_cases hq : q = p
  · rw [hq, Function.update_self]
    exact hplace
  · rw [Function.update_of_ne hq]
    exact (h q).mono

/-- A step that neither writes the file nor answers ok. -/
theorem Inv.quiet (h : Inv host key world) (p : ι) {place : Place} {entry : Option (Call × Reply)}
    (hentry : ∀ x ∈ entry, ∃ refusal, x.2 = .refused refusal)
    (hplace : Held host world.history place) : Inv host key {
      shared := { world.shared with place := Function.update world.shared.place p place }
      history := world.history ++ entry.toList } := by
  have hmem {call : Call} {reply : Reply} (hreply : ∀ refusal, reply ≠ .refused refusal) :
      (call, reply) ∈ world.history ++ entry.toList ↔ (call, reply) ∈ world.history := by
    rw [List.mem_append, or_iff_left]
    intro hlast
    obtain ⟨refusal, hrefused⟩ := hentry _ (Option.mem_toList.mp hlast)
    exact hreply refusal hrefused
  constructor
  · cases entry with
    | none => simpa using h.single
    | some x =>
      obtain ⟨refusal, hrefused⟩ := hentry x rfl
      obtain ⟨call, reply⟩ := x
      obtain rfl : reply = .refused refusal := hrefused
      exact h.single.concat (fun _ _ _ hissued => by cases hissued) fun _ haccepted => by cases haccepted
  · intro call lease ttl token hissued
    exact h.issued call lease ttl token ((hmem fun _ h => by cases h).mp hissued)
  · intro id
    rw [h.consumed id]
    constructor
    · rintro ⟨call, answer, haccepted, hrest⟩
      exact ⟨call, answer, (hmem fun _ h => by cases h).mpr haccepted, hrest⟩
    · rintro ⟨call, answer, haccepted, hrest⟩
      exact ⟨call, answer, (hmem fun _ h => by cases h).mp haccepted, hrest⟩
  · exact held_update h.held hplace.mono

/-- A `verify` that is ok. -/
theorem Inv.verified (h : Inv host key world) (p : ι) {call : Call} {answer : Accepted}
    (hcommand : call.command = .verify) (hbound : Bound world.history call answer)
    (hunused : contains world.shared.file.consumed answer.leaseId = false) : Inv host key {
      shared := { world.shared with place := Function.update world.shared.place p .idle }
      history := world.history ++ [(call, .accepted answer)] } := by
  constructor
  · refine h.single.concat (fun _ _ _ hissued => by cases hissued) fun _ haccepted => ?_
    obtain rfl := Reply.accepted.inj haccepted
    exact ⟨hbound, fun _ _ hmem hconsume => h.unused hunused hmem hconsume⟩
  · intro call' lease ttl token hissued
    obtain hissued | hlast := List.mem_append.mp hissued
    · exact h.issued call' lease ttl token hissued
    · cases List.mem_singleton.mp hlast
  · intro id
    rw [h.consumed id]
    constructor
    · rintro ⟨call', answer', hmem, hrest⟩
      exact ⟨call', answer', List.mem_append_left _ hmem, hrest⟩
    · rintro ⟨call', answer', hmem, hconsume, hrest⟩
      obtain hmem | hlast := List.mem_append.mp hmem
      · exact ⟨call', answer', hmem, hconsume, hrest⟩
      · cases List.mem_singleton.mp hlast
        rw [hcommand] at hconsume
        cases hconsume
  · exact held_update h.held trivial

/-- An `issue` that is written. -/
theorem Inv.issues (h : Inv host key world) (p : ι) {call : Call} {ttl : Int64}
    (htrimmed : call.Trimmed)
    (hfresh : contains world.shared.file.issued (leaseOf host call ttl).id = false) : Inv host key {
      shared := {
        file := world.shared.file.issue (leaseOf host call ttl)
        place := Function.update world.shared.place p .idle }
      history := world.history ++ [(call, .issued (leaseOf host call ttl) ttl
        (leasePackToken host (leaseOf host call ttl) key))] } := by
  constructor
  · refine h.single.concat (fun lease _ _ hissued call' lease' ttl' token' hmem => ?_)
      fun _ haccepted => by cases haccepted
    obtain ⟨rfl, -, -⟩ := Reply.issued.inj hissued
    intro hsame
    have hknown := (h.issued call' lease' ttl' token' hmem).1
    rw [hsame, hfresh] at hknown
    cases hknown
  · intro call' lease ttl' token hissued
    dsimp only
    rw [LeaseState.issue, contains_insertField, Bool.or_eq_true]
    obtain hissued | hlast := List.mem_append.mp hissued
    · obtain ⟨hknown, hrest⟩ := h.issued call' lease ttl' token hissued
      exact ⟨.inr hknown, hrest⟩
    · obtain ⟨rfl, hreply⟩ := Prod.mk.inj (List.mem_singleton.mp hlast)
      obtain ⟨rfl, rfl, rfl⟩ := Reply.issued.inj hreply
      exact ⟨.inl (beq_self_eq_true _), rfl, rfl, htrimmed⟩
  · intro id
    dsimp only
    rw [LeaseState.issue, h.consumed id]
    constructor
    · rintro ⟨call', answer', hmem, hrest⟩
      exact ⟨call', answer', List.mem_append_left _ hmem, hrest⟩
    · rintro ⟨call', answer', hmem, hrest⟩
      obtain hmem | hlast := List.mem_append.mp hmem
      · exact ⟨call', answer', hmem, hrest⟩
      · cases (Prod.mk.inj (List.mem_singleton.mp hlast)).2
  · exact held_update h.held trivial

/-- A `consume` that is written. -/
theorem Inv.consumes (h : Inv host key world) (p : ι) {call : Call} {answer : Accepted}
    (hcommand : call.command = .consume) (hbound : Bound world.history call answer)
    (hunused : contains world.shared.file.consumed answer.leaseId = false) : Inv host key {
      shared := {
        file := world.shared.file.consume host call answer.leaseId
        place := Function.update world.shared.place p .idle }
      history := world.history ++ [(call, .accepted answer)] } := by
  constructor
  · refine h.single.concat (fun _ _ _ hissued => by cases hissued) fun _ haccepted => ?_
    obtain rfl := Reply.accepted.inj haccepted
    exact ⟨hbound, fun _ _ hmem hconsume => h.unused hunused hmem hconsume⟩
  · intro call' lease ttl token hissued
    obtain hissued | hlast := List.mem_append.mp hissued
    · exact h.issued call' lease ttl token hissued
    · cases List.mem_singleton.mp hlast
  · intro id
    dsimp only
    rw [LeaseState.consume, contains_insertField, Bool.or_eq_true, h.consumed id]
    constructor
    · rintro (hid | ⟨call', answer', hmem, hrest⟩)
      · exact ⟨call, answer, by simp, hcommand, (beq_iff_eq.mp hid).symm⟩
      · exact ⟨call', answer', List.mem_append_left _ hmem, hrest⟩
    · rintro ⟨call', answer', hmem, hconsume, hid⟩
      obtain hmem | hlast := List.mem_append.mp hmem
      · exact .inr ⟨call', answer', hmem, hconsume, hid⟩
      · obtain ⟨rfl, hreply⟩ := Prod.mk.inj (List.mem_singleton.mp hlast)
        obtain rfl := Reply.accepted.inj hreply
        exact .inl (beq_iff_eq.mpr hid.symm)
  · exact held_update h.held trivial

/-- **Every sound step keeps leases single-use and bound.** -/
theorem inv_step (libraries : Libraries host) (h : Inv host key world) {event : ι × Action}
    (hsound : Sound host world event) (hmac : Unforged host key world event) :
    Inv host key (step host key world event) := by
  obtain ⟨p, action⟩ := event
  obtain ⟨out, hout⟩ : ∃ out, turn host key action world.shared.file (world.shared.place p) = out :=
    ⟨_, rfl⟩
  have hstep : step host key world (p, action) = {
      shared := { file := out.1, place := Function.update world.shared.place p out.2.1 }
      history := world.history ++ out.2.2.toList } := by
    rw [← hout]
    rfl
  have houtcome := turn_outcome host key action world.shared.file (world.shared.place p)
  have hheld := h.held p
  rw [hout] at houtcome
  rw [hstep]
  rw [Sound] at hsound
  generalize hfile : world.shared.file = file at houtcome hsound
  generalize world.shared.place p = place at houtcome hsound hheld
  cases houtcome with
  | stays =>
    subst hfile
    exact h.quiet p nofun hheld
  | leaves =>
    subst hfile
    exact h.quiet p nofun trivial
  | refused call refusal =>
    subst hfile
    refine h.quiet p ?_ trivial
    rintro x ⟨⟩
    exact ⟨refusal, rfl⟩
  | @issueStarts _ call ttl hcommand hlife =>
    subst hfile
    exact h.quiet p nofun (hsound ttl hcommand hlife)
  | @consumeStarts _ call answer hcommand hok =>
    subst hfile
    have hnot : call.command ≠ .issue := by simp [hcommand]
    obtain ⟨hbound, hunused⟩ := bound_of_check libraries h hmac hnot hok
    exact h.quiet p nofun ⟨hbound, hunused, hcommand⟩
  | @verified _ call answer hcommand hok =>
    subst hfile
    have hnot : call.command ≠ .issue := by simp [hcommand]
    obtain ⟨hbound, hunused⟩ := bound_of_check libraries h hmac hnot hok
    exact h.verified p hcommand hbound hunused
  | @issues _ call ttl loaded =>
    obtain rfl : file = loaded := hsound
    obtain ⟨htrimmed, hfresh⟩ := hheld
    subst hfile
    exact h.issues p htrimmed hfresh
  | @consumes _ call answer loaded =>
    obtain rfl : file = loaded := hsound
    obtain ⟨hbound, hunused, hcommand⟩ := hheld
    subst hfile
    exact h.consumes p hcommand hbound hunused

end Steps

/-! ### Live leases are accepted -/

/-- A request that hands back a token that was issued, is not consumed and has not run out, and asks
for the scope and the target with the texts the `issue` was given. -/
def Redeemable (world : World ι) (call : Call) : Prop :=
  ∃ issue lease ttl token, (issue, .issued lease ttl token) ∈ world.history ∧
    call.flags.lookup "token" = some token ∧
    call.flags.lookup "scope" = issue.flags.lookup "scope" ∧
    call.flags.lookup "target" = issue.flags.lookup "target" ∧
    call.clock.nowMs < lease.expiresAtMs ∧
    ∀ used answer, (used, .accepted answer) ∈ world.history → used.command = .consume →
      answer.leaseId ≠ lease.id

/-- **A live lease is let through.** -/
theorem check_of_redeemable (libraries : Libraries host) (h : Inv host key world) {call : Call}
    (hlive : Redeemable world call) : ∃ answer, check host key world.shared.file call = .ok answer := by
  obtain ⟨issue, lease, ttl, token, hissued, hflag, hscope, htarget, hexpiry, hunused⟩ := hlive
  obtain ⟨hknown, rfl, rfl, htrimmed⟩ := h.issued issue lease ttl token hissued
  obtain ⟨htoken, hne⟩ := token_of_flag libraries hflag
  have hsig : secureEqHex (leaseSign host ((leaseOf host issue ttl).body host) key)
      (leaseSign host ((leaseOf host issue ttl).body host) key) = true := beq_self_eq_true _
  have hunpack := @leaseUnpackToken_pack host libraries key (leaseOf host issue ttl)
  rw [← htoken] at hunpack
  refine ⟨_, check_of_denial hne hunpack hsig ?_⟩
  rw [presentedOf_leaseOf libraries htrimmed, denial_eq_none_iff]
  refine ⟨(clean_id libraries issue ttl).2.1, Int64.lt_iff_toInt_lt.mp hexpiry, ?_, ?_, ?_, hknown⟩
  · intro scope hasked
    rw [Call.requiredScope, hscope] at hasked
    obtain ⟨raw, hraw, rfl⟩ := Option.map_eq_some_iff.mp hasked
    change _ = issue.scope
    rw [Call.scope, hraw, Option.getD_some]
  · intro target hasked
    rw [Call.requiredTarget, Call.filled, htarget] at hasked
    have hheld : (leaseOf host issue ttl).target = some target := hasked
    rw [hheld, Option.getD_some]
  · rw [← Bool.not_eq_true, h.consumed]
    rintro ⟨used, answer, hmem, hconsume, hid⟩
    exact hunused used answer hmem hconsume hid

section Live

variable [DecidableEq ι] {p : ι} {call : Call} {answer : Accepted}

theorem step_issue {ttl : Int64} (hidle : world.shared.place p = .idle)
    (hcommand : call.command = .issue) (hscope : call.scope ≠ "") (hlife : call.ttlSec = some ttl) :
    step host key world (p, .start call) = {
      shared := { world.shared with
        place := Function.update world.shared.place p (.issuing call ttl world.shared.file) }
      history := world.history } := by
  have hturn : turn host key (.start call) world.shared.file (world.shared.place p) =
      (world.shared.file, .issuing call ttl world.shared.file, none) := by
    rw [hidle, turn, start, hcommand]
    dsimp only
    rw [if_neg hscope, hlife]
    rfl
  rw [step, SharedFile.step]
  dsimp only
  rw [hturn]
  simp

theorem step_issued {ttl : Int64} {loaded : LeaseState}
    (hplace : world.shared.place p = .issuing call ttl loaded) :
    step host key world (p, .save none) = {
      shared := {
        file := loaded.issue (leaseOf host call ttl)
        place := Function.update world.shared.place p .idle }
      history := world.history ++ [(call, .issued (leaseOf host call ttl) ttl
        (leasePackToken host (leaseOf host call ttl) key))] } := by
  rw [step, SharedFile.step, hplace]
  rfl

theorem step_verify (hidle : world.shared.place p = .idle) (hcommand : call.command = .verify)
    (hok : check host key world.shared.file call = .ok answer) :
    (step host key world (p, .start call)).history = world.history ++ [(call, .accepted answer)] := by
  rw [step, hidle]
  dsimp only
  rw [turn, start, hcommand]
  dsimp only
  rw [hok]
  rfl

theorem step_consume (hidle : world.shared.place p = .idle) (hcommand : call.command = .consume)
    (hok : check host key world.shared.file call = .ok answer) :
    step host key world (p, .start call) = {
      shared := { world.shared with
        place := Function.update world.shared.place p (.consuming call answer world.shared.file) }
      history := world.history } := by
  have hturn : turn host key (.start call) world.shared.file (world.shared.place p) =
      (world.shared.file, .consuming call answer world.shared.file, none) := by
    rw [hidle, turn, start, hcommand]
    dsimp only
    rw [hok]
    rfl
  rw [step, SharedFile.step]
  dsimp only
  rw [hturn]
  simp

theorem step_save {loaded : LeaseState} (hplace : world.shared.place p = .consuming call answer loaded) :
    step host key world (p, .save none) = {
      shared := {
        file := loaded.consume host call answer.leaseId
        place := Function.update world.shared.place p .idle }
      history := world.history ++ [(call, .accepted answer)] } := by
  rw [step, SharedFile.step, hplace]
  rfl

/-- The others' steps leave a process where it is. -/
theorem place_of_ne {event : ι × Action} (h : event.1 ≠ p) :
    (step host key world event).shared.place p = world.shared.place p := by
  rw [step, SharedFile.step]
  dsimp only
  rw [Function.update_of_ne h.symm]

end Live

variable (host) (key) in
/-- The world before the `n`-th step of a run. -/
def worldAt [DecidableEq ι] (events : List (ι × Action)) (n : ℕ) : World ι :=
  Runs.before (step host key) .initial events n

/-- **Leases are single-use and bound** in every run of any number of processes in which every
command writes back the file it has read, ids are new and no text is cut behind a blank; and there
a live lease is accepted whenever the request repeats the texts of its `issue`. -/
theorem leases_single_use [DecidableEq ι] (libraries : Libraries host) (events : List (ι × Action))
    (hsound : Runs.Meets (step host key) (Sound host) .initial events)
    (hmac : Runs.Meets (step host key) (Unforged host key) .initial events) :
    (∀ n, SingleUse (worldAt host key events n).history) ∧
    ∀ n p call, events[n]? = some (p, .start call) →
      (worldAt host key events n).shared.place p = .idle →
      Redeemable (worldAt host key events n) call →
      (call.command = .verify → ∃ answer, (worldAt host key events (n + 1)).history =
        (worldAt host key events n).history ++ [(call, .accepted answer)]) ∧
      (call.command = .consume → ∀ m, n < m → events[m]? = some (p, .save none) →
        (∀ k event, n < k → k < m → events[k]? = some event → event.1 ≠ p) →
        ∃ answer, (worldAt host key events (m + 1)).history =
          (worldAt host key events m).history ++ [(call, .accepted answer)]) := by
  have hkeeps (world : World ι) (event : ι × Action) (h : Inv host key world)
      (hmeets : Sound host world event ∧ Unforged host key world event) :
      Inv host key (step host key world event) := inv_step libraries h hmeets.1 hmeets.2
  have hinv (n : ℕ) : Inv host key (worldAt host key events n) :=
    @Runs.Meets.before _ _ _ _ (Inv host key) hkeeps _ _ (inv_initial host key) (hsound.and hmac) n
  refine ⟨fun n => (hinv n).single, fun n p call hevent hidle hlive => ?_⟩
  obtain ⟨answer, hok⟩ := check_of_redeemable libraries (hinv n) hlive
  have hnext : worldAt host key events (n + 1) =
      step host key (worldAt host key events n) (p, .start call) :=
    Runs.before_succ_of_some _ hevent
  constructor
  · intro hcommand
    exact ⟨answer, by rw [hnext, step_verify hidle hcommand hok]⟩
  · intro hcommand m hnm hsave hothers
    have hplace (k : ℕ) (hk : n + 1 ≤ k) (hkm : k ≤ m) :
        (worldAt host key events k).shared.place p =
          .consuming call answer (worldAt host key events n).shared.file := by
      induction hk with
      | refl =>
        rw [hnext, step_consume hidle hcommand hok]
        exact Function.update_self _ _ _
      | @step k hk ih =>
        have hk : n + 1 ≤ k := hk
        have hstays := ih (by omega)
        cases hi : events[k]? with
        | none =>
          rw [worldAt, Runs.before_succ_of_none _ hi]
          exact hstays
        | some event =>
          rw [worldAt, Runs.before_succ_of_some _ hi,
            place_of_ne (hothers k event (by omega) (by omega) hi)]
          exact hstays
    refine ⟨answer, ?_⟩
    have hlast : worldAt host key events (m + 1) =
        step host key (worldAt host key events m) (p, .save none) :=
      Runs.before_succ_of_some _ hsave
    rw [hlast, step_save (hplace m hnm (Nat.le_refl m))]

end Runs

/-! ## Runs on concrete inputs -/

/-- The value a JSON text was written from. -/
noncomputable def readBack (bytes : List UInt8) : Option Json :=
  open Classical in
  if h : ∃ value : Json, (plainHost.toText value).toUTF8.data.toList = bytes then some h.choose
  else none

theorem readBack_toText (value : Json) :
    readBack (plainHost.toText value).toUTF8.data.toList = some value := by
  have hexists : ∃ value' : Json, (plainHost.toText value').toUTF8.data.toList =
      (plainHost.toText value).toUTF8.data.toList := ⟨value, rfl⟩
  rw [readBack, dif_pos hexists]
  have hbytes := hexists.choose_spec
  generalize hexists.choose = value' at hbytes ⊢
  rw [Array.toList_inj] at hbytes
  have htext : plainHost.toText value' = plainHost.toText value :=
    String.toByteArray_inj.mp (ByteArray.ext hbytes)
  exact congrArg some (Json.render_injective floatText_pointed htext)

/-- A host whose digests spell their texts out, whose clock stands still and whose MACs are short
of secrets. -/
noncomputable def plainLeases : Host where
  toHost := { plainHost with nowIso _ := "1970-01-01T00:00:00.000Z" }
  hmacSha256 key body := List.replicate 32 (UInt8.ofNat (key.length + body.length))
  parseJson := readBack
  isoText _ := some "1970-01-01T00:00:00.000Z"

theorem toText_plainLeases (value : Json) : plainLeases.toText value = plainHost.toText value := rfl

theorem plainLeases_libraries : Libraries plainLeases where
  hex s := (isHex_hexText s).2
  readsBack lease := by
    rw [Lease.bytes, toText_plainLeases]
    exact readBack_toText _
  mac _ _ := List.length_replicate
  stamp _ stamp h := by
    obtain rfl := Option.some.inj h
    decide
  now _ := by
    change "1970-01-01T00:00:00.000Z".length ≤ 40
    decide

/-- A lease is asked for. -/
def issueCall : Call where
  command := .issue
  flags := [("scope", "deploy"), ("target", "vault")]
  limits := ⟨30, 3600, 300⟩
  clock := ⟨0, 0, 0, 0, 0⟩
  pid := 1

/-- The lease that is issued. -/
noncomputable def ownLease : Lease := leaseOf plainLeases issueCall 300

/-- The lease is handed back. -/
noncomputable def useCall (command : Command) : Call where
  command := command
  flags := [("token", leasePackToken plainLeases ownLease "key"), ("scope", "deploy"),
    ("target", "vault")]
  limits := ⟨30, 3600, 300⟩
  clock := ⟨1, 0, 0, 0, 0⟩
  pid := 2

/-- A lease is issued and consumed. -/
noncomputable def oneConsumer : List (ℕ × Action) :=
  [(0, .start issueCall), (0, .save none), (0, .start (useCall .consume)), (0, .save none)]

/-- A lease is issued, and two processes read the file before either consumes the lease. -/
noncomputable def twoConsumers : List (ℕ × Action) :=
  [(0, .start issueCall), (0, .save none), (0, .start (useCall .consume)),
    (1, .start (useCall .consume)), (0, .save none), (1, .save none)]

theorem issueCall_scope : issueCall.scope = "deploy" := by decide

theorem issueCall_trimmed : issueCall.Trimmed := by
  rw [Call.Trimmed, issueCall_scope]
  refine ⟨by decide, fun target htarget => ?_⟩
  have hfilled : issueCall.filled "target" 240 = some "vault" := by decide
  rw [hfilled] at htarget
  obtain rfl := Option.some.inj htarget
  decide

/-- The world in which the lease is being issued. -/
noncomputable def issuingWorld : World ℕ where
  shared := { file := {}, place := Function.update (fun _ => .idle) 0 (.issuing issueCall 300 {}) }
  history := []

/-- The world in which the lease has been issued. -/
noncomputable def issuedWorld : World ℕ where
  shared := {
    file := LeaseState.issue {} ownLease
    place := Function.update issuingWorld.shared.place 0 .idle }
  history := [(issueCall, .issued ownLease 300 (leasePackToken plainLeases ownLease "key"))]

theorem step_initial : step plainLeases "key" .initial (0, .start issueCall) = issuingWorld :=
  step_issue rfl rfl (by rw [issueCall_scope]; decide) (by decide)

theorem place_issuingWorld : issuingWorld.shared.place 0 = .issuing issueCall 300 {} := by
  simp [issuingWorld]

theorem step_issuingWorld : step plainLeases "key" issuingWorld (0, .save none) = issuedWorld :=
  step_issued place_issuingWorld

theorem sound_issuingWorld : Sound plainLeases issuingWorld (0, .save none) := by
  rw [Sound, place_issuingWorld]
  rfl

theorem sound_initial : Sound plainLeases World.initial ((0, .start issueCall) : ℕ × Action) :=
  fun _ _ _ => ⟨issueCall_trimmed, rfl⟩

/-- A signed token is that of the lease. -/
theorem unforged_use {world : World ℕ}
    (hissued : (issueCall, .issued ownLease 300 (leasePackToken plainLeases ownLease "key")) ∈ world.history)
    (p : ℕ) (command : Command) :
    Unforged plainLeases "key" world (p, .start (useCall command)) := by
  intro _ body sig fields hunpack _
  obtain ⟨htoken, -⟩ := @token_of_flag _ plainLeases_libraries "key" (useCall command) issueCall 300 rfl
  rw [htoken, leaseUnpackToken_pack plainLeases_libraries] at hunpack
  obtain ⟨hbody, -⟩ := Prod.mk.inj (Except.ok.inj hunpack)
  exact ⟨issueCall, ownLease, 300, _, hissued, hbody⟩

theorem issuedWorld_inv : Inv plainLeases "key" issuedWorld := by
  have hissuing : Inv plainLeases "key" issuingWorld := by
    rw [← step_initial]
    exact inv_step plainLeases_libraries (inv_initial _ _) sound_initial fun h => absurd rfl h
  rw [← step_issuingWorld]
  exact inv_step plainLeases_libraries hissuing sound_issuingWorld trivial

theorem idle_issuedWorld (p : ℕ) : issuedWorld.shared.place p = .idle := by
  by_cases hp : p = 0
  · simp [issuedWorld, hp]
  · simp [issuedWorld, issuingWorld]

/-- The lease is let through. -/
theorem exists_answer : ∃ answer,
    check plainLeases "key" issuedWorld.shared.file (useCall .consume) = .ok answer := by
  refine check_of_redeemable plainLeases_libraries issuedWorld_inv
    ⟨issueCall, ownLease, 300, _, List.mem_singleton_self _, rfl, rfl, rfl, ?_, ?_⟩
  · change (1 : Int64) < 0 + 300 * 1000
    decide
  · intro used answer hmem
    cases List.mem_singleton.mp hmem

/-- The first two steps of a run lead to the issued lease. -/
theorem run_issued (rest : List (ℕ × Action)) :
    Runs.run (step plainLeases "key") .initial ((0, .start issueCall) :: (0, .save none) :: rest) =
      Runs.run (step plainLeases "key") issuedWorld rest := by
  rw [Runs.run_cons, Runs.run_cons, step_initial, step_issuingWorld]

theorem meets_issued {guard : World ℕ → ℕ × Action → Prop} {rest : List (ℕ × Action)}
    (hstart : guard .initial (0, .start issueCall)) (hsave : guard issuingWorld (0, .save none))
    (hrest : Runs.Meets (step plainLeases "key") guard issuedWorld rest) :
    Runs.Meets (step plainLeases "key") guard .initial
      ((0, .start issueCall) :: (0, .save none) :: rest) := by
  refine ⟨hstart, ?_, ?_⟩
  · rw [step_initial]
    exact hsave
  · rw [step_initial, step_issuingWorld]
    exact hrest

theorem unforged_initial : Unforged plainLeases "key" World.initial ((0, .start issueCall) : ℕ × Action) :=
  fun h => absurd rfl h

theorem leases_single_use_once :
    SingleUse (worldAt plainLeases "key" oneConsumer 4).history := by
  obtain ⟨answer, hok⟩ := exists_answer
  have hconsume := step_consume (idle_issuedWorld 0) rfl hok
  refine (leases_single_use plainLeases_libraries oneConsumer ?_ ?_).1 4
  · refine meets_issued sound_initial sound_issuingWorld ⟨?_, ?_, trivial⟩
    · rw [Sound, idle_issuedWorld]
      exact fun _ h => by cases h
    · rw [hconsume, Sound]
      simp
  · exact meets_issued unforged_initial trivial
      ⟨unforged_use (List.mem_singleton_self _) 0 .consume, trivial, trivial⟩

/-- **A lease is consumed twice** where two processes have both read the file before either writes
it. -/
theorem consumed_twice :
    Runs.Meets (step plainLeases "key") (Unforged plainLeases "key") World.initial twoConsumers ∧
      ¬SingleUse (worldAt plainLeases "key" twoConsumers 6).history := by
  obtain ⟨answer, hok⟩ := exists_answer
  have hfirst := step_consume (idle_issuedWorld 0) rfl hok
  generalize hworld : step plainLeases "key" issuedWorld (0, .start (useCall .consume)) = first at hfirst
  have hidle : first.shared.place 1 = .idle := by
    rw [hfirst]
    simp [idle_issuedWorld]
  have hok' : check plainLeases "key" first.shared.file (useCall .consume) = .ok answer := by
    rw [hfirst]
    exact hok
  have hsecond := step_consume hidle rfl hok'
  generalize hworld' : step plainLeases "key" first (1, .start (useCall .consume)) = second at hsecond
  have hplace : second.shared.place 0 =
      .consuming (useCall .consume) answer issuedWorld.shared.file := by
    rw [hsecond, hfirst]
    simp
  have hthird := @step_save _ plainLeases "key" _ _ _ _ _ _ hplace
  generalize hworld'' : step plainLeases "key" second (0, .save none) = third at hthird
  have hplace' : third.shared.place 1 = .consuming (useCall .consume) answer first.shared.file := by
    rw [hthird, hsecond]
    simp
  have hfourth := @step_save _ plainLeases "key" _ _ _ _ _ _ hplace'
  constructor
  · refine meets_issued unforged_initial trivial
      ⟨unforged_use (List.mem_singleton_self _) 0 .consume, ?_, trivial, trivial, trivial⟩
    rw [hworld, hfirst]
    exact unforged_use (List.mem_singleton_self _) 1 .consume
  · have hlast : (worldAt plainLeases "key" twoConsumers 6).history = issuedWorld.history ++
        [(useCall .consume, .accepted answer)] ++ [(useCall .consume, .accepted answer)] := by
      have hrun : worldAt plainLeases "key" twoConsumers 6 =
          step plainLeases "key" third (1, .save none) := by
        calc worldAt plainLeases "key" twoConsumers 6
            = Runs.run (step plainLeases "key") .initial twoConsumers := rfl
          _ = Runs.run (step plainLeases "key") issuedWorld [(0, .start (useCall .consume)),
                (1, .start (useCall .consume)), (0, .save none), (1, .save none)] := run_issued _
          _ = step plainLeases "key" third (1, .save none) := by
            rw [Runs.run_cons, Runs.run_cons, Runs.run_cons, Runs.run_cons, Runs.run_nil, hworld,
              hworld', hworld'']
      rw [hrun, hfourth, hthird, hsecond, hfirst]
    intro hsingle
    have honce := hsingle.once
    rw [hlast, List.pairwise_append] at honce
    exact honce.2.2 _ (List.mem_append_right _ (List.mem_singleton_self _)) _
      (List.mem_singleton_self _) answer answer rfl rfl rfl rfl

end Protheus.Security.Leases
