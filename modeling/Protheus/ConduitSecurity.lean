import Protheus.Json
import Protheus.RustStd

/-!
The checks of `conduit-security/src/lib.rs`: signed values, capability tokens
and the rate limiter.

A signature is the hash of a key id, a secret and the canonical JSON of a value.
A token is valid when it carries the authority's signature over its claims, is
not past its expiry and lists the scope asked for.  The limiter keeps a counter
for every client and for every client and command; a counter counts every call
in a window, refused ones included, and starts a new window at the first call
that comes `window_ms` or more after the start of the old one, on the clock the
caller passes in.
-/

namespace Protheus.ConduitSecurity

open Std (ExtTreeMap)

/-- `CapabilityToken`. -/
structure CapabilityToken where
  tokenId : String
  subject : String
  capabilities : List String
  issuedAtMs : UInt64
  expiresAtMs : UInt64
  /-- The authority's signature over the fields above. -/
  signature : String
  deriving DecidableEq

/-- `SecurityError`. -/
inductive SecurityError where
  | signatureInvalid
  | capabilityTokenInvalid
  | capabilityTokenExpired
  | capabilityTokenMissingScope (scope : String)
  | rateLimited (scope : String) (limit : UInt32) (windowMs : UInt64)
  deriving DecidableEq

def SecurityError.display : SecurityError → String
  | .signatureInvalid => "message_signature_invalid"
  | .capabilityTokenInvalid => "capability_token_invalid"
  | .capabilityTokenExpired => "capability_token_expired"
  | .capabilityTokenMissingScope scope => "capability_token_missing_scope:" ++ scope
  | .rateLimited scope limit windowMs =>
    "rate_limited:" ++ scope ++ ":" ++ toString limit.toNat ++ ":" ++ toString windowMs.toNat

/-! ## Signatures and tokens -/

/-- `MessageSigner`. -/
structure MessageSigner where
  /-- The public name of the key. -/
  keyId : String
  secret : String

section Signing

variable (sha256Hex : String → String) (printFloat : ℚ → String)

/-- `MessageSigner::sign_payload`. -/
def MessageSigner.signPayload (signer : MessageSigner) (payload : String) : String :=
  sha256Hex (signer.keyId ++ ":" ++ signer.secret ++ ":" ++ payload)

/-- `MessageSigner::sign_value`. -/
def MessageSigner.signValue (signer : MessageSigner) (value : Json) : String :=
  signer.signPayload sha256Hex (value.canonicalJson printFloat)

/-- `MessageSigner::verify_value`. -/
def MessageSigner.verifyValue (signer : MessageSigner) (value : Json) (signature : String) : Bool :=
  signer.signPayload sha256Hex (value.canonicalJson printFloat) == signature

/-- `deterministic_hash`. -/
def deterministicHash (value : Json) : String := sha256Hex (value.canonicalJson printFloat)

/-- `token_claims_view`: what the authority signs. -/
def tokenClaimsView (token : CapabilityToken) : Json :=
  Json.ofFields [("token_id", .str token.tokenId), ("subject", .str token.subject),
    ("capabilities", .arr (token.capabilities.map .str)),
    ("issued_at_ms", .num (.posInt token.issuedAtMs)),
    ("expires_at_ms", .num (.posInt token.expiresAtMs))]

/-- `CapabilityTokenAuthority`. -/
structure CapabilityTokenAuthority where
  signer : MessageSigner

/-- `CapabilityTokenAuthority::mint`. -/
def CapabilityTokenAuthority.mint (authority : CapabilityTokenAuthority) (tokenId subject : String)
    (capabilities : List String) (issuedAtMs expiresAtMs : UInt64) : CapabilityToken :=
  let token : CapabilityToken :=
    { tokenId, subject, capabilities := (capabilities.insertionSort (· ≤ ·)).destutter (· ≠ ·),
      issuedAtMs, expiresAtMs, signature := "" }
  { token with signature := authority.signer.signValue sha256Hex printFloat (tokenClaimsView token) }

/-- `CapabilityTokenAuthority::validate`. -/
def CapabilityTokenAuthority.validate (authority : CapabilityTokenAuthority)
    (token : CapabilityToken) (nowMs : UInt64) (requiredScope : String) :
    Except SecurityError Unit :=
  if !authority.signer.verifyValue sha256Hex printFloat (tokenClaimsView token) token.signature then
    .error .capabilityTokenInvalid
  else if nowMs > token.expiresAtMs then .error .capabilityTokenExpired
  else if !token.capabilities.any (· == requiredScope) then
    .error (.capabilityTokenMissingScope requiredScope)
  else .ok ()

/-- What the authority checks of a token. -/
structure TokenValid (authority : CapabilityTokenAuthority) (token : CapabilityToken)
    (nowMs : UInt64) (requiredScope : String) : Prop where
  /-- The token carries the authority's signature over its claims. -/
  signed : token.signature = authority.signer.signValue sha256Hex printFloat (tokenClaimsView token)
  /-- It is not past its expiry. -/
  unexpired : nowMs ≤ token.expiresAtMs
  /-- It lists the scope. -/
  listed : requiredScope ∈ token.capabilities

variable {sha256Hex printFloat}

theorem verifyValue_iff {signer : MessageSigner} {value : Json} {signature : String} :
    signer.verifyValue sha256Hex printFloat value signature = true ↔
      signature = signer.signValue sha256Hex printFloat value := by
  rw [MessageSigner.verifyValue, beq_iff_eq, MessageSigner.signValue, eq_comm]

theorem tokenValidate_ok_iff {authority : CapabilityTokenAuthority} {token : CapabilityToken}
    {nowMs : UInt64} {requiredScope : String} :
    authority.validate sha256Hex printFloat token nowMs requiredScope = .ok () ↔
      TokenValid sha256Hex printFloat authority token nowMs requiredScope := by
  unfold CapabilityTokenAuthority.validate
  by_cases hsig : authority.signer.verifyValue sha256Hex printFloat (tokenClaimsView token)
      token.signature = true
  · by_cases hexp : nowMs > token.expiresAtMs
    · simp only [hsig, hexp, Bool.not_true, Bool.false_eq_true, if_true, if_false, reduceCtorEq,
        false_iff]
      exact fun h => absurd h.unexpired (UInt64.not_le.mpr hexp)
    · by_cases hscope : token.capabilities.any (· == requiredScope) = true
      · simp only [hsig, hexp, hscope, Bool.not_true, Bool.false_eq_true, if_false, true_iff]
        exact ⟨verifyValue_iff.mp hsig, UInt64.not_lt.mp hexp, by simpa using hscope⟩
      · simp only [hsig, hexp, hscope, Bool.not_true, Bool.not_false, Bool.false_eq_true, if_true,
          if_false, reduceCtorEq, false_iff]
        exact fun h => hscope (by simpa using h.listed)
  · simp only [hsig, Bool.not_false, if_true, reduceCtorEq, false_iff]
    exact fun h => hsig (verifyValue_iff.mpr h.signed)

end Signing

/-! ## The rate limiter -/

/-- `RateLimitPolicy`, with the limits it defaults to. -/
structure RateLimitPolicy where
  windowMs : UInt64 := 1000
  /-- How many calls of one client a window admits. -/
  perClientMax : UInt32 := 60
  /-- How many calls of one client with one command a window admits. -/
  perClientCommandMax : UInt32 := 20

/-- `WindowCounter`. -/
structure WindowCounter where
  windowStartMs : UInt64
  count : UInt32 := 0
  deriving DecidableEq

/-- Whether a call at `nowMs` starts a new window. -/
def WindowCounter.stale (counter : WindowCounter) (nowMs windowMs : UInt64) : Bool :=
  RustStd.satSub nowMs counter.windowStartMs ≥ windowMs

/-- `WindowCounter::increment`. -/
def WindowCounter.increment (counter : WindowCounter) (nowMs windowMs : UInt64) : WindowCounter :=
  let counter :=
    if counter.stale nowMs windowMs then { windowStartMs := nowMs, count := 0 } else counter
  { counter with count := RustStd.satSucc counter.count }

/-- `RateLimiter`. -/
structure RateLimiter where
  policy : RateLimitPolicy
  perClient : ExtTreeMap String WindowCounter := ∅
  perClientCommand : ExtTreeMap String WindowCounter := ∅

/-- The counter under a key after one more call, new or not. -/
def bump (counters : ExtTreeMap String WindowCounter) (key : String) (nowMs windowMs : UInt64) :
    WindowCounter :=
  ((counters[key]?).getD { windowStartMs := nowMs }).increment nowMs windowMs

/-- `RateLimiter::allow`. -/
def RateLimiter.allow (limiter : RateLimiter) (clientId commandType : String) (nowMs : UInt64) :
    RateLimiter × Except SecurityError Unit :=
  let clientCounter := bump limiter.perClient clientId nowMs limiter.policy.windowMs
  let limiter := { limiter with perClient := limiter.perClient.insert clientId clientCounter }
  if clientCounter.count > limiter.policy.perClientMax then
    (limiter, .error (.rateLimited "client" limiter.policy.perClientMax limiter.policy.windowMs))
  else
    let commandKey := clientId ++ ":" ++ commandType
    let commandCounter := bump limiter.perClientCommand commandKey nowMs limiter.policy.windowMs
    let limiter :=
      { limiter with perClientCommand := limiter.perClientCommand.insert commandKey commandCounter }
    if commandCounter.count > limiter.policy.perClientCommandMax then
      (limiter, .error (.rateLimited "client_command" limiter.policy.perClientCommandMax
        limiter.policy.windowMs))
    else (limiter, .ok ())

section Limiter

variable {limiter : RateLimiter} {client clientId commandType : String} {nowMs : UInt64}

@[simp] theorem allow_policy : (limiter.allow clientId commandType nowMs).1.policy = limiter.policy := by
  unfold RateLimiter.allow
  dsimp only
  split
  · rfl
  · split <;> rfl

theorem allow_perClient : (limiter.allow clientId commandType nowMs).1.perClient =
    limiter.perClient.insert clientId
      (bump limiter.perClient clientId nowMs limiter.policy.windowMs) := by
  unfold RateLimiter.allow
  dsimp only
  split
  · rfl
  · split <;> rfl

/-- An admitted call leaves the client's counter within its limit. -/
theorem count_le_of_allow (h : (limiter.allow clientId commandType nowMs).2 = .ok ()) :
    (bump limiter.perClient clientId nowMs limiter.policy.windowMs).count ≤
      limiter.policy.perClientMax := by
  unfold RateLimiter.allow at h
  by_contra hgt
  rw [UInt32.not_le] at hgt
  simp [hgt] at h

/-- Whether a call of `client` starts a window: its first one, or one that comes
`window_ms` or more after the start of the current one. -/
def RateLimiter.opens (limiter : RateLimiter) (client : String) (nowMs : UInt64) : Bool :=
  (limiter.perClient[client]?).all fun counter => counter.stale nowMs limiter.policy.windowMs

/-- How many more calls of `client` its current window can admit. -/
def RateLimiter.room (limiter : RateLimiter) (client : String) : ℕ :=
  match limiter.perClient[client]? with
  | some counter => limiter.policy.perClientMax.toNat - counter.count.toNat
  | none => 0

theorem room_le : limiter.room client ≤ limiter.policy.perClientMax.toNat := by
  unfold RateLimiter.room
  split <;> omega

/-- When the current window of `client` was started, on the limiter's clock. -/
def RateLimiter.windowStart (limiter : RateLimiter) (client : String) : Option UInt64 :=
  limiter.perClient[client]?.map (·.windowStartMs)

/-- A call of the client starts a window now, or leaves the start where it was. -/
theorem windowStart_after_allow :
    (limiter.allow client commandType nowMs).1.windowStart client =
      if limiter.opens client nowMs then some nowMs else limiter.windowStart client := by
  simp only [RateLimiter.windowStart, RateLimiter.opens, allow_perClient,
    ExtTreeMap.getElem?_insert_self, Option.map_some, bump]
  rcases Option.eq_none_or_eq_some (limiter.perClient[client]?) with hc | ⟨counter, hc⟩
  · simp only [hc, Option.getD_none, WindowCounter.increment, Option.all_none, if_true]
    split <;> rfl
  · simp only [hc, Option.getD_some, WindowCounter.increment, Option.all_some, Option.map_some]
    split <;> rfl

theorem windowStart_of_ne (hne : clientId ≠ client) :
    (limiter.allow clientId commandType nowMs).1.windowStart client = limiter.windowStart client := by
  have hcmp : compare clientId client ≠ .eq := fun h => hne (Std.LawfulEqOrd.eq_of_compare h)
  simp [RateLimiter.windowStart, allow_perClient, ExtTreeMap.getElem?_insert, hcmp]

theorem opens_windowStart {start : UInt64} (hopens : limiter.opens client nowMs = true)
    (hstart : limiter.windowStart client = some start) (hle : start.toNat ≤ nowMs.toNat) :
    start.toNat + limiter.policy.windowMs.toNat ≤ nowMs.toNat := by
  obtain ⟨counter, hcounter, rfl⟩ := Option.map_eq_some_iff.mp hstart
  rw [RateLimiter.opens, hcounter, Option.all_some, WindowCounter.stale, decide_eq_true_eq, ge_iff_le,
    UInt64.le_iff_toNat_le, RustStd.toNat_satSub] at hopens
  omega

/-- What one call of the client does to the room in its window: it takes one
place of it, or of a new window's. -/
theorem room_after_allow (hmax : limiter.policy.perClientMax.toNat < 2 ^ 32 - 1) :
    (if (limiter.allow client commandType nowMs).2 = .ok () then 1 else 0) +
        (limiter.allow client commandType nowMs).1.room client ≤
      if limiter.opens client nowMs then limiter.policy.perClientMax.toNat
      else limiter.room client := by
  have hroom : (limiter.allow client commandType nowMs).1.room client =
      limiter.policy.perClientMax.toNat -
        (bump limiter.perClient client nowMs limiter.policy.windowMs).count.toNat := by
    simp [RateLimiter.room, allow_perClient]
  have hok : (limiter.allow client commandType nowMs).2 = .ok () →
      (bump limiter.perClient client nowMs limiter.policy.windowMs).count.toNat ≤
        limiter.policy.perClientMax.toNat := fun h => UInt32.le_iff_toNat_le.mp (count_le_of_allow h)
  rw [hroom]
  cases hc : limiter.perClient[client]? with
  | none =>
    have hcount : (bump limiter.perClient client nowMs limiter.policy.windowMs).count.toNat = 1 := by
      simp only [bump, hc, Option.getD_none, WindowCounter.increment]
      split <;> rfl
    rw [hcount] at hok ⊢
    simp only [RateLimiter.opens, hc, Option.all_none, if_true]
    split
    · have := hok ‹_›
      omega
    · omega
  | some counter =>
    by_cases hstale : counter.stale nowMs limiter.policy.windowMs = true
    · have hcount : (bump limiter.perClient client nowMs limiter.policy.windowMs).count.toNat = 1 := by
        simp only [bump, hc, Option.getD_some, WindowCounter.increment, hstale, if_true]
        rfl
      rw [hcount] at hok ⊢
      simp only [RateLimiter.opens, hc, Option.all_some, hstale, if_true]
      split
      · have := hok ‹_›
        omega
      · omega
    · have hcount : (bump limiter.perClient client nowMs limiter.policy.windowMs).count.toNat =
          min (counter.count.toNat + 1) (2 ^ 32 - 1) := by
        simp only [bump, hc, Option.getD_some, WindowCounter.increment, hstale, Bool.false_eq_true,
          if_false, RustStd.toNat_satSucc]
      rw [hcount] at hok ⊢
      simp only [RateLimiter.opens, RateLimiter.room, hc, Option.all_some, hstale,
        Bool.false_eq_true, if_false]
      split
      · have := hok ‹_›
        omega
      · omega

/-- A call of another client leaves the client's window alone. -/
theorem room_of_ne (hne : clientId ≠ client) :
    (limiter.allow clientId commandType nowMs).1.room client = limiter.room client := by
  have hcmp : compare clientId client ≠ .eq := fun h => hne (Std.LawfulEqOrd.eq_of_compare h)
  simp [RateLimiter.room, allow_perClient, ExtTreeMap.getElem?_insert, hcmp]

end Limiter

end Protheus.ConduitSecurity
