import Protheus.Lib.Utf8

/-!
`ipc/src/lib.rs`: which envelopes a policy lets through, and the bytes an envelope is
hashed over.

The bytes are the channel, the nonce, the time stamp and the payload, with a bar
between each two.  A nonce may be any text that is not blank and a payload any bytes,
bars included, so the bytes do not say which of the bars separate.
`identifies_iff` says for which policies they still tell the envelope: those that let
nothing through, and those whose payloads are of one byte at most and whose channels
are not started by another one and a bar.  Among envelopes with no bar in the channel
and the nonce they always do.
-/

namespace Protheus.Ipc

open Utf8 (asBytes asBytes_append asBytes_inj mem_asBytes_iff)

/-- `IpcEnvelope`. -/
@[ext] structure IpcEnvelope where
  channel : String
  payload : List UInt8
  /-- A number used once, by the name. -/
  nonce : String
  tsMillis : UInt64
  deriving DecidableEq

/-- `IpcPolicy`. -/
structure IpcPolicy where
  allowedChannels : List String
  maxPayloadBytes : ℕ

/-- `IpcError`. -/
inductive IpcError where
  | invalidChannel
  | payloadTooLarge
  | missingNonce
  deriving DecidableEq

/-- `IpcPolicy::validate`. -/
def IpcPolicy.validate (policy : IpcPolicy) (envelope : IpcEnvelope) : Except IpcError Unit :=
  if (RustStd.trim envelope.nonce).isEmpty then .error .missingNonce
  else if envelope.payload.length > policy.maxPayloadBytes then .error .payloadTooLarge
  else if !policy.allowedChannels.any (· == envelope.channel) then .error .invalidChannel
  else .ok ()

def bar : UInt8 := UInt8.ofNat '|'.toNat

/-- The bytes `deterministic_envelope_hash` feeds to the hasher. -/
def hashedBytes (envelope : IpcEnvelope) : List UInt8 :=
  asBytes envelope.channel ++ bar :: (asBytes envelope.nonce ++ bar ::
    (asBytes (toString envelope.tsMillis.toNat) ++ bar :: envelope.payload))

/-! ## What is accepted -/

/-- What a policy asks of an envelope. -/
structure Accepted (policy : IpcPolicy) (envelope : IpcEnvelope) : Prop where
  nonce : RustStd.trim envelope.nonce ≠ ""
  payload : envelope.payload.length ≤ policy.maxPayloadBytes
  channel : envelope.channel ∈ policy.allowedChannels

theorem validate_ok_iff {policy : IpcPolicy} {envelope : IpcEnvelope} :
    policy.validate envelope = .ok () ↔ Accepted policy envelope := by
  unfold IpcPolicy.validate
  constructor
  · intro h
    split at h
    · cases h
    · rename_i hnonce
      split at h
      · cases h
      · rename_i hpayload
        split at h
        · cases h
        · rename_i hchannel
          exact ⟨by simpa using hnonce, Nat.le_of_not_lt hpayload, by simpa using hchannel⟩
  · intro h
    rw [if_neg (by simpa using h.nonce), if_neg (Nat.not_lt.mpr h.payload),
      if_neg (by simpa using h.channel)]

/-! ## What the bytes tell -/

/-- The bytes of a policy's envelopes tell the envelope. -/
def Identifies (policy : IpcPolicy) : Prop :=
  ∀ a b, policy.validate a = .ok () → policy.validate b = .ok () → hashedBytes a = hashedBytes b → a = b

/-- A channel starts another one, up to a bar. -/
def Starts (channel other : String) : Prop := (channel ++ "|").toList <+: other.toList

instance (channel other : String) : Decidable (Starts channel other) :=
  inferInstanceAs (Decidable (_ <+: _))

theorem bar_notMem_digits (n : ℕ) : bar ∉ asBytes (toString n) := by
  rw [bar, mem_asBytes_iff (by decide)]
  exact RustStd.notMem_toString rfl n

theorem asBytes_toString_ne_nil (n : ℕ) : asBytes (toString n) ≠ [] := by
  intro h
  have hempty : toString n = "" := asBytes_inj h
  have hlength := congrArg String.toList hempty
  rw [show (toString n).toList = Nat.toDigits 10 n from Nat.toList_repr] at hlength
  exact Nat.toDigits_ne_nil hlength

/-- The channels of two envelopes with the same bytes are one, unless one of them starts the other. -/
theorem channel_eq {c d : String} {x y : List UInt8} (hcd : ¬ Starts c d) (hdc : ¬ Starts d c)
    (h : asBytes c ++ bar :: x = asBytes d ++ bar :: y) : c = d := by
  have hstarts {c d : String} {x y : List UInt8} (h : asBytes c ++ bar :: x = asBytes d ++ bar :: y)
      (hlt : (asBytes c).length < (asBytes d).length) : Starts c d := by
    have hbar : asBytes (c ++ "|") = asBytes c ++ [bar] := by
      rw [asBytes_append]
      rfl
    have hinitial : asBytes c ++ [bar] <+: asBytes d := by
      have hleft : asBytes c ++ [bar] <+: asBytes d ++ bar :: y := ⟨x, by rw [← h]; simp⟩
      exact List.prefix_of_prefix_length_le hleft (List.prefix_append _ _) (by simpa using hlt)
    obtain ⟨rest, hrest⟩ := hinitial
    exact Utf8.initial_of_asBytes (hbar ▸ hrest)
  rcases Nat.lt_trichotomy (asBytes c).length (asBytes d).length with hlt | heq | hgt
  · exact absurd (hstarts h hlt) hcd
  · exact asBytes_inj (List.append_inj h heq).1
  · exact absurd (hstarts h.symm hgt) hdc

/-- A last bar is the one a payload starts after, where no payload is longer than a byte. -/
theorem payload_eq {x y p q : List UInt8} (hx : x.getLast? ≠ some bar) (hy : y.getLast? ≠ some bar)
    (hp : p.length ≤ 1) (hq : q.length ≤ 1) (h : x ++ bar :: p = y ++ bar :: q) : x = y ∧ p = q := by
  -- With payloads of two lengths, the shorter side's bar ends the longer side's digits.
  have hmixed {x y : List UInt8} {b : UInt8} (hx : x.getLast? ≠ some bar)
      (h : x ++ [bar] = y ++ [bar, b]) : False := by
    rw [show y ++ [bar, b] = (y ++ [bar]) ++ [b] by simp] at h
    obtain ⟨hbody, -⟩ := List.append_inj' h rfl
    exact hx (by rw [hbody]; simp)
  match p, q, hp, hq with
  | [], [], _, _ => exact ⟨(List.append_inj' h rfl).1, rfl⟩
  | [], [b], _, _ => exact (hmixed hx h).elim
  | [b], [], _, _ => exact (hmixed hy h.symm).elim
  | [b], [c], _, _ =>
    obtain ⟨hbody, htail⟩ := List.append_inj' h rfl
    exact ⟨hbody, (List.cons.inj htail).2⟩

/-- A time stamp ends in a digit. -/
theorem getLast_stamped (x : List UInt8) (n : ℕ) :
    (x ++ bar :: asBytes (toString n)).getLast? ≠ some bar := by
  have hne := asBytes_toString_ne_nil n
  rw [List.getLast?_append_of_ne_nil _ (by simp), List.getLast?_cons, List.getLast?_eq_some_getLast hne]
  intro h
  have hlast : (asBytes (toString n)).getLast hne = bar := Option.some.inj h
  exact bar_notMem_digits n (hlast ▸ List.getLast_mem hne)

/-- The nonce and the time stamp can be told from the bytes up to the payload. -/
theorem stamped_inj {a b : String} {m n : UInt64}
    (h : asBytes a ++ bar :: asBytes (toString m.toNat) = asBytes b ++ bar :: asBytes (toString n.toNat)) :
    a = b ∧ m = n := by
  obtain ⟨hnonce, hstamp⟩ := RustStd.append_cons_inj_last (bar_notMem_digits _) (bar_notMem_digits _) h
  exact ⟨asBytes_inj hnonce, UInt64.toNat_inj.mp (RustStd.toString_injective (asBytes_inj hstamp))⟩

/-- Short payloads on channels that do not start one another leave one envelope for the bytes. -/
theorem identifies_of {policy : IpcPolicy} (hmax : policy.maxPayloadBytes ≤ 1)
    (hstarts : ∀ c ∈ policy.allowedChannels, ∀ d ∈ policy.allowedChannels, ¬ Starts c d) :
    Identifies policy := by
  intro a b ha hb h
  rw [validate_ok_iff] at ha hb
  have hchannel : a.channel = b.channel :=
    channel_eq (hstarts _ ha.channel _ hb.channel) (hstarts _ hb.channel _ ha.channel) h
  unfold hashedBytes at h
  rw [hchannel] at h
  have hrest := (List.cons.inj (List.append_cancel_left h)).2
  rw [← List.cons_append, ← List.cons_append, ← List.append_assoc, ← List.append_assoc] at hrest
  obtain ⟨hstamped, hpayload⟩ := payload_eq (getLast_stamped _ _) (getLast_stamped _ _)
    (ha.payload.trans hmax) (hb.payload.trans hmax) hrest
  obtain ⟨hnonce, hstamp⟩ := stamped_inj hstamped
  exact IpcEnvelope.ext hchannel hpayload hnonce hstamp

/-- Envelopes with no bar in the channel and the nonce are told by their bytes. -/
theorem eq_of_barless {a b : IpcEnvelope} (ha : '|' ∉ a.channel.toList ∧ '|' ∉ a.nonce.toList)
    (hb : '|' ∉ b.channel.toList ∧ '|' ∉ b.nonce.toList) (h : hashedBytes a = hashedBytes b) : a = b := by
  have hbar {s : String} (hs : '|' ∉ s.toList) : bar ∉ asBytes s :=
    fun hmem => hs ((mem_asBytes_iff (by decide)).mp hmem)
  obtain ⟨hchannel, hrest⟩ := RustStd.append_cons_inj (hbar ha.1) (hbar hb.1) h
  obtain ⟨hnonce, hrest⟩ := RustStd.append_cons_inj (hbar ha.2) (hbar hb.2) hrest
  obtain ⟨hstamp, hpayload⟩ := RustStd.append_cons_inj (bar_notMem_digits _) (bar_notMem_digits _) hrest
  have hts := UInt64.toNat_inj.mp (RustStd.toString_injective (asBytes_inj hstamp))
  exact IpcEnvelope.ext (asBytes_inj hchannel) hpayload (asBytes_inj hnonce) hts

/-! ## What they do not tell -/

/-- Two envelopes on a channel: a bar in the payload of one is a separator of the other. -/
def payloadPair (channel : String) : IpcEnvelope × IpcEnvelope :=
  (⟨channel, [50, bar], "a", 1⟩, ⟨channel, [], "a|1", 2⟩)

theorem payloadPair_hashed (channel : String) :
    hashedBytes (payloadPair channel).1 = hashedBytes (payloadPair channel).2 := by
  have htail : asBytes "a" ++ bar :: (asBytes (toString (1 : UInt64).toNat) ++ bar :: [50, bar]) =
      asBytes "a|1" ++ bar :: (asBytes (toString (2 : UInt64).toNat) ++ bar :: []) := by
    decide
  exact congrArg (asBytes channel ++ bar :: ·) htail

/-- Two envelopes on two channels: a bar in the longer channel is a separator of the other. -/
def channelPair (channel rest : String) : IpcEnvelope × IpcEnvelope :=
  (⟨channel ++ "|" ++ rest, [], "a", 1⟩, ⟨channel, [], rest ++ "|a", 1⟩)

theorem channelPair_hashed (channel rest : String) :
    hashedBytes (channelPair channel rest).1 = hashedBytes (channelPair channel rest).2 := by
  simp only [hashedBytes, channelPair, asBytes_append, List.append_assoc]
  rfl

/-- **When the bytes tell the envelope.**  The envelopes a policy accepts are told by the bytes they
are hashed over exactly where it allows no channel, or its payloads are of one byte at most and no
allowed channel followed by a bar starts another.  Under every policy, envelopes with no bar in the
channel and the nonce are told. -/
theorem identifies_iff (policy : IpcPolicy) :
    (Identifies policy ↔ policy.allowedChannels = [] ∨ (policy.maxPayloadBytes ≤ 1 ∧
        ∀ c ∈ policy.allowedChannels, ∀ d ∈ policy.allowedChannels, ¬ Starts c d)) ∧
      ∀ a b : IpcEnvelope, '|' ∉ a.channel.toList ∧ '|' ∉ a.nonce.toList →
        '|' ∉ b.channel.toList ∧ '|' ∉ b.nonce.toList → hashedBytes a = hashedBytes b → a = b := by
  refine ⟨⟨fun h => ?_, ?_⟩, fun a b => eq_of_barless⟩
  · rw [or_iff_not_imp_left]
    intro hne
    obtain ⟨channel, hchannel⟩ := List.exists_mem_of_ne_nil _ hne
    have hblank {s : String} (hs : 'a' ∈ s.toList) : RustStd.trim s ≠ "" := fun hempty =>
      Bool.false_ne_true (RustStd.trim_eq_empty_iff.mp hempty 'a' hs)
    refine ⟨?_, fun c hc d hd hstarts => ?_⟩
    · by_contra hmax
      have heq := h (payloadPair channel).1 (payloadPair channel).2
        (validate_ok_iff.mpr ⟨hblank (by simp [payloadPair]), Nat.lt_of_not_le hmax, hchannel⟩)
        (validate_ok_iff.mpr ⟨hblank (by simp [payloadPair]), Nat.zero_le _, hchannel⟩)
        (payloadPair_hashed channel)
      have hlength := congrArg (fun e => e.payload.length) heq
      cases hlength
    · obtain ⟨rest, hrest⟩ := hstarts
      have hd' : c ++ "|" ++ String.ofList rest = d := String.toList_injective (by simp [← hrest])
      have heq := h (channelPair c (String.ofList rest)).1 (channelPair c (String.ofList rest)).2
        (validate_ok_iff.mpr ⟨hblank (by simp [channelPair]), Nat.zero_le _, by simpa [channelPair, hd'] using hd⟩)
        (validate_ok_iff.mpr ⟨hblank (by simp [channelPair]), Nat.zero_le _, hc⟩)
        (channelPair_hashed _ _)
      have hlength := congrArg (fun e => e.channel.toList.length) heq
      simp [channelPair] at hlength
  · rintro (hnone | ⟨hmax, hstarts⟩)
    · intro a b ha
      rw [validate_ok_iff] at ha
      have hmem := ha.channel
      rw [hnone] at hmem
      cases hmem
    · exact identifies_of hmax hstarts

theorem identifies_guard : Identifies ⟨["kernel.conduit", "kernel.status"], 1⟩ :=
  (identifies_iff _).1.mpr (.inr ⟨by decide, by decide⟩)

/-- The tests' policy accepts two envelopes that are hashed over the same bytes. -/
theorem bytes_meet :
    let policy : IpcPolicy := ⟨["kernel.conduit", "kernel.status"], 1024⟩
    let a : IpcEnvelope := ⟨"kernel.conduit", "2|".toUTF8.data.toList, "a", 1⟩
    let b : IpcEnvelope := ⟨"kernel.conduit", [], "a|1", 2⟩
    policy.validate a = .ok () ∧ policy.validate b = .ok () ∧ hashedBytes a = hashedBytes b ∧ a ≠ b := by
  decide

end Protheus.Ipc
