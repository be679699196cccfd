import Protheus.LaneUtils
import Protheus.Lib.Words
import Protheus.ReceiptHash

/-!
What the lanes of `security_wave1.rs` share: cleaned text, flags, and a log whose rows carry the
hash of the row before and their own.

A digest is a word of 64 hex digits, so cleaning leaves it as it is (`cleanText_digest`).
-/

namespace Protheus.Security

open V8Kernel RustStd

/-! ## Text -/

/-- `clean_text`. -/
def cleanText (v : String) (maxLen : ℕ) : String := trim (String.ofList ((joinWords v).take maxLen))

def isTokenChar (c : Char) : Bool := c.isAlphanum || "_.:/-".toList.contains c

/-- `normalize_token`. -/
def normalizeToken (v : String) (maxLen : ℕ) : String :=
  let mapped := (toAsciiLowercase (cleanText v maxLen)).toList.map fun c =>
    if isTokenChar c then c else '_'
  String.ofList (['_'].intercalate ((mapped.splitOn '_').filter (!·.isEmpty)))

/-- `bool_state`. -/
def boolState (v : Option String) : Option Bool :=
  v.bind fun raw =>
    let word := toAsciiLowercase (trim raw)
    if ["1", "true", "yes", "on", "enable", "enabled"].contains word then some true
    else if ["0", "false", "no", "off", "disable", "disabled"].contains word then some false
    else none

/-- `number_i64`. -/
def numberI64 (v : Option Json) (fallback lo hi : ℤ) : ℤ :=
  max lo (min ((v.bind Json.asI64).getD fallback) hi)

/-- `value.get(name).and_then(Value::as_str)`. -/
def text? (value : Json) (name : String) : Option String := (value.get? name).bind Json.asStr

/-! ## Signed values -/

/-- `obj.remove("signature")`. -/
def withoutSignature : Json → Json
  | .obj fields => .obj (fields.filter fun f => f.1 != "signature")
  | other => other

theorem distinct_withoutSignature {value : Json} (h : value.Distinct) :
    (withoutSignature value).Distinct := by
  cases value with
  | obj fields =>
    refine ⟨?_, Json.distinctFields_iff.mpr fun f hf => ?_⟩
    · exact h.1.sublist (List.filter_sublist.map _)
    · exact Json.distinctFields_iff.mp h.2 f (List.mem_of_mem_filter hf)
  | _ => exact h

/-! ## Digests -/

/-- What is taken of SHA-256: its digests are 64 hex digits. -/
structure HexDigests (host : Host) : Prop where
  hex : ∀ s, IsHex (host.sha256HexStr s)
  length : ∀ s, (host.sha256HexStr s).toList.length = 64

/-- `sha256_hex(&stable_json_string(value))`. -/
def rowDigest (host : Host) (value : Json) : String :=
  host.sha256HexStr (value.stableJsonString host.printFloat)

section Digest

variable {host : Host} (hdigest : HexDigests host)
include hdigest

theorem cleanText_digest {maxLen : ℕ} (h : 64 ≤ maxLen) (s : String) :
    cleanText (host.sha256HexStr s) maxLen = host.sha256HexStr s := by
  have hfree : ∀ c ∈ (host.sha256HexStr s).toList, isWhitespace c = false := fun c hc =>
    isHexDigit_not_whitespace ((hdigest.hex s).2 c hc)
  have hjoined : joinWords (host.sha256HexStr s) = (host.sha256HexStr s).toList := by
    refine Words.joined_eq_self (by decide) (Words.spaced_of_free hfree) ?_ ?_ ?_
    · intro c hc hsep
      rw [hfree c hc] at hsep
      cases hsep
    · exact fun c hc => hfree c (List.mem_of_mem_head? hc)
    · exact fun c hc => hfree c (List.mem_of_mem_getLast? hc)
  rw [cleanText, hjoined, List.take_of_length_le ((hdigest.length s).le.trans h), String.ofList_toList]
  exact (hdigest.hex s).trim

theorem rowDigest_ne_empty (value : Json) : rowDigest host value ≠ "" := (hdigest.hex _).1

end Digest

/-- A digest for runs on concrete inputs. -/
def zeroDigest : String := String.ofList (List.replicate 64 '0')

def oneDigestHost : Host := { plainHost with sha256HexStr _ := zeroDigest }

theorem toList_zeroDigest : zeroDigest.toList = List.replicate 64 '0' := String.toList_ofList

theorem isHex_zeroDigest : IsHex zeroDigest := by
  constructor
  · intro h
    have hlength := congrArg (fun s => s.toList.length) h
    rw [toList_zeroDigest, List.length_replicate] at hlength
    cases hlength
  · intro c hc
    rw [toList_zeroDigest] at hc
    rw [List.eq_of_mem_replicate hc]
    rfl

theorem oneDigestHost_digests : HexDigests oneDigestHost where
  hex _ := isHex_zeroDigest
  length _ := by
    change zeroDigest.toList.length = 64
    rw [toList_zeroDigest, List.length_replicate]

end Protheus.Security
