import Protheus.JsonText
import Protheus.RustStd

/-!
The helpers of `v8_kernel.rs` and `lib.rs` that the directive vault and the network
ledgers share: cleaned text, digests, the Merkle root.

SHA-256, the printer of floats and the clock's time stamps come from outside.
`IdealHost` is what is taken of them: no two texts have one digest, and a digest is
a word of lower-case hex digits.
-/

namespace Protheus.V8Kernel

/-- What the process gets from outside: `sha256_hex_str`, the text of a float in JSON,
and `now_iso` at a reading of the clock. -/
structure Host where
  sha256HexStr : String → String
  printFloat : ℚ → String
  nowIso : ℕ → String

/-- `clean`. -/
def clean (v : String) (maxLen : ℕ) : String :=
  String.ofList ((RustStd.trim v).toList.take maxLen)

theorem length_clean_le (v : String) (maxLen : ℕ) : (clean v maxLen).length ≤ maxLen := by
  rw [clean, String.length_ofList]
  exact List.length_take_le _ _

theorem clean_eq_self {v : String} {maxLen : ℕ} (htrim : RustStd.trim v = v) (hlength : v.length ≤ maxLen) :
    clean v maxLen = v := by
  rw [clean, htrim, List.take_of_length_le, String.ofList_toList]
  rwa [String.length_toList]

/-- Cleaning blanks out blank texts only. -/
theorem trim_clean_eq_empty_iff {v : String} {maxLen : ℕ} (h : 0 < maxLen) :
    RustStd.trim (clean v maxLen) = "" ↔ RustStd.trim v = "" := by
  have hempty : clean v maxLen = String.ofList ((RustStd.trim v).toList.take maxLen) := rfl
  constructor
  · intro hblank
    obtain htrim | ⟨c, rest, htrim, hc⟩ := RustStd.trim_toList v
    · exact String.toList_injective htrim
    · obtain ⟨n, rfl⟩ := Nat.exists_eq_succ_of_ne_zero h.ne'
      have := RustStd.trim_eq_empty_iff.mp hblank c (by simp [hempty, htrim])
      rw [this] at hc
      cases hc
  · intro hblank
    rw [hempty, hblank]
    simp [RustStd.trim]

/-- `str::eq_ignore_ascii_case`. -/
def eqIgnoreAsciiCase (a b : String) : Bool :=
  RustStd.toAsciiLowercase a == RustStd.toAsciiLowercase b

/-- `parse_bool`. -/
def parseBool (raw : Option String) (fallback : Bool) : Bool :=
  match raw.map fun v => RustStd.toAsciiLowercase (RustStd.trim v) with
  | none => fallback
  | some v =>
    if ["1", "true", "yes", "on"].contains v then true
    else if ["0", "false", "no", "off"].contains v then false
    else fallback

/-- `serde_json::to_string`. -/
def Host.toText (host : Host) (value : Json) : String := value.render host.printFloat

/-- The digest of a value's text. -/
def Host.digest (host : Host) (value : Json) : String := host.sha256HexStr (host.toText value)

def keyedDigestHex (host : Host) (secret : String) (payload : Json) : String :=
  host.sha256HexStr (clean secret 4096 ++ ":" ++ host.toText payload)

/-! ## Merkle roots -/

/-- One round of the loop of `deterministic_merkle_root`. -/
def pairUp (host : Host) : List String → List String
  | [] => []
  | [left] => [host.sha256HexStr ("node:" ++ left ++ ":" ++ left)]
  | left :: right :: rest => host.sha256HexStr ("node:" ++ left ++ ":" ++ right) :: pairUp host rest

/-- The loop of `deterministic_merkle_root`, for at most so many rounds. -/
def climb (host : Host) : ℕ → List String → List String
  | 0, level => level
  | rounds + 1, level => if level.length ≤ 1 then level else climb host rounds (pairUp host level)

/-- `deterministic_merkle_root`. -/
def deterministicMerkleRoot (host : Host) (leaves : List String) : String :=
  if leaves.isEmpty then host.sha256HexStr "merkle:empty"
  else (climb host leaves.length (leaves.map fun leaf => host.sha256HexStr ("leaf:" ++ leaf))).headD ""

theorem length_pairUp (host : Host) :
    ∀ level : List String, (pairUp host level).length = (level.length + 1) / 2
  | [] => rfl
  | [_] => by simp [pairUp]
  | _ :: _ :: rest => by
    simp only [pairUp, List.length_cons, length_pairUp host rest]
    omega

/-- As many rounds as there are leaves reach the root. -/
theorem length_climb (host : Host) {rounds : ℕ} {level : List String} (hne : level ≠ [])
    (h : level.length ≤ rounds + 1) : (climb host rounds level).length = 1 := by
  have hpos := List.length_pos_iff.mpr hne
  induction rounds generalizing level with
  | zero =>
    rw [climb]
    omega
  | succ rounds ih =>
    rw [climb]
    split
    · omega
    · have hlength := length_pairUp host level
      have hpair : 0 < (pairUp host level).length := by omega
      exact ih (List.length_pos_iff.mp hpair) (by omega) hpair

/-! ## Ideal digests -/

def isHexDigit (c : Char) : Bool :=
  (48 ≤ c.toNat && c.toNat ≤ 57) || (97 ≤ c.toNat && c.toNat ≤ 102)

/-- A word of hex digits. -/
def IsHex (s : String) : Prop := s ≠ "" ∧ ∀ c ∈ s.toList, isHexDigit c = true

/-- What is taken of the outside: injective hex digests, floats printed apart from
integers and from one another, and time stamps that are not blank. -/
structure IdealHost (host : Host) : Prop where
  injective : Function.Injective host.sha256HexStr
  hex : ∀ s, IsHex (host.sha256HexStr s)
  floats : Json.FloatText host.printFloat
  stamped : ∀ now, RustStd.trim (host.nowIso now) ≠ ""

section IsHex

variable {s : String}

theorem isHexDigit_not_whitespace {c : Char} (h : isHexDigit c = true) :
    RustStd.isWhitespace c = false := by
  simp only [isHexDigit, Bool.or_eq_true, Bool.and_eq_true, decide_eq_true_eq] at h
  simp only [RustStd.isWhitespace, Bool.or_eq_false_iff, Bool.and_eq_false_iff,
    decide_eq_false_iff_not, beq_eq_false_iff_ne]
  omega

theorem toLower_of_isHexDigit {c : Char} (h : isHexDigit c = true) : c.toLower = c := by
  simp only [isHexDigit, Bool.or_eq_true, Bool.and_eq_true, decide_eq_true_eq] at h
  unfold Char.toLower
  rw [dif_neg]
  rintro ⟨hlo, hhi⟩
  have hlo' : 65 ≤ c.toNat := hlo
  have hhi' : c.toNat ≤ 90 := hhi
  omega

theorem IsHex.trim (h : IsHex s) : RustStd.trim s = s :=
  RustStd.trim_eq_self fun c hc => isHexDigit_not_whitespace (h.2 c hc)

theorem IsHex.toAsciiLowercase (h : IsHex s) : RustStd.toAsciiLowercase s = s := by
  have hmap : s.toList.map Char.toLower = s.toList :=
    (List.map_congr_left fun c hc => toLower_of_isHexDigit (h.2 c hc)).trans (List.map_id _)
  rw [RustStd.toAsciiLowercase, hmap, String.ofList_toList]

/-- Hex digits compare as they are. -/
theorem IsHex.eq_of_eqIgnoreAsciiCase {t : String} (hs : IsHex s) (ht : IsHex t)
    (h : eqIgnoreAsciiCase s t = true) : s = t := by
  rwa [eqIgnoreAsciiCase, hs.toAsciiLowercase, ht.toAsciiLowercase, beq_iff_eq] at h

/-- A word with a character that is no hex digit is no digest. -/
theorem IsHex.ne (h : IsHex s) {t : String} {c : Char} (hc : c ∈ t.toList)
    (hnot : isHexDigit c = false) : s ≠ t := by
  rintro rfl
  rw [h.2 c hc] at hnot
  cases hnot

end IsHex

namespace IdealHost

variable {host : Host} (ideal : IdealHost host)
include ideal

theorem digest_hex (value : Json) : IsHex (host.digest value) := ideal.hex _

theorem keyedDigestHex_hex (secret : String) (payload : Json) :
    IsHex (keyedDigestHex host secret payload) := ideal.hex _

/-- **A digest determines the value.** -/
theorem digest_injective {a b : Json} (h : host.digest a = host.digest b) : a = b :=
  Json.render_injective ideal.floats (ideal.injective h)

theorem keyedDigestHex_injective {secret : String} {a b : Json}
    (h : keyedDigestHex host secret a = keyedDigestHex host secret b) : a = b := by
  have htext := ideal.injective h
  exact Json.render_injective ideal.floats (String.append_right_inj _ |>.mp htext)

end IdealHost

/-! ## A host that is ideal -/

def hexChar (c : Char) : List Char :=
  [20, 16, 12, 8, 4, 0].map fun shift => Nat.digitChar (c.toNat / 2 ^ shift % 16)

def hexText (s : String) : String := String.ofList ('0' :: s.toList.flatMap hexChar)

/-- A rational as a numerator, a point and a denominator. -/
def pointed (q : ℚ) : String := toString q.num ++ "." ++ toString q.den

/-- A host for runs on concrete inputs: every digest spells its text out. -/
def plainHost : Host where
  sha256HexStr := hexText
  printFloat := pointed
  nowIso now := "t" ++ toString now

theorem isHexDigit_digitChar {n : ℕ} (h : n < 16) : isHexDigit (Nat.digitChar n) = true := by
  interval_cases n <;> decide

theorem digitChar_inj {m n : ℕ} (hm : m < 16) (hn : n < 16)
    (h : Nat.digitChar m = Nat.digitChar n) : m = n := by
  interval_cases m <;> interval_cases n <;> first | rfl | exact absurd h (by decide)

theorem hexChar_injective : Function.Injective hexChar := by
  intro c d h
  simp only [hexChar, List.map_cons, List.map_nil, List.cons.injEq, and_true] at h
  obtain ⟨h5, h4, h3, h2, h1, h0⟩ := h
  have hlt (k : ℕ) : k % 16 < 16 := Nat.mod_lt _ (by decide)
  have hvalid (x : Char) : x.toNat < 2 ^ 24 := by
    have hx : x.toNat < 55296 ∨ 57343 < x.toNat ∧ x.toNat < 1114112 := x.valid
    omega
  have hc := hvalid c
  have hd := hvalid d
  have e5 := digitChar_inj (hlt _) (hlt _) h5
  have e4 := digitChar_inj (hlt _) (hlt _) h4
  have e3 := digitChar_inj (hlt _) (hlt _) h3
  have e2 := digitChar_inj (hlt _) (hlt _) h2
  have e1 := digitChar_inj (hlt _) (hlt _) h1
  have e0 := digitChar_inj (hlt _) (hlt _) h0
  have hnat : c.toNat = d.toNat := by omega
  rw [← Char.ofNat_toNat c, hnat, Char.ofNat_toNat]

theorem hexText_injective : Function.Injective hexText := by
  intro s t h
  have hlist := (List.cons.inj (String.ofList_injective h)).2
  refine String.toList_injective ?_
  generalize s.toList = a at hlist
  generalize t.toList = b at hlist
  induction a generalizing b with
  | nil =>
    cases b with
    | nil => rfl
    | cons d b => cases hlist
  | cons c a ih =>
    cases b with
    | nil => cases hlist
    | cons d b =>
      rw [List.flatMap_cons, List.flatMap_cons] at hlist
      obtain ⟨hhead, htail⟩ := List.append_inj hlist (by simp [hexChar])
      rw [hexChar_injective hhead, ih b htail]

theorem isHex_hexText (s : String) : IsHex (hexText s) := by
  constructor
  · exact fun h => absurd (congrArg String.toList h) (by simp [hexText])
  · intro c hc
    rw [hexText, String.toList_ofList, List.mem_cons, List.mem_flatMap] at hc
    obtain rfl | ⟨d, -, hd⟩ := hc
    · decide
    · rw [hexChar, List.mem_map] at hd
      obtain ⟨shift, -, rfl⟩ := hd
      exact isHexDigit_digitChar (Nat.mod_lt _ (by decide))

theorem floatText_pointed : Json.FloatText pointed := by
  have hchars (q : ℚ) :
      (pointed q).toList = (toString q.num).toList ++ '.' :: (toString (q.den : ℤ)).toList := by
    rw [pointed, String.toList_append, String.toList_append, List.append_assoc]
    rfl
  have hword (n : ℤ) {c : Char} (hc : c ∈ (toString n).toList) :
      Json.isNumberChar c = true ∧ c ≠ '.' := by
    obtain h | rfl := Json.isDigit_or_minus_of_mem_repr hc
    · refine ⟨by simp [Json.isNumberChar, h], ?_⟩
      rintro rfl
      cases h
    · exact ⟨rfl, by decide⟩
  constructor
  · intro q r h
    have htexts := congrArg String.toList h
    rw [hchars, hchars] at htexts
    have hsplit (n : ℤ) (rest : List Char) :
        ((toString n).toList ++ '.' :: rest).takeWhile (· ≠ '.') = (toString n).toList := by
      rw [List.takeWhile_append_of_pos fun c hc => by simpa using (hword n hc).2]
      simp
    have hnum := congrArg (List.takeWhile (· ≠ '.')) htexts
    rw [hsplit, hsplit] at hnum
    rw [hnum] at htexts
    have hden := (List.cons.inj (List.append_cancel_left htexts)).2
    refine Rat.ext (Int.repr_inj.mp (String.toList_injective hnum)) ?_
    exact Int.ofNat_inj.mp (Int.repr_inj.mp (String.toList_injective hden))
  · intro q c hc
    rw [hchars, List.mem_append, List.mem_cons] at hc
    obtain hc | rfl | hc := hc
    · exact (hword _ hc).1
    · rfl
    · exact (hword _ hc).1
  · exact fun q => ⟨'.', by simp [hchars], rfl, by decide⟩

theorem plainHost_ideal : IdealHost plainHost where
  injective := hexText_injective
  hex := isHex_hexText
  floats := floatText_pointed
  stamped now h := by
    have := RustStd.trim_eq_empty_iff.mp h 't' (by simp [plainHost])
    cases this

end Protheus.V8Kernel
