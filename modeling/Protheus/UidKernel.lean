import Mathlib.Data.Nat.Digits.Defs
import Mathlib.Tactic.Ring
import Protheus.RustStd

/-!
The identifiers of `uid_kernel.rs`: bytes read as a number and written in base 36.

`bytes_to_base36` divides the vector of bytes by 36 until nothing is left of it, one digit a
round.  A round is a long division (`divide_spec`), two rounds a byte are enough, and what
comes out is the numeral of the number the bytes stand for (`base36_numeral`).
-/

namespace Protheus.UidKernel

/-- `BASE36`. -/
def base36 : List Char := "0123456789abcdefghijklmnopqrstuvwxyz".toList

/-! ## Long division -/

/-- Where a division is: the remainder, the quotient, and whether its first digit is out. -/
structure Division where
  remainder : UInt32 := 0
  quotient : List UInt8 := []
  started : Bool := false

def Division.next (state : Division) (byte : UInt8) : Division :=
  let acc := state.remainder * 256 + byte.toUInt32
  let q := (acc / 36).toUInt8
  let remainder := acc % 36
  if q ≠ 0 ∨ state.started then
    { remainder, quotient := state.quotient ++ [q], started := true }
  else { state with remainder }

def divide (digits : List UInt8) : Division := digits.foldl Division.next {}

/-- The rounds of `bytes_to_base36`: what is put out, last digit first.  There is nothing after so
many rounds, or where a remainder is no digit. -/
def rounds : ℕ → List UInt8 → List Char → Option (List Char)
  | left, digits, out =>
    if digits.any (· ≠ 0) then
      match left with
      | 0 => none
      | left + 1 => do
        let digit ← base36[(divide digits).remainder.toNat]?
        rounds left (divide digits).quotient (out ++ [digit])
    else some out

/-- `bytes_to_base36`. -/
def bytesToBase36 (bytes : List UInt8) : Option String :=
  if bytes.all (· == 0) then some "0"
  else (rounds (2 * bytes.length) bytes []).map fun out => String.ofList out.reverse

/-! ## Identifiers -/

/-- `normalize_prefix`. -/
def normalizePrefix (raw : String) : String :=
  String.ofList (((raw.toList.filter Char.isAlphanum).map Char.toLower).take 4)

/-- `stable_uid`; `digest` is SHA-256. -/
def stableUid (digest : String → List UInt8) (seed wanted : String) (length : ℕ) : Option String :=
  (bytesToBase36 (digest seed)).map fun body =>
    String.ofList ((normalizePrefix wanted ++ body).toList.take length)

/-! ## Numbers -/

/-- The number that bytes stand for, the first byte the highest. -/
def value (bytes : List UInt8) : ℕ := Nat.ofDigits 256 (bytes.reverse.map UInt8.toNat)

/-- A number in base 36. -/
def numeral (n : ℕ) : String :=
  if n = 0 then "0" else String.ofList ((Nat.digits 36 n).reverse.map fun d => base36.getD d '0')

theorem value_append (bytes : List UInt8) (byte : UInt8) :
    value (bytes ++ [byte]) = value bytes * 256 + byte.toNat := by
  rw [value, List.reverse_append, List.reverse_singleton, List.singleton_append, List.map_cons,
    Nat.ofDigits_cons, ← value]
  ring

theorem value_lt (bytes : List UInt8) : value bytes < 256 ^ bytes.length := by
  have h := Nat.ofDigits_lt_base_pow_length (b := 256) (l := bytes.reverse.map UInt8.toNat) (by decide) (by
    intro n hn
    obtain ⟨byte, -, rfl⟩ := List.mem_map.mp hn
    exact byte.toNat_lt)
  simpa [value] using h

/-- The number says what the bytes are, once it is known how many. -/
theorem value_inj {a b : List UInt8} (hlength : a.length = b.length) (h : value a = value b) : a = b := by
  have hbyte (l : List UInt8) : ∀ n ∈ l.reverse.map UInt8.toNat, n < 256 := by
    intro n hn
    obtain ⟨byte, -, rfl⟩ := List.mem_map.mp hn
    exact byte.toNat_lt
  have hdigits := Nat.ofDigits_inj_of_len_eq (by decide) (by simpa using hlength) (hbyte a) (hbyte b) h
  exact List.reverse_inj.mp (List.map_injective_iff.mpr (fun _ _ => UInt8.toNat_inj.mp) hdigits)

theorem value_eq_zero_iff (bytes : List UInt8) : value bytes = 0 ↔ ∀ byte ∈ bytes, byte = 0 := by
  induction bytes using List.reverseRecOn with
  | nil => simp [value]
  | append_singleton bytes byte ih =>
    rw [value_append, Nat.add_eq_zero_iff, Nat.mul_eq_zero, or_iff_left (by decide), ih, List.forall_mem_append,
      List.forall_mem_singleton, ← UInt8.toNat_inj]
    rfl

/-! ## A round -/

/-- The sums of a division fit, and so do its quotients into a byte. -/
def Lossless (digits : List UInt8) : Prop :=
  ∀ before byte after, digits = before ++ byte :: after →
    let remainder := (divide before).remainder
    let acc := remainder * 256 + byte.toUInt32
    acc.toNat = remainder.toNat * 256 + byte.toNat ∧ (acc / 36).toUInt8.toNat = acc.toNat / 36

/-- What a remainder below 36 and a byte come to. -/
theorem acc_toNat {remainder : UInt32} (h : remainder.toNat < 36) (byte : UInt8) :
    let acc := remainder * 256 + byte.toUInt32
    acc.toNat = remainder.toNat * 256 + byte.toNat ∧
      (acc / 36).toUInt8.toNat = (remainder.toNat * 256 + byte.toNat) / 36 ∧
      (acc % 36).toNat = (remainder.toNat * 256 + byte.toNat) % 36 := by
  have hbyte := byte.toNat_lt
  have hacc : (remainder * 256 + byte.toUInt32).toNat = remainder.toNat * 256 + byte.toNat := by
    rw [UInt32.toNat_add, UInt32.toNat_mul, UInt8.toNat_toUInt32]
    have h256 : (256 : UInt32).toNat = 256 := rfl
    rw [h256]
    omega
  have h36 : (36 : UInt32).toNat = 36 := rfl
  refine ⟨hacc, ?_, ?_⟩
  · rw [UInt32.toNat_toUInt8, UInt32.toNat_div, hacc, h36]
    omega
  · rw [UInt32.toNat_mod, hacc, h36]

/-- **A round is a long division by 36.** -/
theorem divide_spec (digits : List UInt8) :
    value (divide digits).quotient = value digits / 36 ∧ (divide digits).remainder.toNat = value digits % 36 ∧
      ((divide digits).started = false → (divide digits).quotient = []) := by
  induction digits using List.reverseRecOn with
  | nil => exact ⟨rfl, rfl, fun _ => rfl⟩
  | append_singleton digits byte ih =>
    obtain ⟨hquotient, hremainder, hstarted⟩ := ih
    have hlt : (divide digits).remainder.toNat < 36 := by omega
    obtain ⟨-, hq, hr⟩ := acc_toNat hlt byte
    have hnext : divide (digits ++ [byte]) = (divide digits).next byte := by
      rw [divide, List.foldl_append]
      rfl
    rw [hnext, value_append, Division.next]
    split
    · refine ⟨?_, hr.trans (by omega), nofun⟩
      rw [value_append, hquotient, hq]
      omega
    · rename_i hskip
      obtain ⟨hzero, hnot⟩ := not_or.mp hskip
      have hnone : (divide digits).quotient = [] := hstarted (Bool.eq_false_iff.mpr hnot)
      rw [not_not] at hzero
      rw [hzero] at hq
      rw [hnone] at hquotient
      have hempty : value [] = 0 := rfl
      have hq0 : (0 : UInt8).toNat = 0 := rfl
      refine ⟨?_, hr.trans (by omega), fun _ => hnone⟩
      rw [hnone]
      omega

theorem lossless (digits : List UInt8) : Lossless digits := by
  intro before byte after _
  have hlt : (divide before).remainder.toNat < 36 := by
    have := (divide_spec before).2.1
    omega
  obtain ⟨hacc, hq, -⟩ := acc_toNat hlt byte
  exact ⟨hacc, by rw [hq, hacc]⟩

/-! ## All rounds -/

def digitChar (d : ℕ) : Char := base36.getD d '0'

theorem getElem?_base36 {d : ℕ} (h : d < 36) : base36[d]? = some (digitChar d) := by
  have hlength : base36.length = 36 := by decide
  rw [digitChar, List.getD_eq_getElem?_getD, List.getElem?_eq_getElem (by omega), Option.getD_some]

theorem any_ne_zero_iff (digits : List UInt8) : digits.any (· ≠ 0) = true ↔ value digits ≠ 0 := by
  rw [ne_eq, value_eq_zero_iff]
  simp

/-- The rounds put out the digits of the number, and there are as many as the number has digits. -/
theorem rounds_spec {left : ℕ} {digits : List UInt8} (h : value digits < 36 ^ left) (out : List Char) :
    rounds left digits out = some (out ++ (Nat.digits 36 (value digits)).map digitChar) := by
  induction left generalizing digits out with
  | zero =>
    have hzero : value digits = 0 := by omega
    have hnone : ¬digits.any (· ≠ 0) = true := by rw [any_ne_zero_iff, hzero, not_not]
    rw [rounds, if_neg hnone, hzero, Nat.digits_zero, List.map_nil, List.append_nil]
  | succ left ih =>
    by_cases hzero : value digits = 0
    · have hnone : ¬digits.any (· ≠ 0) = true := by rw [any_ne_zero_iff, hzero, not_not]
      rw [rounds, if_neg hnone, hzero, Nat.digits_zero, List.map_nil, List.append_nil]
    · obtain ⟨hquotient, hremainder, -⟩ := divide_spec digits
      have hlt : value (divide digits).quotient < 36 ^ left := by
        rw [hquotient]
        exact Nat.div_lt_of_lt_mul (by rwa [pow_succ, Nat.mul_comm] at h)
      have hdigit : base36[(divide digits).remainder.toNat]? = some (digitChar (value digits % 36)) := by
        rw [hremainder]
        exact getElem?_base36 (Nat.mod_lt _ (by decide))
      rw [rounds, if_pos ((any_ne_zero_iff digits).mpr hzero), hdigit]
      dsimp only [Option.bind_eq_bind, Option.bind_some]
      rw [ih hlt, hquotient, Nat.digits_eq_cons_digits_div (by decide) hzero, List.map_cons, List.append_assoc,
        List.singleton_append]

theorem bytesToBase36_eq (bytes : List UInt8) : bytesToBase36 bytes = some (numeral (value bytes)) := by
  have hall : bytes.all (· == 0) = true ↔ value bytes = 0 := by
    rw [value_eq_zero_iff]
    simp
  unfold bytesToBase36 numeral
  by_cases hzero : value bytes = 0
  · rw [if_pos (hall.mpr hzero), if_pos hzero]
  · have hlt : value bytes < 36 ^ (2 * bytes.length) := by
      rw [pow_mul]
      exact (value_lt bytes).trans_le (Nat.pow_le_pow_left (by decide) _)
    rw [if_neg (mt hall.mp hzero), if_neg hzero, rounds_spec hlt, List.nil_append, Option.map_some, List.map_reverse]
    rfl

/-! ## Numerals -/

theorem digitChar_injective : ∀ d < 36, ∀ e < 36, digitChar d = digitChar e → d = e := by decide +kernel

theorem toList_numeral {n : ℕ} (h : n ≠ 0) : (numeral n).toList = ((Nat.digits 36 n).map digitChar).reverse := by
  rw [numeral, if_neg h, String.toList_ofList, List.map_reverse]
  rfl

/-- A numeral starts with a zero only where it is one. -/
theorem numeral_head {n : ℕ} {rest : List Char} (h : (numeral n).toList = '0' :: rest) : n = 0 := by
  by_contra hn
  have hne : Nat.digits 36 n ≠ [] := Nat.digits_ne_nil_iff_ne_zero.mpr hn
  have hlast := Nat.getLast_digit_ne_zero 36 hn
  have hlt := Nat.digits_lt_base (by decide) (List.getLast_mem hne)
  rw [toList_numeral hn] at h
  have hhead := congrArg List.head? h
  rw [List.head?_reverse, List.getLast?_map, List.getLast?_eq_some_getLast hne, Option.map_some, List.head?_cons] at hhead
  exact hlast (digitChar_injective _ hlt 0 (by decide) (Option.some.inj hhead))

theorem numeral_inj {m n : ℕ} (h : numeral m = numeral n) : m = n := by
  by_cases hm : m = 0
  · subst hm
    exact (@numeral_head n [] (by rw [← h]; rfl)).symm
  · by_cases hn : n = 0
    · subst hn
      exact @numeral_head m [] (by rw [h]; rfl)
    · have hlist := congrArg String.toList h
      rw [toList_numeral hm, toList_numeral hn, List.reverse_inj] at hlist
      have hlength : (Nat.digits 36 m).length = (Nat.digits 36 n).length := by
        simpa using congrArg List.length hlist
      refine Nat.digits.injective 36 (List.ext_getElem hlength fun i h₁ h₂ => ?_)
      refine digitChar_injective _ (Nat.digits_lt_base (by decide) (List.getElem_mem h₁)) _
        (Nat.digits_lt_base (by decide) (List.getElem_mem h₂)) ?_
      have hat := congrArg (·[i]?) hlist
      simpa [h₁, h₂] using hat

/-- **Bytes are written as the numeral of the number they stand for.** -/
theorem base36_numeral (bytes : List UInt8) :
    (∀ digits, Lossless digits) ∧ bytesToBase36 bytes = some (numeral (value bytes)) ∧
      (∀ rest, (numeral (value bytes)).toList = '0' :: rest → value bytes = 0) ∧
      ∀ other, other.length = bytes.length → bytesToBase36 other = bytesToBase36 bytes → other = bytes := by
  refine ⟨lossless, bytesToBase36_eq bytes, fun _ => numeral_head, fun other hlength h => ?_⟩
  rw [bytesToBase36_eq, bytesToBase36_eq] at h
  exact value_inj hlength (numeral_inj (Option.some.inj h))

theorem base36_numeral_guard : bytesToBase36 [1, 0] = some "74" ∧ ([0, 1] : List UInt8) ≠ [1, 0] ∧
    bytesToBase36 [0, 1] ≠ bytesToBase36 [1, 0] := by
  have h := base36_numeral [1, 0]
  have hother : ([0, 1] : List UInt8) ≠ [1, 0] := by decide
  exact ⟨by decide +kernel, hother, fun heq => hother (h.2.2.2 [0, 1] rfl heq)⟩

end Protheus.UidKernel
