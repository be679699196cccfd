import Mathlib.Data.List.Basic
import Mathlib.Tactic.IntervalCases

/-!
Base64 with the URL-safe alphabet and without padding.

Three bytes are four symbols of six bits; what is left over at the end, one byte or
two, is two symbols or three whose last bits are zero.  The decoder takes no other
text: a symbol outside the alphabet, a length no encoding has and bits that stand for
nothing are refused.
-/

namespace Protheus.Base64Url

/-- The symbol of six bits. -/
def symbol (n : ℕ) : Char :=
  if n < 26 then Char.ofNat (65 + n)
  else if n < 52 then Char.ofNat (97 + (n - 26))
  else if n < 62 then Char.ofNat (48 + (n - 52))
  else if n = 62 then '-'
  else '_'

/-- The six bits of a symbol. -/
def index (c : Char) : Option ℕ :=
  let n := c.toNat
  if 65 ≤ n ∧ n ≤ 90 then some (n - 65)
  else if 97 ≤ n ∧ n ≤ 122 then some (n - 97 + 26)
  else if 48 ≤ n ∧ n ≤ 57 then some (n - 48 + 52)
  else if n = 45 then some 62
  else if n = 95 then some 63
  else none

def encode : List UInt8 → List Char
  | a :: b :: c :: rest =>
    let n := a.toNat * 65536 + b.toNat * 256 + c.toNat
    symbol (n / 262144) :: symbol (n / 4096 % 64) :: symbol (n / 64 % 64) :: symbol (n % 64) ::
      encode rest
  | [a, b] =>
    let n := a.toNat * 1024 + b.toNat * 4
    [symbol (n / 4096), symbol (n / 64 % 64), symbol (n % 64)]
  | [a] =>
    let n := a.toNat * 16
    [symbol (n / 64), symbol (n % 64)]
  | [] => []

def decode : List Char → Option (List UInt8)
  | p :: q :: r :: s :: rest => do
    let n := (← index p) * 262144 + (← index q) * 4096 + (← index r) * 64 + (← index s)
    return UInt8.ofNat (n / 65536) :: UInt8.ofNat (n / 256) :: UInt8.ofNat n :: (← decode rest)
  | [p, q, r] => do
    let n := (← index p) * 4096 + (← index q) * 64 + (← index r)
    if n % 4 = 0 then some [UInt8.ofNat (n / 1024), UInt8.ofNat (n / 4)] else none
  | [p, q] => do
    let n := (← index p) * 64 + (← index q)
    if n % 16 = 0 then some [UInt8.ofNat (n / 16)] else none
  | [_] => none
  | [] => some []

theorem index_symbol {n : ℕ} (h : n < 64) : index (symbol n) = some n := by
  revert n
  decide

/-- Every symbol is a letter, a digit, a hyphen or an underscore. -/
theorem symbol_mem (n : ℕ) : (index (symbol n)).isSome := by
  by_cases h : n < 64
  · rw [index_symbol h, Option.isSome_some]
  · have hbig : symbol n = '_' := by
      unfold symbol
      rw [if_neg (by omega), if_neg (by omega), if_neg (by omega), if_neg (by omega)]
    rw [hbig]
    rfl

/-- Only symbols are written. -/
theorem index_isSome_of_mem_encode : ∀ {bytes : List UInt8} {c : Char}, c ∈ encode bytes →
    (index c).isSome
  | a :: b :: d :: rest, c, h => by
    simp only [encode, List.mem_cons] at h
    rcases h with rfl | rfl | rfl | rfl | h
    · exact symbol_mem _
    · exact symbol_mem _
    · exact symbol_mem _
    · exact symbol_mem _
    · exact index_isSome_of_mem_encode h
  | [a, b], c, h => by
    simp only [encode, List.mem_cons, List.not_mem_nil, or_false] at h
    rcases h with rfl | rfl | rfl <;> exact symbol_mem _
  | [a], c, h => by
    simp only [encode, List.mem_cons, List.not_mem_nil, or_false] at h
    rcases h with rfl | rfl <;> exact symbol_mem _

/-- Four symbols for three bytes. -/
theorem length_encode : ∀ bytes : List UInt8, (encode bytes).length = (4 * bytes.length + 2) / 3
  | a :: b :: c :: rest => by
    have htail := length_encode rest
    simp only [encode, List.length_cons, htail]
    omega
  | [a, b] => by simp [encode]
  | [a] => by simp [encode]
  | [] => rfl

private theorem ofNat_eq {n : ℕ} {byte : UInt8} (h : n % 256 = byte.toNat) : UInt8.ofNat n = byte := by
  apply UInt8.toNat_inj.mp
  rw [UInt8.toNat_ofNat', h]

/-- **What is encoded is decoded again.** -/
theorem decode_encode : ∀ bytes : List UInt8, decode (encode bytes) = some bytes
  | a :: b :: c :: rest => by
    have ha := a.toNat_lt
    have hb := b.toNat_lt
    have hc := c.toNat_lt
    rw [encode, decode, index_symbol (by omega), index_symbol (by omega), index_symbol (by omega),
      index_symbol (by omega), decode_encode rest]
    simp only [Option.pure_def, Option.bind_eq_bind, Option.bind_some]
    rw [@ofNat_eq _ a (by omega), @ofNat_eq _ b (by omega),
      @ofNat_eq _ c (by omega)]
  | [a, b] => by
    have ha := a.toNat_lt
    have hb := b.toNat_lt
    rw [encode, decode, index_symbol (by omega), index_symbol (by omega), index_symbol (by omega)]
    simp only [Option.bind_eq_bind, Option.bind_some]
    rw [if_pos (by omega), @ofNat_eq _ a (by omega), @ofNat_eq _ b (by omega)]
  | [a] => by
    have ha := a.toNat_lt
    rw [encode, decode, index_symbol (by omega), index_symbol (by omega)]
    simp only [Option.bind_eq_bind, Option.bind_some]
    rw [if_pos (by omega), @ofNat_eq _ a (by omega)]
  | [] => rfl

end Protheus.Base64Url
