import Protheus.RustStd

/-!
The bytes of a text, as a hasher is fed them.

The bytes tell the text (`asBytes_inj`), bytes that start another text's are a start of it
(`initial_of_asBytes`), and a character below 128 is among the bytes exactly where it is in the text
(`mem_asBytes_iff`), so a separator of one byte can be looked for in either.
-/

namespace Protheus.Utf8

/-- `str::as_bytes`. -/
def asBytes (s : String) : List UInt8 := s.toUTF8.data.toList

theorem asBytes_eq (s : String) : asBytes s = s.toList.flatMap String.utf8EncodeChar := by
  rw [asBytes, String.toUTF8, ← String.utf8Encode_toList, List.utf8Encode]
  simp

@[simp] theorem asBytes_append (a b : String) : asBytes (a ++ b) = asBytes a ++ asBytes b := by
  simp [asBytes_eq]

theorem asBytes_inj {a b : String} (h : asBytes a = asBytes b) : a = b := by
  refine String.toByteArray_inj.mp (ByteArray.ext ?_)
  exact Array.toList_inj.mp h

theorem initial_of_asBytes {a c : String} {b : List UInt8} (h : asBytes a ++ b = asBytes c) :
    a.toList <+: c.toList := by
  refine List.isPrefix_of_utf8Encode_append_eq_utf8Encode ⟨b.toArray⟩ ?_
  rw [String.utf8Encode_toList, String.utf8Encode_toList]
  refine ByteArray.ext (Array.toList_inj.mp ?_)
  simpa [asBytes] using h

/-- A byte below 128 is a character's only where it is the character. -/
theorem mem_utf8EncodeChar_iff {c d : Char} (hc : c.toNat < 128) :
    UInt8.ofNat c.toNat ∈ String.utf8EncodeChar d ↔ c = d := by
  -- A byte of a longer code is 128 or above.
  have hlong {m base n : ℕ} (hm : 0 < m) (hbase : 128 ≤ base) (hfit : m + base ≤ 256) :
      UInt8.ofNat c.toNat ≠ UInt8.ofNat (n % m + base) := by
    intro h
    have hlt := Nat.mod_lt n hm
    have hbytes := congrArg UInt8.toNat h
    rw [UInt8.toNat_ofNat', UInt8.toNat_ofNat'] at hbytes
    omega
  constructor
  · intro hmem
    unfold String.utf8EncodeChar at hmem
    dsimp only at hmem
    split at hmem
    · have hbytes := congrArg UInt8.toNat (List.mem_singleton.mp hmem)
      rw [UInt8.toNat_ofNat', UInt8.toNat_ofNat'] at hbytes
      have hnat : c.toNat = d.val.toNat := by omega
      exact Char.ext (UInt32.toNat_inj.mp hnat)
    · exfalso
      split at hmem
      · simp only [List.mem_cons, List.not_mem_nil, or_false] at hmem
        rcases hmem with h | h <;> exact hlong (by decide) (by decide) (by decide) h
      · split at hmem
        · simp only [List.mem_cons, List.not_mem_nil, or_false] at hmem
          rcases hmem with h | h | h <;> exact hlong (by decide) (by decide) (by decide) h
        · simp only [List.mem_cons, List.not_mem_nil, or_false] at hmem
          rcases hmem with h | h | h | h <;> exact hlong (by decide) (by decide) (by decide) h
  · rintro rfl
    have hshort : c.val.toNat ≤ 127 := Nat.le_of_lt_succ hc
    unfold String.utf8EncodeChar
    rw [if_pos hshort]
    exact List.mem_singleton.mpr rfl

theorem mem_asBytes_iff {c : Char} (hc : c.toNat < 128) {s : String} :
    UInt8.ofNat c.toNat ∈ asBytes s ↔ c ∈ s.toList := by
  rw [asBytes_eq, List.mem_flatMap]
  constructor
  · rintro ⟨d, hd, hmem⟩
    rwa [(mem_utf8EncodeChar_iff hc).mp hmem]
  · exact fun h => ⟨c, h, (mem_utf8EncodeChar_iff hc).mpr rfl⟩

end Protheus.Utf8
