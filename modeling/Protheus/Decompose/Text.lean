import Protheus.MemoryIndex.Scan

/-!
The texts and tokens of `decompose.rs`.

A token has no two underscores side by side and none at its ends (`IsToken`), so reading
it again leaves it as it is unless it is cut: `normalizeToken_eq_self_iff`.
-/

namespace Protheus.Decompose

open RustStd
open MemoryIndex (lowerChar)

/-! ## Texts -/

/-- `clean_text`. -/
def cleanText (raw : String) (maxLen : ℕ) : String := String.ofList ((joinWords raw).take maxLen)

/-- The characters that `normalize_token` keeps. -/
def isTokenChar (c : Char) : Bool :=
  ('a' ≤ c && c ≤ 'z') || c.isDigit || ['_', '.', ':', '/', '-'].contains c

/-- What comes to an underscore. -/
def isGap (c : Char) : Bool := !isTokenChar c || c == '_'

/-- `normalize_token`: the stretches of kept characters, joined by single underscores. -/
def normalizeToken (raw : String) (maxLen : ℕ) : String :=
  String.ofList (Words.joined isGap '_' ((cleanText raw maxLen).toList.flatMap lowerChar))

/-- A text without whitespace is one word. -/
theorem joinWords_of_free {s : String} (hfree : ∀ c ∈ s.toList, isWhitespace c = false) :
    joinWords s = s.toList := by
  change Words.joined isWhitespace ' ' s.toList = s.toList
  refine Words.joined_eq_self (by decide) (Words.spaced_of_free hfree) ?_ ?_ ?_
  · intro c hc hspace
    rw [hfree c hc] at hspace
    cases hspace
  · exact fun c hc => hfree c (List.mem_of_head? hc)
  · exact fun c hc => hfree c (List.mem_of_getLast? hc)

/-! ## Tokens -/

/-- What `normalize_token` makes of a text. -/
structure IsToken (s : String) : Prop where
  kept : ∀ c ∈ s.toList, isTokenChar c = true
  spaced : Words.Spaced isGap s.toList
  head : ∀ c ∈ s.toList.head?, isGap c = false
  last : ∀ c ∈ s.toList.getLast?, isGap c = false

theorem isTokenChar_iff {c : Char} : isTokenChar c = true ↔
    (97 ≤ c.toNat ∧ c.toNat ≤ 122) ∨ (48 ≤ c.toNat ∧ c.toNat ≤ 57) ∨ c ∈ ['_', '.', ':', '/', '-'] := by
  have hle (a b : Char) : a ≤ b ↔ a.toNat ≤ b.toNat := Iff.rfl
  simp only [isTokenChar, Bool.or_eq_true, Bool.and_eq_true, decide_eq_true_eq, List.contains_iff_mem,
    Char.isDigit, hle, or_assoc]
  rfl

/-- A kept character is no whitespace and its own lower case. -/
theorem of_isTokenChar {c : Char} (h : isTokenChar c = true) :
    isWhitespace c = false ∧ lowerChar c = [c] := by
  have hnat : (97 ≤ c.toNat ∧ c.toNat ≤ 122) ∨ (45 ≤ c.toNat ∧ c.toNat ≤ 58) ∨ c.toNat = 95 := by
    rcases isTokenChar_iff.mp h with h | h | h
    · exact .inl h
    · exact .inr (.inl (by omega))
    · fin_cases h
      · exact .inr (.inr rfl)
      · exact .inr (.inl (by decide))
      · exact .inr (.inl (by decide))
      · exact .inr (.inl (by decide))
      · exact .inr (.inl (by decide))
  have hne (d : Char) (hd : d.toNat ≠ c.toNat) : c ≠ d := by
    rintro rfl
    exact hd rfl
  have hlower : c.toLower = c := by
    unfold Char.toLower
    rw [dif_neg]
    rintro ⟨hlo, hhi⟩
    have hlo' : 65 ≤ c.toNat := hlo
    have hhi' : c.toNat ≤ 90 := hhi
    omega
  constructor
  · simp only [isWhitespace, Bool.or_eq_false_iff, Bool.and_eq_false_iff, decide_eq_false_iff_not,
      beq_eq_false_iff_ne]
    omega
  · rw [lowerChar, if_neg, if_neg, hlower]
    · exact hne _ (by have : '\u0130'.toNat = 304 := rfl; omega)
    · exact hne _ (by have : '\u212A'.toNat = 8490 := rfl; omega)

/-- **A token is one.** -/
theorem isToken_normalizeToken (raw : String) (maxLen : ℕ) : IsToken (normalizeToken raw maxLen) where
  kept c hc := by
    rw [normalizeToken, String.toList_ofList] at hc
    by_contra hnot
    have hgap : isGap c = true := by simp [isGap, Bool.eq_false_iff.mpr hnot]
    obtain rfl := Words.eq_gap_of_mem_joined hc hgap
    exact hnot (by decide)
  spaced := by
    rw [normalizeToken, String.toList_ofList]
    exact Words.spaced_joined _
  head := by
    rw [normalizeToken, String.toList_ofList]
    exact Words.head_joined _
  last := by
    rw [normalizeToken, String.toList_ofList]
    exact Words.getLast_joined _

theorem IsToken.free {s : String} (h : IsToken s) : ∀ c ∈ s.toList, isWhitespace c = false :=
  fun c hc => (of_isTokenChar (h.kept c hc)).1

/-- Lower case leaves kept characters. -/
theorem flatMap_lowerChar {l : List Char} (h : ∀ c ∈ l, isTokenChar c = true) : l.flatMap lowerChar = l := by
  have heach : l.flatMap lowerChar = l.flatMap fun c => [c] :=
    List.flatMap_congr fun c hc => (of_isTokenChar (h c hc)).2
  rw [heach, List.flatMap_singleton']

/-- A token that is not cut stays as it is. -/
theorem IsToken.normalizeToken_eq_self {s : String} (h : IsToken s) {maxLen : ℕ}
    (hlength : s.toList.length ≤ maxLen) : normalizeToken s maxLen = s := by
  have hjoined : Words.joined isGap '_' s.toList = s.toList := by
    refine Words.joined_eq_self (by decide) h.spaced (fun c hc hgap => ?_) h.head h.last
    simpa [isGap, h.kept c hc] using hgap
  rw [normalizeToken, cleanText, joinWords_of_free h.free, List.take_of_length_le hlength,
    String.toList_ofList, flatMap_lowerChar h.kept, hjoined, String.ofList_toList]

theorem IsToken.length_normalizeToken_le {s : String} (h : IsToken s) (maxLen : ℕ) :
    (normalizeToken s maxLen).toList.length ≤ maxLen := by
  have hkept : ∀ c ∈ s.toList.take maxLen, isTokenChar c = true :=
    fun c hc => h.kept c (List.mem_of_mem_take hc)
  rw [normalizeToken, cleanText, joinWords_of_free h.free, String.toList_ofList,
    String.toList_ofList, flatMap_lowerChar hkept]
  exact (Words.length_joined_le _).trans (List.length_take_le _ _)

/-- **Reading a token again leaves it as it is if and only if it is not cut.** -/
theorem IsToken.normalizeToken_eq_self_iff {s : String} (h : IsToken s) (maxLen : ℕ) :
    normalizeToken s maxLen = s ↔ s.toList.length ≤ maxLen := by
  constructor
  · intro heq
    rw [← heq]
    exact h.length_normalizeToken_le maxLen
  · exact h.normalizeToken_eq_self

end Protheus.Decompose
