import Protheus.LaneUtils
import Protheus.Lib.Words

/-!
The texts that a kernel of `ops` cleans: white space is collapsed, and what is over a
limit is cut off at a byte.

The process aborts where that byte is not the first of a character, so a computation
answers exactly where every text it cleans fits (`Answers`).  A cleaned text is tidy:
cleaned again it loses at most a blank at its end, and it is cleaned to itself where it
has none (`cleanText_tidy`).
-/

namespace Protheus.TextCuts

open LaneUtils

variable {α β : Type*} {printFloat : ℚ → String}

/-- A text that a command cleans, and the bytes it is cut to. -/
structure Cut where
  value : Option Json
  maxLen : ℕ

/-- The text with its white space collapsed. -/
def Cut.collapsed (printFloat : ℚ → String) (cut : Cut) : List Char :=
  RustStd.joinWords (asStr printFloat cut.value)

/-- The collapsed text is within its limit, or one of its characters ends there. -/
def Cut.Fits (printFloat : ℚ → String) (cut : Cut) : Prop :=
  bytes (cut.collapsed printFloat) ≤ cut.maxLen ∨
    ∃ start, start <+: cut.collapsed printFloat ∧ bytes start = cut.maxLen

/-- What `clean_text` leaves is a beginning of the collapsed text, and within the limit. -/
def Cut.Cleans (printFloat : ℚ → String) (cut : Cut) : Prop :=
  ∃ out, cleanText printFloat cut.value cut.maxLen = some out ∧
    out.toList <+: cut.collapsed printFloat ∧ bytes out.toList ≤ cut.maxLen

/-! ## One text -/

/-- What is cut off is cut off at the limit. -/
theorem truncate_eq_or_full {n : ℕ} {l out : List Char} (h : truncate n l = some out) :
    out = l ∨ bytes out = n := by
  induction l generalizing n out with
  | nil =>
    obtain rfl : [] = out := by simpa [truncate] using h
    exact .inl rfl
  | cons c rest ih =>
    cases n with
    | zero =>
      obtain rfl : [] = out := by simpa [truncate] using h
      exact .inr rfl
    | succ n =>
      rw [truncate_succ_cons] at h
      split at h
      · rename_i hsize
        obtain ⟨tail, htail, rfl⟩ := Option.map_eq_some_iff.mp h
        obtain rfl | hfull := ih htail
        · exact .inl rfl
        · refine .inr ?_
          rw [bytes, List.map_cons, List.sum_cons]
          rw [bytes] at hfull
          omega
      · cases h

/-- **A text is cleaned exactly where it fits.** -/
theorem Cut.cleans_iff (cut : Cut) : cut.Cleans printFloat ↔ cut.Fits printFloat := by
  constructor
  · rintro ⟨out, hclean, -, -⟩
    obtain ⟨chars, hcut, rfl⟩ := Option.map_eq_some_iff.mp hclean
    obtain ⟨hinitial, hbytes⟩ := truncate_spec hcut
    obtain rfl | hfull := truncate_eq_or_full hcut
    · exact .inl hbytes
    · exact .inr ⟨chars, hinitial, hfull⟩
  · intro hfits
    have hcleans {chars : List Char}
        (hcut : truncate cut.maxLen (cut.collapsed printFloat) = some chars) :
        cut.Cleans printFloat := by
      obtain ⟨hinitial, hbytes⟩ := truncate_spec hcut
      refine ⟨String.ofList chars, Option.map_eq_some_iff.mpr ⟨chars, hcut, rfl⟩, ?_⟩
      rw [String.toList_ofList]
      exact ⟨hinitial, hbytes⟩
    obtain hle | ⟨start, ⟨rest, hrest⟩, hfull⟩ := hfits
    · exact hcleans (truncate_of_bytes_le hle)
    · have hcut : truncate cut.maxLen (cut.collapsed printFloat) = some start := by
        rw [← hrest, ← hfull]
        exact truncate_append start rest
      exact hcleans hcut

/-- Only a blank text is cleaned to nothing. -/
theorem collapsed_eq_nil_iff {cut : Cut} {out : String} (hpos : 0 < cut.maxLen)
    (h : cleanText printFloat cut.value cut.maxLen = some out) :
    out = "" ↔ cut.collapsed printFloat = [] := by
  obtain ⟨chars, hcut, rfl⟩ := Option.map_eq_some_iff.mp h
  have hempty : String.ofList chars = "" ↔ chars = [] := String.ofList_eq_empty_iff
  rw [hempty]
  obtain rfl | hfull := truncate_eq_or_full hcut
  · rfl
  · constructor
    · rintro rfl
      exact absurd hfull (Nat.ne_of_lt hpos)
    · intro hnil
      obtain ⟨hinitial, -⟩ := truncate_spec hcut
      rw [Cut.collapsed] at hnil
      rwa [hnil, List.prefix_nil] at hinitial

/-! ## Texts one after another -/

/-- A computation answers exactly where every one of the texts fits. -/
def Answers (printFloat : ℚ → String) (x : Option α) (cuts : List Cut) : Prop :=
  x.isSome = true ↔ ∀ cut ∈ cuts, cut.Fits printFloat

theorem answers_some (a : α) : Answers printFloat (some a) [] := by
  simp [Answers]

theorem answers_cleanText (value : Option Json) (maxLen : ℕ) :
    Answers printFloat (cleanText printFloat value maxLen) [⟨value, maxLen⟩] := by
  rw [Answers, List.forall_mem_singleton, ← Cut.cleans_iff, Option.isSome_iff_exists]
  constructor
  · rintro ⟨out, hout⟩
    obtain ⟨chars, hcut, rfl⟩ := Option.map_eq_some_iff.mp hout
    rw [Cut.Cleans]
    refine ⟨String.ofList chars, hout, ?_⟩
    rw [String.toList_ofList]
    exact truncate_spec hcut
  · rintro ⟨out, hout, -⟩
    exact ⟨out, hout⟩

theorem Answers.bind {x : Option α} {f : α → Option β} {cuts rest : List Cut}
    (hx : Answers printFloat x cuts) (hf : ∀ a, x = some a → Answers printFloat (f a) rest) :
    Answers printFloat (x.bind f) (cuts ++ rest) := by
  cases hvalue : x with
  | none =>
    rw [hvalue, Answers] at hx
    rw [Option.bind_none, Answers, List.forall_mem_append, ← hx]
    simp
  | some a =>
    have hfa := hf a hvalue
    rw [hvalue, Answers] at hx
    rw [Answers] at hfa
    rw [Option.bind_some, Answers, List.forall_mem_append, ← hx, hfa]
    simp

theorem Answers.bind_answered {x : Option α} {f : α → Option β} {cuts : List Cut}
    (hx : Answers printFloat x cuts) (hf : ∀ a, x = some a → (f a).isSome = true) :
    Answers printFloat (x.bind f) cuts := by
  have hbind := hx.bind fun a ha => show Answers printFloat (f a) [] by simp [Answers, hf a ha]
  rwa [List.append_nil] at hbind

theorem answers_cleanText_bind {value : Option Json} {maxLen : ℕ} {f : String → Option β}
    {rest : List Cut} (hf : ∀ out, cleanText printFloat value maxLen = some out →
      Answers printFloat (f out) rest) :
    Answers printFloat ((cleanText printFloat value maxLen).bind f) (⟨value, maxLen⟩ :: rest) :=
  (answers_cleanText value maxLen).bind hf

theorem answers_mapM {rows : List α} {f : α → Option β} {cuts : α → List Cut}
    (hf : ∀ row ∈ rows, Answers printFloat (f row) (cuts row)) :
    Answers printFloat (rows.mapM f) (rows.flatMap cuts) := by
  induction rows with
  | nil => exact answers_some []
  | cons row rows ih =>
    rw [List.mapM_cons, List.flatMap_cons]
    refine (hf row List.mem_cons_self).bind fun head _ => ?_
    exact (ih fun other hother => hf other (List.mem_cons_of_mem row hother)).bind_answered
      fun tail _ => rfl

/-! ## Texts that were cleaned -/

theorem bytes_trim_le (s : String) : bytes (RustStd.trim s).toList ≤ bytes s.toList := by
  have hsublist : (RustStd.trim s).toList.Sublist s.toList := by
    rw [RustStd.trim, String.toList_ofList]
    have hreverse := ((s.toList.dropWhile RustStd.isWhitespace).reverse.dropWhile_sublist
      RustStd.isWhitespace).reverse
    rw [List.reverse_reverse] at hreverse
    exact hreverse.trans (List.dropWhile_sublist _)
  exact (hsublist.map _).sum_le_sum (by simp)

theorem bytes_joinWords_le (s : String) : bytes (RustStd.joinWords s) ≤ bytes s.toList := by
  have hspace : Char.utf8Size ' ' = 1 := by decide
  have hgap : ∀ c, RustStd.isWhitespace c = true → Char.utf8Size ' ' ≤ Char.utf8Size c := by
    intro c _
    rw [hspace]
    exact c.utf8Size_pos
  exact Words.total_joined_le hgap s.toList

theorem cleanText_again {value : Option Json} {maxLen : ℕ} {out : String}
    (h : cleanText printFloat value maxLen = some out) :
    (cleanText printFloat (some (.str out)) maxLen).isSome = true := by
  obtain ⟨chars, hcut, rfl⟩ := Option.map_eq_some_iff.mp h
  obtain ⟨-, hbytes⟩ := truncate_spec hcut
  have hfits : bytes (RustStd.joinWords (RustStd.trim (String.ofList chars))) ≤ maxLen := by
    calc bytes (RustStd.joinWords (RustStd.trim (String.ofList chars)))
        ≤ bytes (RustStd.trim (String.ofList chars)).toList := bytes_joinWords_le _
      _ ≤ bytes (String.ofList chars).toList := bytes_trim_le _
      _ ≤ maxLen := by rwa [String.toList_ofList]
  refine (answers_cleanText (some (.str (String.ofList chars))) maxLen).mpr ?_
  rw [List.forall_mem_singleton]
  exact .inl hfits

/-- A text that starts with a visible character, and has no white space but single blanks between
words and at its end. -/
structure Tidy (l : List Char) : Prop where
  head : ∀ c ∈ l.head?, RustStd.isWhitespace c = false
  spaced : Words.Spaced RustStd.isWhitespace l
  blanks : ∀ c ∈ l, RustStd.isWhitespace c = true → c = ' '

theorem tidy_joinWords (s : String) : Tidy (RustStd.joinWords s) where
  head := Words.head_joined s.toList
  spaced := Words.spaced_joined s.toList
  blanks _ hc hblank := Words.eq_gap_of_mem_joined (l := s.toList) hc hblank

theorem Tidy.of_initial {l l' : List Char} (h : Tidy l') (hinitial : l <+: l') : Tidy l where
  head c hc := by
    refine h.head c ?_
    obtain ⟨rest, rfl⟩ := hinitial
    cases l with
    | nil => cases hc
    | cons d l => exact hc
  spaced := h.spaced.of_isInfix hinitial.isInfix
  blanks c hc := h.blanks c (hinitial.subset hc)

theorem Tidy.map_toLower {l : List Char} (h : Tidy l) : Tidy (l.map Char.toLower) where
  head c hc := by
    rw [List.head?_map, Option.mem_def, Option.map_eq_some_iff] at hc
    obtain ⟨d, hd, rfl⟩ := hc
    rw [isWhitespace_toLower]
    exact h.head d hd
  spaced := by
    have hspaced := h.spaced
    rw [Words.Spaced] at hspaced ⊢
    rw [List.isChain_map]
    simpa only [isWhitespace_toLower] using hspaced
  blanks c hc hblank := by
    obtain ⟨d, hd, rfl⟩ := List.mem_map.mp hc
    rw [isWhitespace_toLower] at hblank
    rw [h.blanks d hd hblank]
    rfl

theorem utf8Size_toLower (c : Char) : c.toLower.utf8Size = c.utf8Size := by
  unfold Char.toLower
  split
  · rename_i h
    obtain ⟨hlo, hhi⟩ := h
    have hhi : c.toNat ≤ 90 := hhi
    have hupper : c.val ≤ 0x7f := UInt32.le_iff_toNat_le.mpr (show c.toNat ≤ 127 by omega)
    have hlower : c.val + 32 ≤ 0x7f := by
      rw [UInt32.le_iff_toNat_le, UInt32.toNat_add]
      change (c.toNat + 32) % 2 ^ 32 ≤ 127
      omega
    simp [Char.utf8Size, hupper, hlower]
  · rfl

theorem bytes_map_toLower (l : List Char) : bytes (l.map Char.toLower) = bytes l := by
  rw [bytes, bytes, List.map_map]
  exact congrArg List.sum (List.map_congr_left fun c _ => utf8Size_toLower c)

theorem tidy_cleanText {value : Option Json} {maxLen : ℕ} {out : String}
    (h : cleanText printFloat value maxLen = some out) :
    Tidy out.toList ∧ bytes out.toList ≤ maxLen := by
  obtain ⟨chars, hcut, rfl⟩ := Option.map_eq_some_iff.mp h
  obtain ⟨hinitial, hbytes⟩ := truncate_spec hcut
  rw [String.toList_ofList]
  exact ⟨(tidy_joinWords _).of_initial hinitial, hbytes⟩

/-- A tidy text is its words joined, but for a blank at its end. -/
theorem Tidy.joinWords_trim {l : List Char} (h : Tidy l) :
    RustStd.joinWords (RustStd.trim (String.ofList l)) = trimEnd l := by
  have hinitial := trimEnd_initial l
  have hkeep : l.dropWhile RustStd.isWhitespace = l := by
    cases l with
    | nil => rfl
    | cons c l => rw [List.dropWhile_cons_of_neg (by simpa using h.head c rfl)]
  have htidy := h.of_initial hinitial
  rw [trim_ofList, hkeep]
  rw [RustStd.joinWords, String.toList_ofList]
  exact Words.joined_eq_self (by decide) htidy.spaced htidy.blanks htidy.head (trimEnd_last l)

/-- **A tidy text within the limit is cleaned to itself**, but for a blank at its end. -/
theorem cleanText_tidy {l : List Char} {maxLen : ℕ} (h : Tidy l) (hbytes : bytes l ≤ maxLen) :
    cleanText printFloat (some (.str (String.ofList l))) maxLen = some (String.ofList (trimEnd l)) := by
  have hle := (bytes_le_of_initial (trimEnd_initial l)).trans hbytes
  rw [cleanText, asStr, h.joinWords_trim, truncate_of_bytes_le hle, Option.map_some]

end Protheus.TextCuts
