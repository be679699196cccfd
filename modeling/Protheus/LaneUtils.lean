import Protheus.Json
import Protheus.RustStd

/-!
The readers of payload fields that the kernels of `ops` carry each for themselves,
in the same words.
-/

namespace Protheus.LaneUtils

/-- `str::trim_matches('"')`. -/
def trimQuotes (s : String) : String :=
  String.ofList ((s.toList.dropWhile (· == '"')).reverse.dropWhile (· == '"')).reverse

/-- `parse_flag`: the value of the first token that gives the flag. -/
def parseFlag (key : String) (allowSwitchTrue : Bool) : List String → Option String
  | [] => none
  | token :: rest =>
    match RustStd.stripPrefix (RustStd.trim token) ("--" ++ key ++ "=") with
    | some v => some (RustStd.trim v)
    | none =>
      if RustStd.trim token = "--" ++ key then
        match rest.head?.filter fun next =>
            !"--".toList.isPrefixOf (next.toList.dropWhile RustStd.isWhitespace) with
        | some next => some (RustStd.trim next)
        | none => if allowSwitchTrue then some "true" else none
      else parseFlag key allowSwitchTrue rest

/-- `as_str`. -/
def asStr (printFloat : ℚ → String) : Option Json → String
  | some (.str v) => RustStd.trim v
  | some .null | none => ""
  | some v => RustStd.trim (trimQuotes (v.render printFloat))

/-- `String::truncate`: `none` where the cut would fall inside a character, which
aborts the process. -/
def truncate : ℕ → List Char → Option (List Char)
  | _, [] => some []
  | 0, _ => some []
  | n, c :: rest =>
    if c.utf8Size ≤ n then (truncate (n - c.utf8Size) rest).map (c :: ·) else none

/-- `clean_text`. -/
def cleanText (printFloat : ℚ → String) (value : Option Json) (maxLen : ℕ) : Option String :=
  (truncate maxLen (RustStd.joinWords (asStr printFloat value))).map String.ofList

def bytes (l : List Char) : ℕ := (l.map Char.utf8Size).sum

open RustStd

section Trim

/-- Nothing is taken off a text that starts and ends with a visible character. -/
theorem trim_eq_self_of {s : String} (hhead : ∀ c ∈ s.toList.head?, isWhitespace c = false)
    (hlast : ∀ c ∈ s.toList.getLast?, isWhitespace c = false) : trim s = s := by
  have hkeep (l : List Char) (hl : ∀ c ∈ l.head?, isWhitespace c = false) :
      l.dropWhile isWhitespace = l := by
    cases l with
    | nil => rfl
    | cons c rest =>
      rw [List.dropWhile_cons_of_neg]
      simpa using hl c rfl
  rw [trim, hkeep _ hhead, hkeep _ (by simpa using hlast), List.reverse_reverse, String.ofList_toList]

theorem trim_head (s : String) : ∀ c ∈ (trim s).toList.head?, isWhitespace c = false := by
  intro c hc
  obtain hnil | ⟨d, rest, hcons, hd⟩ := trim_toList s
  · rw [hnil] at hc
    cases hc
  · rw [hcons] at hc
    exact Option.some.inj hc ▸ hd

theorem trim_getLast (s : String) : ∀ c ∈ (trim s).toList.getLast?, isWhitespace c = false := by
  intro c hc
  rw [trim, String.toList_ofList, List.getLast?_reverse] at hc
  have hne : (s.toList.dropWhile isWhitespace).reverse.dropWhile isWhitespace ≠ [] := by
    rintro hnil
    rw [hnil] at hc
    cases hc
  have hvisible := List.head_dropWhile_not isWhitespace hne
  rw [List.head?_eq_some_head hne] at hc
  exact Option.some.inj hc ▸ by simpa using hvisible

@[simp] theorem trim_trim (s : String) : trim (trim s) = trim s :=
  trim_eq_self_of (trim_head s) (trim_getLast s)

/-- There is no blank around the text of an object, and it opens with a brace. -/
theorem trim_render_object {printFloat : ℚ → String} {value : Json} (h : value.isObject = true) :
    trim (value.render printFloat) = value.render printFloat ∧
      (value.render printFloat).toList.head? = some '\x7b' := by
  cases value with
  | obj fields =>
    have htext : ((Json.obj fields).render printFloat).toList =
        '\x7b' :: ((Json.renderFields printFloat fields).toList ++ ['\x7d']) := by
      have hrender : (Json.obj fields).render printFloat = "\x7b" ++
        Json.renderFields printFloat fields ++ "\x7d" := rfl
      rw [hrender, String.toList_append, String.toList_append]
      rfl
    refine ⟨trim_eq_self_of (fun c hc => ?_) (fun c hc => ?_), by rw [htext, List.head?_cons]⟩
    · rw [htext] at hc
      obtain rfl := Option.some.inj hc
      rfl
    · rw [htext, ← List.cons_append, List.getLast?_concat] at hc
      obtain rfl := Option.some.inj hc
      rfl
  | _ => cases h

theorem length_trim_le (s : String) : (trim s).toList.length ≤ s.toList.length := by
  rw [trim, String.toList_ofList, List.length_reverse]
  refine (List.dropWhile_suffix _).length_le.trans ?_
  rw [List.length_reverse]
  exact (List.dropWhile_suffix _).length_le

end Trim

section Truncate

theorem bytes_append (a b : List Char) : bytes (a ++ b) = bytes a + bytes b := by
  rw [bytes, List.map_append, List.sum_append]
  rfl

theorem bytes_le_of_initial {a b : List Char} (h : a <+: b) : bytes a ≤ bytes b := by
  obtain ⟨rest, rfl⟩ := h
  rw [bytes_append]
  exact Nat.le_add_right _ _

theorem truncate_succ_cons (n : ℕ) (c : Char) (rest : List Char) : truncate (n + 1) (c :: rest) =
    if c.utf8Size ≤ n + 1 then (truncate (n + 1 - c.utf8Size) rest).map (c :: ·) else none := rfl

theorem truncate_spec {maxLen : ℕ} {l out : List Char} (h : truncate maxLen l = some out) :
    out <+: l ∧ bytes out ≤ maxLen := by
  induction l generalizing maxLen out with
  | nil =>
    obtain rfl : [] = out := by simpa [truncate] using h
    exact ⟨List.prefix_rfl, Nat.zero_le _⟩
  | cons c rest ih =>
    cases maxLen with
    | zero =>
      obtain rfl : [] = out := by simpa [truncate] using h
      exact ⟨List.nil_prefix, Nat.zero_le _⟩
    | succ n =>
      rw [truncate_succ_cons] at h
      split at h
      · rename_i hsize
        obtain ⟨tail, htail, rfl⟩ := Option.map_eq_some_iff.mp h
        obtain ⟨hinitial, hbytes⟩ := ih htail
        refine ⟨List.cons_prefix_cons.mpr ⟨rfl, hinitial⟩, ?_⟩
        rw [bytes, List.map_cons, List.sum_cons]
        rw [bytes] at hbytes
        omega
      · cases h

theorem truncate_of_bytes_le {maxLen : ℕ} {l : List Char} (h : bytes l ≤ maxLen) :
    truncate maxLen l = some l := by
  induction l generalizing maxLen with
  | nil => simp [truncate]
  | cons c rest ih =>
    rw [bytes, List.map_cons, List.sum_cons] at h
    have hpos := c.utf8Size_pos
    obtain ⟨n, rfl⟩ : ∃ n, maxLen = n + 1 := ⟨maxLen - 1, by omega⟩
    rw [truncate_succ_cons, if_pos (by omega), ih (by rw [bytes]; omega)]
    rfl

/-- A cut where a beginning ends. -/
theorem truncate_append (a b : List Char) : truncate (bytes a) (a ++ b) = some a := by
  induction a with
  | nil =>
    cases b with
    | nil => rfl
    | cons c b => rfl
  | cons c a ih =>
    have hpos := c.utf8Size_pos
    obtain ⟨n, hn⟩ : ∃ n, bytes (c :: a) = n + 1 := by
      refine ⟨bytes (c :: a) - 1, ?_⟩
      rw [bytes, List.map_cons, List.sum_cons]
      omega
    have hrest : n + 1 - c.utf8Size = bytes a := by
      rw [← hn, bytes, List.map_cons, List.sum_cons, Nat.add_sub_cancel_left, bytes]
    have hle : c.utf8Size ≤ n + 1 := by
      rw [← hn, bytes, List.map_cons, List.sum_cons]
      exact Nat.le_add_right _ _
    rw [hn, List.cons_append, truncate_succ_cons, if_pos hle, hrest, ih]
    rfl

end Truncate

/-! ## Letters and digits -/

theorem toNat_of_isAlphanum {c : Char} (h : c.isAlphanum = true) : (48 ≤ c.toNat ∧ c.toNat ≤ 57) ∨
    (65 ≤ c.toNat ∧ c.toNat ≤ 90) ∨ (97 ≤ c.toNat ∧ c.toNat ≤ 122) := by
  simp only [Char.isAlphanum, Char.isAlpha, Char.isUpper, Char.isLower, Char.isDigit,
    Bool.or_eq_true, Bool.and_eq_true, decide_eq_true_eq] at h
  obtain (⟨hlo, hhi⟩ | ⟨hlo, hhi⟩) | ⟨hlo, hhi⟩ := h
  · exact .inr (.inl ⟨hlo, hhi⟩)
  · exact .inr (.inr ⟨hlo, hhi⟩)
  · exact .inl ⟨hlo, hhi⟩

/-- Whitespace is no letter and no digit. -/
theorem isAlphanum_of_isWhitespace {c : Char} (h : isWhitespace c = true) : c.isAlphanum = false := by
  by_contra hnot
  have hnat := toNat_of_isAlphanum (Bool.eq_true_of_not_eq_false hnot)
  simp only [isWhitespace, Bool.or_eq_true, Bool.and_eq_true, decide_eq_true_eq, beq_iff_eq] at h
  omega

/-! ## Lower case -/

section LowerCase

variable {c s : Char}

theorem toLower_cases (c : Char) :
    c.toLower = c ∨ (65 ≤ c.toNat ∧ c.toNat ≤ 90 ∧ c.toLower.toNat = c.toNat + 32) := by
  unfold Char.toLower
  split
  case isTrue h =>
    obtain ⟨hlo, hhi⟩ := h
    have hlo : 65 ≤ c.toNat := hlo
    have hhi : c.toNat ≤ 90 := hhi
    refine .inr ⟨hlo, hhi, ?_⟩
    change (c.val + 32).toNat = c.val.toNat + 32
    rw [UInt32.toNat_add]
    change (c.toNat + 32) % 2 ^ 32 = c.toNat + 32
    omega
  case isFalse => exact .inl rfl

/-- Only letters change in lower case, and they stay letters. -/
theorem toLower_eq_iff (hs : s.toNat < 65) : c.toLower = s ↔ c = s := by
  obtain h | ⟨hlo, hhi, h⟩ := toLower_cases c
  · rw [h]
  · constructor
    · intro heq
      rw [heq] at h
      omega
    · rintro rfl
      omega

theorem isWhitespace_toLower (c : Char) : isWhitespace c.toLower = isWhitespace c := by
  obtain h | ⟨hlo, hhi, h⟩ := toLower_cases c
  · rw [h]
  · have hbefore : isWhitespace c = false := by
      simp only [isWhitespace, Bool.or_eq_false_iff, Bool.and_eq_false_iff, decide_eq_false_iff_not,
        beq_eq_false_iff_ne]
      omega
    rw [hbefore]
    simp only [isWhitespace, Bool.or_eq_false_iff, Bool.and_eq_false_iff, decide_eq_false_iff_not,
      beq_eq_false_iff_ne]
    omega

/-- A text trimmed and in lower case is so already. -/
theorem toAsciiLowercase_trim_idem (s : String) :
    toAsciiLowercase (trim (toAsciiLowercase (trim s))) = toAsciiLowercase (trim s) := by
  have hends : trim (toAsciiLowercase (trim s)) = toAsciiLowercase (trim s) := by
    refine trim_eq_self_of (fun c hc => ?_) (fun c hc => ?_)
    · rw [toAsciiLowercase, String.toList_ofList, List.head?_map, Option.mem_def,
        Option.map_eq_some_iff] at hc
      obtain ⟨d, hd, rfl⟩ := hc
      rw [isWhitespace_toLower]
      exact trim_head s d hd
    · rw [toAsciiLowercase, String.toList_ofList, List.getLast?_map, Option.mem_def,
        Option.map_eq_some_iff] at hc
      obtain ⟨d, hd, rfl⟩ := hc
      rw [isWhitespace_toLower]
      exact trim_getLast s d hd
  rw [hends, toAsciiLowercase, toAsciiLowercase, String.toList_ofList, List.map_map]
  exact congrArg String.ofList (List.map_congr_left fun c _ => Char.toLower_toLower_eq_toLower c)

end LowerCase

/-! ## Trimming one end -/

section TrimEnd

variable {a b l : List Char}

/-- `str::trim_end`. -/
def trimEnd (l : List Char) : List Char := (l.reverse.dropWhile isWhitespace).reverse

theorem trim_ofList (l : List Char) :
    trim (String.ofList l) = String.ofList (trimEnd (l.dropWhile isWhitespace)) := by
  rw [trim, String.toList_ofList, trimEnd]

theorem trimEnd_initial (l : List Char) : trimEnd l <+: l := by
  rw [trimEnd, ← List.reverse_suffix, List.reverse_reverse]
  exact List.dropWhile_suffix _

theorem trimEnd_last (l : List Char) : ∀ c ∈ (trimEnd l).getLast?, isWhitespace c = false := by
  intro c hc
  rw [trimEnd, List.getLast?_reverse] at hc
  have hne : l.reverse.dropWhile isWhitespace ≠ [] := by
    intro hnil
    rw [hnil] at hc
    cases hc
  have hvisible := List.head_dropWhile_not isWhitespace hne
  rw [List.head?_eq_some_head hne] at hc
  exact Option.some.inj hc ▸ by simpa using hvisible

/-- What ends in a visible character stays. -/
theorem trimEnd_append (ha : ∀ c ∈ a.getLast?, isWhitespace c = false) :
    trimEnd (a ++ b) = a ++ trimEnd b := by
  have hkeep : a.reverse.dropWhile isWhitespace = a.reverse := by
    cases hrev : a.reverse with
    | nil => rfl
    | cons c rest =>
      have hlast : a.getLast? = some c := by rw [← List.head?_reverse, hrev, List.head?_cons]
      rw [List.dropWhile_cons_of_neg (by simp [ha c hlast])]
  rw [trimEnd, List.reverse_append, List.dropWhile_append, trimEnd]
  split
  · rename_i hempty
    rw [List.isEmpty_iff.mp hempty, hkeep, List.reverse_reverse]
    simp
  · rw [List.reverse_append, List.reverse_reverse]

theorem trimEnd_trimEnd (l : List Char) : trimEnd (trimEnd l) = trimEnd l := by
  have happend := @trimEnd_append (trimEnd l) [] (trimEnd_last l)
  simpa [trimEnd] using happend

/-- The two ends of a text are trimmed on their own. -/
theorem dropWhile_trimEnd (l : List Char) :
    (trimEnd l).dropWhile isWhitespace = trimEnd (l.dropWhile isWhitespace) := by
  have hsplit := List.takeWhile_append_dropWhile (p := isWhitespace) (l := l)
  have hblank : ∀ c ∈ l.takeWhile isWhitespace, isWhitespace c = true :=
    fun c hc => List.mem_takeWhile_imp hc
  cases hrest : l.dropWhile isWhitespace with
  | nil =>
    have hall : ∀ c ∈ l.reverse, isWhitespace c = true := by
      intro c hc
      exact List.dropWhile_eq_nil_iff.mp hrest c (List.mem_reverse.mp hc)
    rw [trimEnd, List.dropWhile_eq_nil_iff.mpr hall]
    rfl
  | cons c rest =>
    have hc : isWhitespace c = false := by
      have hne : l.dropWhile isWhitespace ≠ [] := by simp [hrest]
      simpa [hrest] using List.head_dropWhile_not isWhitespace hne
    have hone : trimEnd ([c] ++ rest) = [c] ++ trimEnd rest :=
      trimEnd_append (by simpa using hc)
    rw [hrest] at hsplit
    generalize l.takeWhile isWhitespace = blank at hsplit hblank
    subst hsplit
    have hwhole : trimEnd (blank ++ c :: rest) = blank ++ c :: trimEnd rest := by
      rw [List.append_cons, trimEnd_append (by simpa using hc), List.append_assoc]
      rfl
    rw [hwhole, List.dropWhile_append_of_pos hblank, List.dropWhile_cons_of_neg (by simp [hc])]
    exact hone.symm

theorem trim_trimEnd (l : List Char) : trim (String.ofList (trimEnd l)) = trim (String.ofList l) := by
  rw [trim_ofList, trim_ofList, dropWhile_trimEnd, trimEnd_trimEnd]

theorem map_trimEnd (l : List Char) : (trimEnd l).map Char.toLower = trimEnd (l.map Char.toLower) := by
  have hsame : isWhitespace ∘ Char.toLower = isWhitespace := funext isWhitespace_toLower
  rw [trimEnd, trimEnd, ← List.map_reverse, List.dropWhile_map, hsame, List.map_reverse]

end TrimEnd

end Protheus.LaneUtils
