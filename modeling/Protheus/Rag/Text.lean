import Protheus.Lib.Words
import Protheus.RustStd

/-!
How `rag_runtime.rs` turns the bytes of a file into a text and cuts the text into chunks.

`read_text_payload` cleans the text (`clean_text`): words with single blanks between them.
`chunk_text` cuts it into pieces of `chunk_size` characters, each starting `overlap`
before the end of the one before it.  `chunkText_eq_iff` says when two runs cut a text
alike: when it fits into one chunk of either, or the sizes and the overlaps agree.
-/

namespace Protheus.Rag

open RustStd

/-! ## UTF-8 -/

def isContinuation (b : UInt8) : Bool := 0x80 ≤ b && b ≤ 0xBF

/-- Two bytes a sequence of three starts with. -/
def startsThree (a b : UInt8) : Bool :=
  (a == 0xE0 && 0xA0 ≤ b && b ≤ 0xBF) || (0xE1 ≤ a && a ≤ 0xEC && isContinuation b) ||
    (a == 0xED && 0x80 ≤ b && b ≤ 0x9F) || (0xEE ≤ a && a ≤ 0xEF && isContinuation b)

/-- Two bytes a sequence of four starts with. -/
def startsFour (a b : UInt8) : Bool :=
  (a == 0xF0 && 0x90 ≤ b && b ≤ 0xBF) || (0xF1 ≤ a && a ≤ 0xF3 && isContinuation b) ||
    (a == 0xF4 && 0x80 ≤ b && b ≤ 0x8F)

/-- The bits of a continuation byte. -/
def bits (b : UInt8) : ℕ := b.toNat % 64

/-- The character that bytes start with, and how many of them it takes.  A sequence that
breaks off is a replacement character. -/
def nextChar : List UInt8 → Char × ℕ
  | [] => ('\uFFFD', 1)
  | a :: rest =>
    if a < 0x80 then (Char.ofNat a.toNat, 1)
    else
      match rest with
      | [] => ('\uFFFD', 1)
      | b :: rest =>
        if 0xC2 ≤ a && a ≤ 0xDF && isContinuation b then
          (Char.ofNat (a.toNat % 32 * 64 + bits b), 2)
        else if startsThree a b then
          match rest with
          | [] => ('\uFFFD', 2)
          | c :: _ =>
            if isContinuation c then
              (Char.ofNat ((a.toNat % 16 * 64 + bits b) * 64 + bits c), 3)
            else ('\uFFFD', 2)
        else if startsFour a b then
          match rest with
          | [] => ('\uFFFD', 2)
          | [c] => ('\uFFFD', if isContinuation c then 3 else 2)
          | c :: d :: _ =>
            if isContinuation c && isContinuation d then
              (Char.ofNat (((a.toNat % 8 * 64 + bits b) * 64 + bits c) * 64 + bits d), 4)
            else ('\uFFFD', if isContinuation c then 3 else 2)
        else ('\uFFFD', 1)

/-- The characters of bytes, at most so many. -/
def decodeUpTo : ℕ → List UInt8 → List Char
  | 0, _ => []
  | _, [] => []
  | n + 1, bytes => (nextChar bytes).1 :: decodeUpTo n (bytes.drop (nextChar bytes).2)

/-- `String::from_utf8_lossy`; there are no more characters than bytes. -/
def fromUtf8Lossy (bytes : List UInt8) : String := String.ofList (decodeUpTo bytes.length bytes)

example : fromUtf8Lossy [0x41, 0xE2, 0x82, 0xAC, 0xE2, 0x82, 0x42, 0xFF] = "A€�B�" := by
  decide

/-! ## Texts of files -/

/-- `clean_text`. -/
def cleanText (raw : String) (maxLen : ℕ) : String :=
  trim (String.ofList ((joinWords raw).take maxLen))

def looksBinary (bytes : List UInt8) : Bool :=
  24 < (bytes.take 4096).countP fun b => b < 0x09 || (0x0d < b && b < 0x20)

/-- What a PDF keeps of its bytes: letters, digits, punctuation and blanks of ASCII. -/
def isPdfText (b : UInt8) : Bool :=
  (0x20 < b && b < 0x7F) || b == 0x20 || b == 0x09 || b == 0x0A || b == 0x0C || b == 0x0D

/-- The text so far and a run of it: the run counts when it is long enough. -/
def closeRun (out run : List Char) : List Char :=
  if 6 ≤ run.length then (if out.isEmpty then run else out ++ ' ' :: run) else out

/-- One turn of the loop of `extract_pdf_text`. -/
def pdfStep (acc : List Char × List Char) (b : UInt8) : List Char × List Char :=
  if isPdfText b then (acc.1, acc.2 ++ [Char.ofNat b.toNat]) else (closeRun acc.1 acc.2, [])

def extractPdfText (bytes : List UInt8) : String :=
  let (out, run) := bytes.foldl pdfStep ([], [])
  cleanText (String.ofList (closeRun out run)) 200000

/-- `read_text_payload` of a file with these bytes. -/
def readTextPayload (mime : String) (bytes : List UInt8) : Option String :=
  if mime = "application/pdf" then
    let out := extractPdfText bytes
    if out = "" then none else some out
  else if looksBinary bytes then none
  else
    let out := cleanText (fromUtf8Lossy bytes) 500000
    if out = "" then none else some out

/-! ## Chunks -/

/-- A chunk: where it starts, where it ends and its text. -/
abbrev Piece := ℕ × ℕ × String

/-- The loop of `chunk_text`, for at most so many turns. -/
def chunkFrom (chars : List Char) (size overlap : ℕ) : ℕ → ℕ → List Piece
  | 0, _ => []
  | turns + 1, start =>
    if start < chars.length then
      let stop := min (start + size) chars.length
      let clean := cleanText (String.ofList ((chars.take stop).drop start)) (size + 64)
      let rest := if stop = chars.length then [] else chunkFrom chars size overlap turns (stop - overlap)
      if clean = "" then rest else (start, stop, clean) :: rest
    else []

/-- The overlap that `chunk_text` takes. -/
def safeOverlap (size overlap : ℕ) : ℕ := min overlap (size - 1)

/-- `chunk_text`; every turn of the loop starts further on. -/
def chunkText (text : String) (size overlap : ℕ) : List Piece :=
  if text.isEmpty then []
  else chunkFrom text.toList size (safeOverlap size overlap) text.toList.length 0

/-! ## Clean texts -/

/-- A text as `clean_text` leaves it: no blank at either end and no two side by side. -/
structure Cleaned (text : List Char) : Prop where
  head : ∃ c rest, text = c :: rest ∧ isWhitespace c = false
  last : ∃ init c, text = init ++ [c] ∧ isWhitespace c = false
  spaced : Words.Spaced isWhitespace text

theorem trim_within (s : String) : (trim s).toList <:+: s.toList := by
  rw [trim, String.toList_ofList]
  have hinner := (List.dropWhile_suffix isWhitespace (l := (s.toList.dropWhile isWhitespace).reverse))
  have houter := List.dropWhile_suffix isWhitespace (l := s.toList)
  rw [← List.reverse_prefix, List.reverse_reverse] at hinner
  exact hinner.isInfix.trans houter.isInfix

/-- A trimmed text ends with a visible character. -/
theorem trim_last {s : String} (h : trim s ≠ "") :
    ∃ init c, (trim s).toList = init ++ [c] ∧ isWhitespace c = false := by
  rw [trim, String.toList_ofList]
  cases hback : (s.toList.dropWhile isWhitespace).reverse.dropWhile isWhitespace with
  | nil => exact absurd (by rw [trim, hback]; rfl) h
  | cons c rest =>
    have hne : (s.toList.dropWhile isWhitespace).reverse.dropWhile isWhitespace ≠ [] := by simp [hback]
    have hc := List.head_dropWhile_not isWhitespace hne
    exact ⟨rest.reverse, c, by simp, by simpa [hback] using hc⟩

theorem joinWords_eq (s : String) : joinWords s = Words.joined isWhitespace ' ' s.toList := rfl

theorem cleaned_cleanText {raw : String} {maxLen : ℕ} (h : cleanText raw maxLen ≠ "") :
    Cleaned (cleanText raw maxLen).toList where
  head := by
    obtain hempty | hhead := trim_toList (String.ofList ((joinWords raw).take maxLen))
    · exact absurd (String.toList_injective hempty) h
    · exact hhead
  last := trim_last h
  spaced := by
    have hspaced : Words.Spaced isWhitespace ((joinWords raw).take maxLen) :=
      (Words.spaced_joined raw.toList).take maxLen
    have hwithin := trim_within (String.ofList ((joinWords raw).take maxLen))
    rw [String.toList_ofList] at hwithin
    exact hspaced.of_isInfix hwithin

/-- A visible character leaves something of a text. -/
theorem cleanText_ne_empty {raw : List Char} {maxLen : ℕ} (hmax : 0 < maxLen) {c : Char}
    (hc : c ∈ raw) (hfree : isWhitespace c = false) : cleanText (String.ofList raw) maxLen ≠ "" := by
  obtain ⟨a, rest, hjoined, ha⟩ : ∃ a rest, Words.joined isWhitespace ' ' raw = a :: rest ∧
      isWhitespace a = false := Words.joined_eq_cons hc hfree
  rw [cleanText, joinWords_eq, String.toList_ofList, hjoined, ne_eq, trim_eq_empty_iff,
    String.toList_ofList]
  intro hblank
  obtain ⟨n, rfl⟩ := Nat.exists_eq_succ_of_ne_zero hmax.ne'
  rw [hblank a (by simp)] at ha
  cases ha

/-- A text that is short enough is not cut off. -/
theorem cleanText_of_length_le {raw : List Char} {m n : ℕ} (hm : raw.length ≤ m) (hn : raw.length ≤ n) :
    cleanText (String.ofList raw) m = cleanText (String.ofList raw) n := by
  have hlength : (Words.joined isWhitespace ' ' raw).length ≤ raw.length := Words.length_joined_le raw
  rw [cleanText, cleanText, joinWords_eq, String.toList_ofList, List.take_of_length_le (by omega),
    List.take_of_length_le (by omega)]

theorem cleaned_readTextPayload {mime : String} {bytes : List UInt8} {text : String}
    (h : readTextPayload mime bytes = some text) : Cleaned text.toList := by
  have hsome {out : String} (hout : (if out = "" then none else some out) = some text) :
      text = out ∧ out ≠ "" := by
    split at hout
    · cases hout
    · rename_i hne
      exact ⟨(Option.some.inj hout).symm, hne⟩
  unfold readTextPayload at h
  split at h
  · obtain ⟨rfl, hne⟩ := hsome h
    exact cleaned_cleanText hne
  · split at h
    · cases h
    · obtain ⟨rfl, hne⟩ := hsome h
      exact cleaned_cleanText hne

/-! ## How a text is cut -/

section Chunks

variable {chars : List Char} {size overlap : ℕ}

/-- Every chunk starts where its turn does or later. -/
theorem start_le_of_mem (hoverlap : overlap < size) {turns start : ℕ} :
    ∀ piece ∈ chunkFrom chars size overlap turns start, start ≤ piece.1 := by
  induction turns generalizing start with
  | zero => simp [chunkFrom]
  | succ turns ih =>
    rw [chunkFrom]
    split
    · dsimp only
      have hrest : ∀ piece ∈ (if min (start + size) chars.length = chars.length then []
          else chunkFrom chars size overlap turns (min (start + size) chars.length - overlap)),
          start ≤ piece.1 := by
        split
        · simp
        · exact fun piece hpiece => by
            have := ih piece hpiece
            omega
      split
      · exact hrest
      · exact List.forall_mem_cons.mpr ⟨le_rfl, hrest⟩
    · simp

/-- **Chunks start one after the other.** -/
theorem pairwise_chunkFrom (hoverlap : overlap < size) {turns start : ℕ} :
    (chunkFrom chars size overlap turns start).Pairwise fun a b => a.1 < b.1 := by
  induction turns generalizing start with
  | zero => simp [chunkFrom]
  | succ turns ih =>
    rw [chunkFrom]
    split
    · dsimp only
      have hrest : (if min (start + size) chars.length = chars.length then []
          else chunkFrom chars size overlap turns (min (start + size) chars.length - overlap)).Pairwise
            fun a b => a.1 < b.1 := by
        split
        · exact .nil
        · exact ih
      split
      · exact hrest
      · refine List.pairwise_cons.mpr ⟨fun piece hpiece => ?_, hrest⟩
        split at hpiece
        · cases hpiece
        · have := start_le_of_mem hoverlap piece hpiece
          dsimp only
          omega
    · exact .nil

variable (hclean : Cleaned chars)
include hclean

/-- What lies between two places of a clean text is visible when it is long enough or
reaches the end. -/
theorem visible_between {start stop : ℕ} (hstart : start < stop) (hstop : stop ≤ chars.length)
    (h : start + 2 ≤ stop ∨ stop = chars.length ∨ start = 0) :
    ∃ c ∈ (chars.take stop).drop start, isWhitespace c = false := by
  obtain hlong | hend | hbegin := h
  · -- of two neighbours one is visible
    have hpair : Words.Spaced isWhitespace ((chars.take stop).drop start) :=
      (hclean.spaced.take stop).drop start
    have hlength : ((chars.take stop).drop start).length = stop - start := by simp; omega
    match hpiece : (chars.take stop).drop start with
    | [] | [a] =>
      rw [hpiece] at hlength
      simp only [List.length_nil, List.length_cons] at hlength
      omega
    | a :: b :: rest =>
      rw [hpiece] at hpair
      obtain ha | hb := (List.isChain_cons_cons.mp hpair).1
      · exact ⟨a, by simp, ha⟩
      · exact ⟨b, by simp, hb⟩
  · obtain ⟨init, c, rfl, hc⟩ := hclean.last
    subst hend
    refine ⟨c, ?_, hc⟩
    rw [List.take_length, List.drop_append_of_le_length]
    · simp
    · simp only [List.length_append, List.length_singleton] at hstart
      omega
  · obtain ⟨c, rest, rfl, hc⟩ := hclean.head
    subst hbegin
    obtain ⟨n, rfl⟩ := Nat.exists_eq_succ_of_ne_zero hstart.ne'
    exact ⟨c, by simp, hc⟩

/-- One turn of the loop on a clean text. -/
theorem chunkFrom_succ (hsize : 2 ≤ size) {turns start : ℕ} (h : start < chars.length) :
    chunkFrom chars size overlap (turns + 1) start =
      (start, min (start + size) chars.length,
        cleanText (String.ofList ((chars.take (min (start + size) chars.length)).drop start))
          (size + 64)) ::
        if min (start + size) chars.length = chars.length then []
        else chunkFrom chars size overlap turns (min (start + size) chars.length - overlap) := by
  obtain ⟨c, hc, hfree⟩ : ∃ c ∈ (chars.take (min (start + size) chars.length)).drop start,
      isWhitespace c = false := visible_between hclean (by omega) (by omega) (by omega)
  rw [chunkFrom, if_pos h]
  dsimp only
  rw [if_neg (cleanText_ne_empty (by omega) hc hfree)]

end Chunks

/-! ## When two runs cut alike -/

/-- Two settings cut a text of so many characters alike. -/
def SameCut (size overlap size' overlap' n : ℕ) : Prop :=
  (n ≤ size ∧ n ≤ size') ∨ (size = size' ∧ safeOverlap size overlap = safeOverlap size' overlap')

section SameCut

variable {text : String} {size overlap size' overlap' : ℕ}

theorem chunkText_of_cleaned (hclean : Cleaned text.toList) :
    chunkText text size overlap =
      chunkFrom text.toList size (safeOverlap size overlap) text.toList.length 0 := by
  rw [chunkText, if_neg]
  obtain ⟨c, rest, heq, -⟩ := hclean.head
  intro hempty
  rw [String.isEmpty_iff.mp hempty] at heq
  cases heq

theorem chunkText_of_le (hclean : Cleaned text.toList) (hsize : 2 ≤ size)
    (h : text.toList.length ≤ size) :
    chunkText text size overlap =
      [(0, text.toList.length, cleanText (String.ofList text.toList) (size + 64))] := by
  have hpos : 0 < text.toList.length := by
    obtain ⟨c, rest, heq, -⟩ := hclean.head
    simp [heq]
  obtain ⟨turns, hturns⟩ := Nat.exists_eq_succ_of_ne_zero hpos.ne'
  rw [chunkText_of_cleaned hclean, hturns, ← Nat.succ_eq_add_one, chunkFrom_succ hclean hsize hpos,
    zero_add, min_eq_right h, if_pos rfl, List.take_length, List.drop_zero]
  rw [hturns]

/-- The first two chunks of a clean text that does not fit into one. -/
theorem chunkText_of_lt (overlap : ℕ) (hclean : Cleaned text.toList) (hsize : 2 ≤ size)
    (h : size < text.toList.length) :
    ∃ first second rest, chunkText text size overlap =
      (0, size, first) :: (size - safeOverlap size overlap, second) :: rest := by
  obtain ⟨turns, hturns⟩ : ∃ turns, text.toList.length = turns + 2 :=
    ⟨text.toList.length - 2, by omega⟩
  have hstart : size - safeOverlap size overlap < text.toList.length := by omega
  rw [chunkText_of_cleaned hclean, hturns, chunkFrom_succ hclean hsize (by omega), zero_add,
    min_eq_left h.le, if_neg h.ne, chunkFrom_succ hclean hsize hstart]
  exact ⟨_, _, _, rfl⟩

/-- **When two runs cut a text alike.** -/
theorem chunkText_eq_iff (hclean : Cleaned text.toList) (hsize : 2 ≤ size) (hsize' : 2 ≤ size') :
    chunkText text size overlap = chunkText text size' overlap' ↔
      SameCut size overlap size' overlap' text.toList.length := by
  constructor
  · intro heq
    obtain hfits | hlong := Nat.lt_or_ge size text.toList.length
    · obtain ⟨first, second, rest, hcut⟩ := chunkText_of_lt overlap hclean hsize hfits
      rw [hcut] at heq
      obtain hfits' | hlong' := Nat.lt_or_ge size' text.toList.length
      · obtain ⟨first', second', rest', hcut'⟩ :=
          chunkText_of_lt overlap' hclean hsize' hfits'
        rw [hcut'] at heq
        simp only [List.cons.injEq, Prod.mk.injEq, true_and] at heq
        obtain ⟨⟨rfl, -⟩, ⟨hsecond, -⟩, -⟩ := heq
        refine .inr ⟨rfl, ?_⟩
        simp only [safeOverlap] at hsecond ⊢
        omega
      · rw [chunkText_of_le hclean hsize' hlong'] at heq
        cases heq
    · obtain hfits' | hlong' := Nat.lt_or_ge size' text.toList.length
      · obtain ⟨first', second', rest', hcut'⟩ :=
          chunkText_of_lt overlap' hclean hsize' hfits'
        rw [chunkText_of_le hclean hsize hlong, hcut'] at heq
        cases heq
      · exact .inl ⟨hlong, hlong'⟩
  · rintro (⟨h, h'⟩ | ⟨rfl, hoverlap⟩)
    · rw [chunkText_of_le hclean hsize h, chunkText_of_le hclean hsize' h',
        cleanText_of_length_le (by omega : text.toList.length ≤ size + 64)
          (by omega : text.toList.length ≤ size' + 64)]
    · rw [chunkText_of_cleaned hclean, chunkText_of_cleaned hclean, hoverlap]

end SameCut

end Protheus.Rag
