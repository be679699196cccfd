import Protheus.LaneUtils
import Protheus.Lib.Sweep
import Protheus.Rag.Text

/-!
What `chunk_text` of `rag_runtime.rs` reads: the windows of its loop, on `usize`.

A turn of the loop adds a size to its start and 64 to the size; a sum that does not fit
ends the process where overflow is checked and wraps where it is not.  With a size up to
`usize::MAX - 64` both fit, and the windows are a sweep over the characters
(`chunkLoop_of_sweep`): the loop ends, and leaves the chunks of `chunkText`.
`cleanText_window` says what is cut off a window of a clean text: a blank at either end.
-/

namespace Protheus.Rag

open LaneUtils RustStd

/-! ## The loop on `usize` -/

/-- A text as the process holds it: at most `isize::MAX` bytes. -/
abbrev RustString := { text : String // text.utf8ByteSize < 2 ^ 63 }

/-- `+` on `usize`: where overflow is not checked it wraps. -/
def usizeAdd (checks : Bool) (a b : ℕ) : Option ℕ :=
  if a + b < 2 ^ 64 then some (a + b) else if checks then none else some ((a + b) % 2 ^ 64)

/-- What so many turns of the loop come to. -/
inductive Chunking
  /-- A sum that does not fit, or a slice that ends before it starts. -/
  | panicked
  /-- The loop goes on. -/
  | running
  /-- The windows that were read, and the chunks. -/
  | returned (windows : List (ℕ × ℕ)) (out : List Piece)
  deriving DecidableEq

/-- The characters of a window. -/
def slice (chars : List Char) (w : ℕ × ℕ) : List Char := (chars.take w.2).drop w.1

/-- The loop of `chunk_text`, for at most so many turns. -/
def chunkLoop (checks : Bool) (chars : List Char) (size overlap : ℕ) :
    ℕ → ℕ → List (ℕ × ℕ) → List Piece → Chunking
  | 0, _, _, _ => .running
  | turns + 1, start, windows, out =>
    if start < chars.length then
      match usizeAdd checks start size, usizeAdd checks size 64 with
      | some reach, some maxLen =>
        let stop := min reach chars.length
        if stop < start then .panicked
        else
          let clean := cleanText (String.ofList (slice chars (start, stop))) maxLen
          let windows := windows ++ [(start, stop)]
          let out := if clean = "" then out else out ++ [(start, stop, clean)]
          if stop = chars.length then .returned windows out
          else chunkLoop checks chars size overlap turns (stop - overlap) windows out
      | _, _ => .panicked
    else .returned windows out

/-- `chunk_text`, for at most so many turns of its loop. -/
def chunkTextIn (checks : Bool) (turns : ℕ) (text : RustString) (size overlap : UInt64) : Chunking :=
  if text.1.isEmpty then .returned [] []
  else
    chunkLoop checks text.1.toList size.toNat (safeOverlap size.toNat overlap.toNat) turns 0 [] []

/-! ## The windows of the loop -/

def chunkOf (chars : List Char) (size : ℕ) (w : ℕ × ℕ) : Option Piece :=
  let clean := cleanText (String.ofList (slice chars w)) (size + 64)
  if clean = "" then none else some (w.1, w.2, clean)

section Loop

variable {checks : Bool} {chars : List Char} {size overlap : ℕ}

theorem filterMap_chunkOf (w : ℕ × ℕ) (ws : List (ℕ × ℕ)) :
    (w :: ws).filterMap (chunkOf chars size) =
      (chunkOf chars size w).toList ++ ws.filterMap (chunkOf chars size) := by
  cases hchunk : chunkOf chars size w with
  | none => rw [List.filterMap_cons_none hchunk]; rfl
  | some piece => rw [List.filterMap_cons_some hchunk]; rfl

theorem usizeAdd_of_lt {a b : ℕ} (h : a + b < 2 ^ 64) : usizeAdd checks a b = some (a + b) := if_pos h

/-- One turn of the loop where the sums fit. -/
theorem chunkLoop_succ {turns start : ℕ} {windows : List (ℕ × ℕ)} {out : List Piece}
    (h : start < chars.length) (hreach : start + size < 2 ^ 64) (hsize : size + 64 < 2 ^ 64) :
    chunkLoop checks chars size overlap (turns + 1) start windows out =
      if min (start + size) chars.length = chars.length then
        .returned (windows ++ [(start, min (start + size) chars.length)])
          (out ++ (chunkOf chars size (start, min (start + size) chars.length)).toList)
      else
        chunkLoop checks chars size overlap turns (min (start + size) chars.length - overlap)
          (windows ++ [(start, min (start + size) chars.length)])
          (out ++ (chunkOf chars size (start, min (start + size) chars.length)).toList) := by
  have hout (stop : ℕ) : (if cleanText (String.ofList (slice chars (start, stop))) (size + 64) = "" then out
      else out ++ [(start, stop, cleanText (String.ofList (slice chars (start, stop))) (size + 64))]) =
        out ++ (chunkOf chars size (start, stop)).toList := by
    rw [chunkOf]
    dsimp only
    split
    · exact (List.append_nil out).symm
    · rfl
  rw [chunkLoop, if_pos h, usizeAdd_of_lt hreach, usizeAdd_of_lt hsize]
  dsimp only
  rw [if_neg (by omega : ¬min (start + size) chars.length < start), hout]

/-- **The loop reads a sweep** and ends with it. -/
theorem chunkLoop_of_sweep (hlap : overlap < size) (hchars : chars.length < 2 ^ 63)
    (hsize : size + 64 < 2 ^ 64) {start turns : ℕ} {ws windows : List (ℕ × ℕ)} {out : List Piece}
    (h : Sweep chars.length size overlap start ws) (hreach : start + size < 2 ^ 64)
    (hturns : ws.length ≤ turns) :
    chunkLoop checks chars size overlap turns start windows out =
      .returned (windows ++ ws) (out ++ ws.filterMap (chunkOf chars size)) := by
  induction h generalizing turns windows out with
  | @last start hstart hend =>
    obtain ⟨turns, rfl⟩ := Nat.exists_eq_add_of_le' hturns
    rw [List.length_singleton, chunkLoop_succ hstart hreach hsize, min_eq_right hend, if_pos rfl,
      filterMap_chunkOf, List.filterMap_nil, List.append_nil]
  | @next start rest hmore hrest ih =>
    rw [List.length_cons] at hturns
    obtain ⟨turns, rfl⟩ := Nat.exists_eq_add_of_le' (Nat.one_le_of_lt hturns)
    rw [chunkLoop_succ (by omega) hreach hsize, min_eq_left hmore.le, if_neg hmore.ne,
      ih (by omega) (by omega), filterMap_chunkOf, List.append_assoc, List.append_assoc,
      List.singleton_append]

/-- The chunks of the loop without bounds are those of the sweep. -/
theorem chunkFrom_of_sweep {start turns : ℕ} {ws : List (ℕ × ℕ)}
    (h : Sweep chars.length size overlap start ws) (hlap : overlap < size) (hturns : ws.length ≤ turns) :
    chunkFrom chars size overlap turns start = ws.filterMap (chunkOf chars size) := by
  have hturn {start stop : ℕ} (rest : List Piece) :
      (if cleanText (String.ofList ((chars.take stop).drop start)) (size + 64) = "" then rest
        else (start, stop, cleanText (String.ofList ((chars.take stop).drop start)) (size + 64)) :: rest) =
      (chunkOf chars size (start, stop)).toList ++ rest := by
    rw [chunkOf, slice]
    dsimp only
    split
    · rfl
    · rfl
  induction h generalizing turns with
  | @last start hstart hend =>
    obtain ⟨turns, rfl⟩ := Nat.exists_eq_add_of_le' hturns
    rw [List.length_singleton, chunkFrom, if_pos hstart]
    dsimp only
    rw [min_eq_right hend, if_pos rfl, hturn, filterMap_chunkOf, List.filterMap_nil]
  | @next start rest hmore hrest ih =>
    rw [List.length_cons] at hturns
    obtain ⟨turns, rfl⟩ := Nat.exists_eq_add_of_le' (Nat.one_le_of_lt hturns)
    rw [chunkFrom, if_pos (by omega : start < chars.length)]
    dsimp only
    rw [min_eq_left hmore.le, if_neg hmore.ne, hturn, ih (by omega), filterMap_chunkOf]

end Loop

/-! ## Windows of a clean text -/

/-- What `clean_text` leaves of a text has single blanks. -/
theorem blanks_of_cleanText {raw : String} {maxLen : ℕ} :
    Words.Spaced isWhitespace (cleanText raw maxLen).toList ∧
      ∀ c ∈ (cleanText raw maxLen).toList, isWhitespace c = true → c = ' ' := by
  have hin : (cleanText raw maxLen).toList <:+: (joinWords raw).take maxLen := by
    have hwithin := trim_within (String.ofList ((joinWords raw).take maxLen))
    rwa [String.toList_ofList] at hwithin
  have hspaced : Words.Spaced isWhitespace ((joinWords raw).take maxLen) :=
    (Words.spaced_joined raw.toList).take maxLen
  exact ⟨hspaced.of_isInfix hin,
    fun c hc => Words.eq_gap_of_mem_joined (List.mem_of_mem_take (hin.subset hc))⟩

/-- **What is cut off a window**: a blank at either end at most. -/
theorem cleanText_window {l : List Char} {maxLen : ℕ} (hspaced : Words.Spaced isWhitespace l)
    (hblanks : ∀ c ∈ l, isWhitespace c = true → c = ' ') (hlength : l.length ≤ maxLen) :
    ∃ lead trail, (lead = [] ∨ lead = [' ']) ∧ (trail = [] ∨ trail = [' ']) ∧
      l = lead ++ (cleanText (String.ofList l) maxLen).toList ++ trail := by
  have hle : (Words.joined isWhitespace ' ' l).length ≤ l.length := Words.length_joined_le l
  have hclean : cleanText (String.ofList l) maxLen = String.ofList (Words.joined isWhitespace ' ' l) := by
    rw [cleanText, joinWords_eq, String.toList_ofList, List.take_of_length_le (by omega)]
    refine trim_eq_self_of ?_ ?_
    · rw [String.toList_ofList]
      exact Words.head_joined l
    · rw [String.toList_ofList]
      exact Words.getLast_joined l
  rw [hclean, String.toList_ofList]
  exact Words.eq_gaps_joined hspaced hblanks (by decide)

theorem slice_infix (chars : List Char) (w : ℕ × ℕ) : slice chars w <:+: chars :=
  (List.drop_suffix _ _).isInfix.trans (List.take_prefix _ _).isInfix

/-! ## Coverage -/

/-- The places a window holds. -/
def places (w : ℕ × ℕ) : Finset ℕ := Finset.Ico w.1 w.2

/-- Windows that cover `n` places, each two neighbours sharing `lap` of them. -/
structure Covers (n lap : ℕ) (windows : List (ℕ × ℕ)) : Prop where
  /-- The first starts at 0. -/
  starts : ∃ w, windows.head? = some w ∧ w.1 = 0
  /-- Each starts further on. -/
  ascending : windows.Pairwise fun a b => a.1 < b.1
  /-- The last reaches the end. -/
  ends : ∃ w, windows.getLast? = some w ∧ w.2 = n
  /-- Every place is in one. -/
  covers : ∀ i < n, ∃ w ∈ windows, i ∈ places w
  /-- Neighbours share a lap. -/
  laps : windows.IsChain fun a b => (places a ∩ places b).card = lap

/-- The text of a window less a blank at either end at most. -/
def IsTrimmed (chars : List Char) (piece : Piece) : Prop :=
  ∃ lead trail, (lead = [] ∨ lead = [' ']) ∧ (trail = [] ∨ trail = [' ']) ∧
    slice chars (piece.1, piece.2.1) = lead ++ piece.2.2.toList ++ trail

/-- `chunk_text` ends, its windows cover the text, and each chunk is the text of one of them:
less a blank at either end, where the text is clean. -/
def ChunksCover (checks : Bool) (text : RustString) (size overlap : UInt64) : Prop :=
  ∃ windows out,
    (∃ turns, ∀ more, chunkTextIn checks (turns + more) text size overlap = .returned windows out) ∧
    (text.1 ≠ "" → Covers text.1.toList.length (min overlap.toNat (size.toNat - 1)) windows) ∧
    (∀ piece ∈ out, (piece.1, piece.2.1) ∈ windows) ∧
    ((∃ maxLen, cleanText text.1 maxLen = text.1) → ∀ piece ∈ out, IsTrimmed text.1.toList piece)

theorem covers_of_sweep {n size lap : ℕ} {windows : List (ℕ × ℕ)} (hlap : lap < size)
    (h : Sweep n size lap 0 windows) : Covers n lap windows where
  starts := by
    obtain ⟨rest, rfl⟩ := h.eq_cons
    exact ⟨_, rfl, rfl⟩
  ascending := h.ascending hlap
  ends := h.getLast?_eq
  covers i hi := by
    obtain ⟨w, hw, hcovers⟩ := h.covers (Nat.zero_le i) hi
    exact ⟨w, hw, Finset.mem_Ico.mpr hcovers⟩
  laps := h.laps hlap

theorem length_toList_le (s : String) : s.toList.length ≤ s.utf8ByteSize := by
  have hbytes : s.utf8ByteSize = (s.toList.flatMap String.utf8EncodeChar).length := by
    rw [← String.size_toByteArray, ← String.utf8Encode_toList, List.utf8Encode]
    simp
  rw [hbytes]
  induction s.toList with
  | nil => exact Nat.le_refl 0
  | cons c l ih =>
    have hpos := c.utf8Size_pos
    rw [List.flatMap_cons, List.length_append, List.length_cons, String.length_utf8EncodeChar]
    omega

/-- A chunk that the loop leaves comes from a window. -/
theorem mem_of_chunkOf {chars : List Char} {size : ℕ} {windows : List (ℕ × ℕ)} {piece : Piece}
    (h : piece ∈ windows.filterMap (chunkOf chars size)) :
    (piece.1, piece.2.1) ∈ windows ∧
      piece.2.2 = cleanText (String.ofList (slice chars (piece.1, piece.2.1))) (size + 64) := by
  obtain ⟨w, hw, hchunk⟩ := List.mem_filterMap.mp h
  rw [chunkOf] at hchunk
  split at hchunk
  · cases hchunk
  · cases hchunk
    exact ⟨hw, rfl⟩

section Text

variable {checks : Bool} {text : RustString} {size overlap : UInt64}

theorem safeOverlap_lt {size overlap : ℕ} (hpos : 0 < size) : safeOverlap size overlap < size := by
  rw [safeOverlap]
  omega

/-- A text that is not empty is read in a sweep. -/
theorem exists_windows (hpos : 0 < size) (hsize : size.toNat + 64 < 2 ^ 64) (htext : text.1 ≠ "") :
    ∃ windows, Sweep text.1.toList.length size.toNat (safeOverlap size.toNat overlap.toNat) 0 windows ∧
      chunkText text.1 size.toNat overlap.toNat = windows.filterMap (chunkOf text.1.toList size.toNat) ∧
      ∀ turns, text.1.toList.length ≤ turns → chunkTextIn checks turns text size overlap =
        .returned windows (chunkText text.1 size.toNat overlap.toNat) := by
  have hlap : safeOverlap size.toNat overlap.toNat < size.toNat :=
    safeOverlap_lt (UInt64.lt_iff_toNat_lt.mp hpos)
  have hchars : text.1.toList.length < 2 ^ 63 := (length_toList_le text.1).trans_lt text.2
  have hsome : 0 < text.1.toList.length :=
    List.length_pos_iff.mpr fun h => htext (String.toList_injective h)
  have hempty : ¬text.1.isEmpty = true := fun h => htext (String.isEmpty_iff.mp h)
  obtain ⟨windows, hsweep⟩ := exists_sweep hlap hsome
  have hlength := hsweep.length_le hlap
  have hchunks : chunkText text.1 size.toNat overlap.toNat =
      windows.filterMap (chunkOf text.1.toList size.toNat) := by
    rw [chunkText, if_neg hempty]
    exact chunkFrom_of_sweep hsweep hlap (by omega)
  refine ⟨windows, hsweep, hchunks, fun turns hturns => ?_⟩
  rw [chunkTextIn, if_neg hempty, hchunks]
  exact chunkLoop_of_sweep hlap hchars hsize hsweep (by omega) (by omega)

/-- **On `usize` the loop leaves the chunks of `chunkText`.** -/
theorem chunkTextIn_eq (hpos : 0 < size) (hsize : size.toNat + 64 < 2 ^ 64) {turns : ℕ}
    (hturns : text.1.toList.length ≤ turns) :
    ∃ windows, chunkTextIn checks turns text size overlap =
      .returned windows (chunkText text.1 size.toNat overlap.toNat) := by
  by_cases htext : text.1 = ""
  · refine ⟨[], ?_⟩
    rw [chunkTextIn, chunkText, if_pos (String.isEmpty_iff.mpr htext),
      if_pos (String.isEmpty_iff.mpr htext)]
  · obtain ⟨windows, -, -, hreturned⟩ := @exists_windows checks text size overlap hpos hsize htext
    exact ⟨windows, hreturned turns hturns⟩

theorem chunkTextIn_eq_lapped : ∃ windows, chunkTextIn true 4 ⟨"a bc", by decide⟩ 2 7 =
    .returned windows (chunkText "a bc" 2 7) :=
  chunkTextIn_eq (by decide) (by decide) (by decide)

/-- A chunk of a clean text is its window less a blank at either end. -/
theorem isTrimmed_of_mem {windows : List (ℕ × ℕ)} {maxLen size lap : ℕ} (hlap : lap < size)
    (hclean : cleanText text.1 maxLen = text.1) (hsweep : Sweep text.1.toList.length size lap 0 windows)
    {piece : Piece} (h : piece ∈ windows.filterMap (chunkOf text.1.toList size)) :
    IsTrimmed text.1.toList piece := by
  obtain ⟨hwindow, htext⟩ := mem_of_chunkOf h
  obtain ⟨hspaced, hblanks⟩ := @blanks_of_cleanText text.1 maxLen
  rw [hclean] at hspaced hblanks
  have hin := slice_infix text.1.toList (piece.1, piece.2.1)
  have hlength : (slice text.1.toList (piece.1, piece.2.1)).length ≤ size + 64 := by
    have hwithin := hsweep.within hlap _ hwindow
    rw [slice, List.length_drop, List.length_take]
    omega
  rw [IsTrimmed, htext]
  exact cleanText_window (hspaced.of_isInfix hin) (fun c hc => hblanks c (hin.subset hc)) hlength

end Text

/-- **Chunks cover the text**, for every size that leaves room for the 64 characters more. -/
theorem chunks_cover (checks : Bool) (text : RustString) (size overlap : UInt64) (hpos : 0 < size)
    (hsize : size.toNat + 64 < 2 ^ 64) : ChunksCover checks text size overlap := by
  by_cases htext : text.1 = ""
  · refine ⟨[], [], ⟨0, fun more => ?_⟩, fun h => absurd htext h, by simp, by simp⟩
    rw [chunkTextIn, if_pos (String.isEmpty_iff.mpr htext)]
  · have hlap : safeOverlap size.toNat overlap.toNat < size.toNat :=
      safeOverlap_lt (UInt64.lt_iff_toNat_lt.mp hpos)
    obtain ⟨windows, hsweep, hchunks, hreturned⟩ := exists_windows hpos hsize htext
    refine ⟨windows, chunkText text.1 size.toNat overlap.toNat,
      ⟨text.1.toList.length, fun more => hreturned _ (Nat.le_add_right _ more)⟩,
      fun _ => covers_of_sweep hlap hsweep, ?_, ?_⟩
    · rw [hchunks]
      exact fun piece hpiece => (mem_of_chunkOf hpiece).1
    · rintro ⟨maxLen, hclean⟩
      rw [hchunks]
      exact fun piece hpiece => isTrimmed_of_mem hlap hclean hsweep hpiece

/-- A text of four characters in windows of two, each starting one on. -/
theorem chunks_cover_guard : ChunksCover true ⟨"a bc", by decide⟩ 2 7 :=
  chunks_cover true _ 2 7 (by decide) (by decide)

/-- With a size that leaves no room the process ends, or 64 more wraps and the chunk is cut off. -/
theorem not_chunksCover_wide (checks : Bool) :
    ¬ChunksCover checks ⟨"ab", by decide⟩ 18446744073709551553 0 := by
  rintro ⟨windows, out, ⟨turns, hreturned⟩, -, -, htrimmed⟩
  have hclean : cleanText (String.ofList (slice ['a', 'b'] (0, 2))) 1 = "a" := by decide
  have hturn := hreturned 1
  cases checks with
  | true => cases hturn
  | false =>
    have hwrapped : chunkTextIn false (turns + 1) ⟨"ab", by decide⟩ 18446744073709551553 0 =
        .returned [(0, 2)] [(0, 2, cleanText (String.ofList (slice ['a', 'b'] (0, 2))) 1)] := by
      rfl
    rw [hwrapped] at hturn
    cases hturn
    obtain ⟨lead, trail, hlead, htrail, htext⟩ :=
      htrimmed ⟨2, by decide⟩ _ List.mem_cons_self
    rw [hclean] at htext
    obtain rfl | rfl := hlead <;> obtain rfl | rfl := htrail <;> revert htext <;> decide

theorem wide_chunks_fail : ¬ChunksCover true ⟨"ab", by decide⟩ 18446744073709551553 0 ∧
    ¬ChunksCover false ⟨"ab", by decide⟩ 18446744073709551553 0 :=
  ⟨not_chunksCover_wide true, not_chunksCover_wide false⟩

end Protheus.Rag
