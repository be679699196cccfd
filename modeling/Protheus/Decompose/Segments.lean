import Protheus.Decompose.Text
import Protheus.Lib.Keywords

/-!
How `decompose.rs` cuts a goal into segments.

A text is cut at semicolons and newlines and at the connector words, piece by piece, until the
pieces are short or deep enough.  What is cut away is blanks, punctuation and connector words:
the other runs of letters and digits of a goal that is not cut off are those of its segments,
in order (`runs_recursiveDecompose`).
-/

namespace Protheus.Decompose

open RustStd

/-! ## Characters -/

/-- What is taken of Unicode: the word characters of a regex, letters and digits, and upper case. -/
structure Unicode where
  isWord : Char → Bool
  isLetterOrDigit : Char → Bool
  toUppercase : Char → List Char
  word : ∀ c, isLetterOrDigit c = true → isWord c = true
  ascii : ∀ c : Char, c.isAlphanum = true → isLetterOrDigit c = true
  longS : isLetterOrDigit '\u017F' = true
  blank : ∀ c, isWhitespace c = true → isLetterOrDigit c = false
  semicolon : isLetterOrDigit ';' = false

/-- What a letter of the connectors matches under `(?i)`. -/
def sameFold (k c : Char) : Bool := c == k || c == k.toUpper || (k == 's' && c == '\u017F')

def connectorWords : List String := ["and", "then", "after", "before", "while", "plus", "also", "with"]

/-- The alternatives of `connector_re`, in its order. -/
def connectors : List String :=
  ["and then", "then", "and", "after", "before", "while", "plus", "also", "with"]

def isConnectorWord (run : List Char) : Bool :=
  connectorWords.any fun word => word.toList.length == run.length && Keywords.fits sameFold word.toList run

section Segments

variable (unicode : Unicode)

/-- Between the runs of letters and digits. -/
def between (c : Char) : Bool := !unicode.isLetterOrDigit c

/-- The longest runs of letters and digits of a text that are no connector words. -/
def runs (text : String) : List (List Char) :=
  (Words.words (between unicode) text.toList).filter (!isConnectorWord ·)

/-! ## Segments -/

/-- `split_whitespace().count()`. -/
def wordCount (text : String) : ℕ := (Words.words isWhitespace text.toList).length

/-- The characters of `punct_re`. -/
def isPunct (c : Char) : Bool := c == '\n' || c == ';'

/-- Pieces as they are cleaned, but for the empty ones. -/
def cleaned (rows : List (List Char)) (maxLen : ℕ) : List String :=
  (rows.map fun row => cleanText (String.ofList row) maxLen).filter (· ≠ "")

/-- What `split_candidates` makes of a row: its parts between connectors, if there are several. -/
def rowParts (row : String) : List String :=
  let split := cleaned (Keywords.pieces unicode.isWord sameFold (connectors.map String.toList) 0 none row.toList) 600
  if 1 < split.length then split
  else if row ≠ "" then [row]
  else []

/-- `split_candidates`.  The empty pieces between punctuation are left out from the start. -/
def splitCandidates (text : String) : List String :=
  let punct := cleaned (Words.words isPunct text.toList) 800
  let rows := if punct = [] then [text] else punct
  rows.flatMap (rowParts unicode)

structure DecomposePolicy where
  maxDepth : ℕ
  maxMicroTasks : ℕ
  maxWordsPerLeaf : ℕ
  minMinutes : ℕ
  maxMinutes : ℕ
  maxGroups : ℕ
  defaultLane : String
  stormLane : String
  humanLaneKeywords : List String
  autonomousLaneKeywords : List String
  minStormShare : ℚ

structure Segment where
  text : String
  depth : ℕ
  parentId : Option String
  deriving DecidableEq

/-- `sha16`, given how a digest is written. -/
def sha16 (sha256Hex : String → String) (seed : String) : String :=
  String.ofList ((sha256Hex seed).toList.take 16)

variable (sha256Hex : String → String) (policy : DecomposePolicy)

/-- The candidates of a cleaned text. -/
def candidatesOf (trimmed : String) : List String :=
  ((splitCandidates unicode trimmed).map (cleanText · 1000)).filter fun row => row ≠ "" && row ≠ trimmed

/-- `recursive_decompose`. -/
def recursiveDecompose (text : String) (depth : ℕ) (parent : Option String) : List Segment :=
  let trimmed := cleanText text 1200
  if trimmed = "" then []
  else if policy.maxDepth ≤ depth ∨ wordCount trimmed ≤ policy.maxWordsPerLeaf then [⟨trimmed, depth, parent⟩]
  else
    let candidates := candidatesOf unicode trimmed
    if candidates = [] then [⟨trimmed, depth, parent⟩]
    else
      let currentId := "seg_" ++
        sha16 sha256Hex (toString depth ++ "|" ++ String.ofList (trimmed.toList.take 120))
      let out := candidates.flatMap fun candidate => recursiveDecompose candidate (depth + 1) (some currentId)
      if out = [] then [⟨trimmed, depth, parent⟩] else out
termination_by policy.maxDepth - depth

end Segments

/-! ## Cleaned texts -/

section Cleaned

variable {unicode : Unicode}

theorem toList_cleanText {s : String} {maxLen : ℕ} (h : s.toList.length ≤ maxLen) :
    (cleanText s maxLen).toList = Words.joined isWhitespace ' ' s.toList := by
  have hlength : (joinWords s).length ≤ maxLen := (Words.length_joined_le s.toList).trans h
  rw [cleanText, String.toList_ofList, List.take_of_length_le hlength]
  rfl

theorem length_cleanText_le (s : String) (maxLen : ℕ) :
    (cleanText s maxLen).toList.length ≤ s.toList.length := by
  rw [cleanText, String.toList_ofList]
  exact (List.length_take_le' _ _).trans (Words.length_joined_le s.toList)

theorem cleanText_cleanText {s : String} {maxLen maxLen' : ℕ} (h : s.toList.length ≤ maxLen)
    (h' : s.toList.length ≤ maxLen') : cleanText (cleanText s maxLen) maxLen' = cleanText s maxLen := by
  have hself : Words.joined isWhitespace ' ' (Words.joined isWhitespace ' ' s.toList) =
      Words.joined isWhitespace ' ' s.toList :=
    Words.joined_eq_self (by decide) (Words.spaced_joined _) (fun _ hc hspace => Words.eq_gap_of_mem_joined hc hspace)
      (Words.head_joined _) (Words.getLast_joined _)
  apply String.toList_injective
  rw [toList_cleanText ((length_cleanText_le s maxLen).trans h'), toList_cleanText h, hself]

theorem between_of_blank (c : Char) (h : isWhitespace c = true) : between unicode c = true := by
  rw [between, unicode.blank c h]
  rfl

theorem runs_cleanText {s : String} {maxLen : ℕ} (h : s.toList.length ≤ maxLen) :
    runs unicode (cleanText s maxLen) = runs unicode s := by
  rw [runs, toList_cleanText h, Words.words_joined between_of_blank (between_of_blank ' ' (by decide))]
  rfl

theorem runs_empty : runs unicode "" = [] := by simp [runs, Words.words]

/-- What is left out as empty has no runs. -/
theorem flatMap_runs_filter (rows : List String) :
    (rows.filter (· ≠ "")).flatMap (runs unicode) = rows.flatMap (runs unicode) := by
  induction rows with
  | nil => rfl
  | cons row rows ih =>
    by_cases hempty : row = ""
    · rw [List.filter_cons_of_neg (by simp [hempty]), ih, List.flatMap_cons, hempty, runs_empty, List.nil_append]
    · rw [List.filter_cons_of_pos (by simp [hempty]), List.flatMap_cons, List.flatMap_cons, ih]

/-- The length of some texts together. -/
def totalLength (rows : List String) : ℕ := (rows.map (·.toList.length)).sum

theorem length_le_totalLength {rows : List String} {row : String} (h : row ∈ rows) :
    row.toList.length ≤ totalLength rows :=
  List.single_le_sum (fun _ _ => Nat.zero_le _) _ (List.mem_map_of_mem h)

theorem totalLength_filter_le (keep : String → Bool) (rows : List String) :
    totalLength (rows.filter keep) ≤ totalLength rows :=
  List.Sublist.sum_le_sum (List.filter_sublist.map _) fun _ _ => Nat.zero_le _

theorem flatMap_runs_map_cleanText {rows : List String} {maxLen : ℕ}
    (h : ∀ row ∈ rows, row.toList.length ≤ maxLen) :
    (rows.map (cleanText · maxLen)).flatMap (runs unicode) = rows.flatMap (runs unicode) := by
  rw [List.flatMap_map]
  exact List.flatMap_congr fun row hrow => runs_cleanText (h row hrow)

theorem totalLength_map_cleanText_le (rows : List String) (maxLen : ℕ) :
    totalLength (rows.map (cleanText · maxLen)) ≤ totalLength rows := by
  rw [totalLength, totalLength, List.map_map]
  exact List.sum_le_sum fun row _ => length_cleanText_le row maxLen

/-- Pieces lose no run when they are cleaned, and become no longer. -/
theorem cleaned_spec {rows : List (List Char)} {maxLen : ℕ} (h : (rows.map List.length).sum ≤ maxLen) :
    (cleaned rows maxLen).flatMap (runs unicode) =
        rows.flatMap (fun row => (Words.words (between unicode) row).filter (!isConnectorWord ·)) ∧
      totalLength (cleaned rows maxLen) ≤ (rows.map List.length).sum ∧
      ∀ row ∈ cleaned rows maxLen, row ≠ "" := by
  have hmap : (rows.map fun row => cleanText (String.ofList row) maxLen) =
      (rows.map String.ofList).map (cleanText · maxLen) := by
    rw [List.map_map]
    rfl
  have htotal : totalLength (rows.map String.ofList) = (rows.map List.length).sum := by
    rw [totalLength, List.map_map]
    simp [Function.comp_def]
  refine ⟨?_, ?_, fun row hrow => by simpa using (List.mem_filter.mp hrow).2⟩
  · rw [cleaned, flatMap_runs_filter, hmap, flatMap_runs_map_cleanText, List.flatMap_map]
    · exact List.flatMap_congr fun row _ => by rw [runs, String.toList_ofList]
    · intro row hrow
      exact (length_le_totalLength hrow).trans (htotal.le.trans h)
  · rw [cleaned, hmap]
    exact (totalLength_filter_le _ _).trans ((totalLength_map_cleanText_le _ _).trans htotal.le)

end Cleaned

/-! ## Connectors -/

section Connectors

variable {unicode : Unicode}

theorem isAlphanum_toUpper {k : Char} (h : k.isLower = true) : k.toUpper.isAlphanum = true := by
  have hall : ∀ n < 123, 97 ≤ n → (Char.ofNat n).toUpper.isAlphanum = true := by decide
  have hrange : 97 ≤ k.toNat ∧ k.toNat ≤ 122 := by
    rw [Char.isLower, Bool.and_eq_true, decide_eq_true_eq, decide_eq_true_eq] at h
    exact h
  rw [← Char.ofNat_toNat k]
  exact hall k.toNat (by omega) hrange.1

/-- What a lower case letter matches is a letter. -/
theorem letter_of_sameFold {k c : Char} (hk : k.isLower = true) (h : sameFold k c = true) :
    unicode.isLetterOrDigit c = true := by
  simp only [sameFold, Bool.or_eq_true, Bool.and_eq_true, beq_iff_eq] at h
  rcases h with (rfl | rfl) | ⟨-, rfl⟩
  · exact unicode.ascii c (by simp [Char.isAlphanum, Char.isAlpha, hk])
  · exact unicode.ascii _ (isAlphanum_toUpper hk)
  · exact unicode.longS

/-- Connectors are words with single blanks between them. -/
theorem connectors_letters : ∀ keyword ∈ connectors.map String.toList,
    (keyword.head?.any Char.isLower && keyword.getLast?.any Char.isLower &&
      keyword.all (fun k => k.isLower || k == ' ') &&
      (Words.words (· == ' ') keyword).all fun word => connectorWords.contains (String.ofList word)) = true := by
  decide

theorem whole_connectors : Keywords.Whole unicode.isWord sameFold (connectors.map String.toList) where
  nonempty := by decide
  ends keyword hmem text hlength hfits := by
    have hletters := connectors_letters keyword hmem
    simp only [Bool.and_eq_true] at hletters
    obtain ⟨⟨⟨hhead, hlast⟩, -⟩, -⟩ := hletters
    have hforall := (Keywords.fits_iff_forall₂ hlength).mp hfits
    have hfirst {ks cs : List Char} (h : List.Forall₂ (fun k c => sameFold k c = true) ks cs)
        (hks : ks.head?.any Char.isLower = true) : cs.head?.any unicode.isWord = true := by
      cases h with
      | nil => cases hks
      | cons hkc _ => exact unicode.word _ (letter_of_sameFold hks hkc)
    refine ⟨hfirst hforall hhead, ?_⟩
    rw [← List.head?_reverse] at hlast ⊢
    exact hfirst (List.forall₂_reverse_iff.mpr hforall) hlast

/-- A lower case letter or a blank matches between words only where it is a blank. -/
theorem between_of_sameFold {k c : Char} (hk : (k.isLower || k == ' ') = true) (h : sameFold k c = true) :
    (k == ' ') = between unicode c := by
  by_cases hblank : k = ' '
  · subst hblank
    have hc : c = ' ' := by
      simp only [sameFold, Bool.or_eq_true, Bool.and_eq_true, beq_iff_eq] at h
      rcases h with (rfl | rfl) | ⟨hs, -⟩
      · rfl
      · rfl
      · cases hs
    rw [hc, between_of_blank ' ' (by decide)]
    rfl
  · have hlower : k.isLower = true := by simpa [hblank] using hk
    rw [between, letter_of_sameFold hlower h, beq_false_of_ne hblank]
    rfl

theorem isConnectorWord_of_mem {keyword matched : List Char} (hmem : keyword ∈ connectors.map String.toList)
    (hlength : matched.length = keyword.length) (hfits : Keywords.fits sameFold keyword matched = true) :
    ∀ w ∈ Words.words (between unicode) matched, isConnectorWord w = true := by
  have hletters := connectors_letters keyword hmem
  simp only [Bool.and_eq_true] at hletters
  obtain ⟨⟨-, hall⟩, hwords⟩ := hletters
  have hforall := (Keywords.fits_iff_forall₂ hlength).mp hfits
  have hboth : List.Forall₂ (fun k c => (k.isLower || k == ' ') = true ∧ sameFold k c = true) keyword matched :=
    (List.forall₂_and_left _ _).mpr ⟨List.all_eq_true.mp hall, hforall⟩
  have halike : List.Forall₂ _ (Words.words (· == ' ') keyword) (Words.words (between unicode) matched) :=
    Words.forall₂_words (fun k c h => between_of_sameFold h.1 h.2) hboth
  have hconnector {word w : List Char} (h : String.ofList word ∈ connectorWords)
      (hw : List.Forall₂ (fun k c => (k.isLower || k == ' ') = true ∧ sameFold k c = true) word w) :
      isConnectorWord w = true := by
    refine List.any_eq_true.mpr ⟨String.ofList word, h, ?_⟩
    rw [String.toList_ofList, Bool.and_eq_true, beq_iff_eq]
    exact ⟨hw.length_eq, (Keywords.fits_iff_forall₂ hw.length_eq.symm).mpr (hw.imp fun _ _ hkc => hkc.2)⟩
  intro w hw
  obtain ⟨n, hn, rfl⟩ := List.mem_iff_getElem.mp hw
  have hn' : n < (Words.words (· == ' ') keyword).length := halike.length_eq ▸ hn
  refine hconnector ?_ (halike.get hn' hn)
  simpa using List.all_eq_true.mp hwords _ (List.getElem_mem hn')

/-- **Cutting at connectors loses no run.** -/
theorem runs_pieces (row : List Char) :
    (Keywords.pieces unicode.isWord sameFold (connectors.map String.toList) 0 none row).flatMap
        (fun piece => (Words.words (between unicode) piece).filter (!isConnectorWord ·)) =
      (Words.words (between unicode) row).filter (!isConnectorWord ·) := by
  refine Keywords.words_pieces whole_connectors (fun c hc => unicode.word c (by simpa [between] using hc))
    (fun keyword hmem matched hlength hfits w hw => ?_) none row
  rw [isConnectorWord_of_mem hmem hlength hfits w hw]
  rfl

end Connectors

/-! ## Candidates -/

section Candidates

variable {unicode : Unicode}

/-- What is cut from a text: it has the text's runs, and no more characters than the text. -/
structure CutFrom (unicode : Unicode) (rows : List String) (text : String) : Prop where
  runs : rows.flatMap (runs unicode) = Decompose.runs unicode text
  length : totalLength rows ≤ text.toList.length

theorem CutFrom.single (text : String) : CutFrom unicode [text] text where
  runs := List.flatMap_singleton _ _
  length := by simp [totalLength]

theorem totalLength_append (rows rows' : List String) :
    totalLength (rows ++ rows') = totalLength rows + totalLength rows' := by
  rw [totalLength, List.map_append, List.sum_append, totalLength, totalLength]

/-- Cutting each of the rows once more. -/
theorem CutFrom.flatMap {rows : List String} {text : String} {parts : String → List String}
    (h : CutFrom unicode rows text) (hparts : ∀ row ∈ rows, CutFrom unicode (parts row) row) :
    CutFrom unicode (rows.flatMap parts) text where
  runs := by
    rw [List.flatMap_assoc, ← h.runs]
    exact List.flatMap_congr fun row hrow => (hparts row hrow).runs
  length := by
    refine le_trans ?_ h.length
    clear h
    induction rows with
    | nil => exact Nat.le_refl _
    | cons row rows ih =>
      have hrow := (hparts row List.mem_cons_self).length
      have hrows := ih fun row' hrow' => hparts row' (List.mem_cons_of_mem _ hrow')
      have hcons : totalLength (row :: rows) = row.toList.length + totalLength rows := rfl
      rw [List.flatMap_cons, totalLength_append, hcons]
      exact Nat.add_le_add hrow hrows

theorem cutFrom_rowParts {row : String} (h : row.toList.length ≤ 600) : CutFrom unicode (rowParts unicode row) row := by
  have hsum := @Keywords.sum_length_pieces_le _ unicode.isWord sameFold (connectors.map String.toList) 0 none row.toList
  obtain ⟨hruns, hlength, -⟩ := @cleaned_spec unicode _ 600 (hsum.trans h)
  unfold rowParts
  dsimp only
  split
  · exact ⟨hruns.trans (runs_pieces row.toList), hlength.trans hsum⟩
  split
  · exact .single row
  · rename_i hempty
    obtain rfl : row = "" := by simpa using hempty
    exact ⟨runs_empty.symm, Nat.le_refl _⟩

theorem between_of_isPunct (c : Char) (h : isPunct c = true) : between unicode c = true := by
  rw [isPunct, Bool.or_eq_true, beq_iff_eq, beq_iff_eq] at h
  rcases h with rfl | rfl
  · exact between_of_blank _ (by decide)
  · rw [between, unicode.semicolon]
    rfl

/-- **The candidates of a text have its runs.** -/
theorem cutFrom_splitCandidates {text : String} (h : text.toList.length ≤ 600) :
    CutFrom unicode (splitCandidates unicode text) text := by
  have hsum := @Words.sum_length_words_le _ isPunct text.toList
  obtain ⟨hruns, hlength, -⟩ := @cleaned_spec unicode (Words.words isPunct text.toList) 800 (by omega)
  have hpunct : CutFrom unicode (cleaned (Words.words isPunct text.toList) 800) text := by
    refine ⟨?_, hlength.trans hsum⟩
    rw [hruns, ← List.filter_flatMap, Words.flatMap_words between_of_isPunct]
    rfl
  have hrows : CutFrom unicode (if cleaned (Words.words isPunct text.toList) 800 = [] then [text]
      else cleaned (Words.words isPunct text.toList) 800) text := by
    split
    · exact .single text
    · exact hpunct
  exact hrows.flatMap fun row hrow =>
    cutFrom_rowParts ((length_le_totalLength hrow).trans (hrows.length.trans h))

/-- Where one of the candidates is the whole text it is the only one. -/
theorem eq_singleton_of_mem {rows : List String} {text : String} (hne : ∀ row ∈ rows, row ≠ "")
    (hlength : totalLength rows ≤ text.toList.length) (hmem : text ∈ rows) : rows = [text] := by
  obtain ⟨before, after, rfl⟩ := List.append_of_mem hmem
  have hcons : totalLength (text :: after) = text.toList.length + totalLength after := rfl
  rw [totalLength_append, hcons] at hlength
  have hnil {part : List String} (hpart : ∀ row ∈ part, row ≠ "") (hzero : totalLength part = 0) : part = [] := by
    cases part with
    | nil => rfl
    | cons row rest =>
      have hrow : row.toList.length = 0 := by
        have hsplit : totalLength (row :: rest) = row.toList.length + totalLength rest := rfl
        omega
      exact absurd (String.toList_injective (List.length_eq_zero_iff.mp hrow)) (hpart row List.mem_cons_self)
  rw [hnil (fun row hrow => hne row (List.mem_append_left _ hrow)) (by omega),
    hnil (fun row hrow => hne row (List.mem_append_right _ (List.mem_cons_of_mem _ hrow))) (by omega)]
  rfl

/-- The candidates that are left have the text's runs, or there are none. -/
theorem cutFrom_candidatesOf {trimmed : String} (h : trimmed.toList.length ≤ 600)
    (hsome : candidatesOf unicode trimmed ≠ []) : CutFrom unicode (candidatesOf unicode trimmed) trimmed := by
  have hcut := @cutFrom_splitCandidates unicode trimmed h
  obtain ⟨rows, hrows⟩ : ∃ rows, rows = ((splitCandidates unicode trimmed).map (cleanText · 1000)).filter (· ≠ "") :=
    ⟨_, rfl⟩
  have hall : CutFrom unicode rows trimmed := by
    constructor
    · rw [hrows, flatMap_runs_filter, flatMap_runs_map_cleanText, hcut.runs]
      intro row hrow
      have hrow := (length_le_totalLength hrow).trans hcut.length
      omega
    · rw [hrows]
      exact (totalLength_filter_le _ _).trans ((totalLength_map_cleanText_le _ _).trans hcut.length)
  have hne : ∀ row ∈ rows, row ≠ "" := by
    rw [hrows]
    exact fun row hrow => by simpa using (List.mem_filter.mp hrow).2
  have hcandidates : candidatesOf unicode trimmed = rows.filter (· ≠ trimmed) := by
    rw [candidatesOf, hrows, List.filter_filter]
    exact List.filter_congr fun row _ => Bool.and_comm _ _
  by_cases hmem : trimmed ∈ rows
  · rw [hcandidates, eq_singleton_of_mem hne hall.length hmem] at hsome
    simp at hsome
  · have hkeep : rows.filter (· ≠ trimmed) = rows :=
      List.filter_eq_self.mpr fun row hrow => decide_eq_true fun heq => hmem (heq ▸ hrow)
    rw [hcandidates, hkeep]
    exact hall

end Candidates

/-! ## The recursion -/

section Recursion

variable {unicode : Unicode} {sha256Hex : String → String} {policy : DecomposePolicy}

/-- What a segment is: a cleaned text, not deeper than the policy allows. -/
structure IsSegment (policy : DecomposePolicy) (segment : Segment) : Prop where
  cleaned : cleanText segment.text 1000 = segment.text
  nonempty : segment.text ≠ ""
  depth : segment.depth ≤ policy.maxDepth

/-- **The segments of a text have its runs, in order.** -/
theorem runs_recursiveDecompose {text : String} (depth : ℕ) (parent : Option String)
    (h : text.toList.length ≤ 600) :
    (recursiveDecompose unicode sha256Hex policy text depth parent).flatMap (runs unicode ·.text) =
      runs unicode text := by
  have htrimmed : runs unicode (cleanText text 1200) = runs unicode text := runs_cleanText (by omega)
  have hlength := (length_cleanText_le text 1200).trans h
  have hleaf : [(⟨cleanText text 1200, depth, parent⟩ : Segment)].flatMap (runs unicode ·.text) =
      runs unicode text := (List.flatMap_singleton _ _).trans htrimmed
  fun_induction recursiveDecompose unicode sha256Hex policy text depth parent with
  | case1 text depth parent trimmed hempty =>
    have hclean : cleanText text 1200 = "" := hempty
    rw [← htrimmed, hclean, runs_empty]
    rfl
  | case2 => exact hleaf
  | case3 => exact hleaf
  | case4 => exact hleaf
  | case5 text depth parent trimmed hne hdeep candidates hsome currentId out hout ih =>
    have hcut := cutFrom_candidatesOf hlength hsome
    rw [List.flatMap_assoc, ← htrimmed, ← hcut.runs]
    refine List.flatMap_congr fun candidate hcandidate => ?_
    have hshort := (length_le_totalLength hcandidate).trans (hcut.length.trans hlength)
    exact ih candidate hshort (runs_cleanText (by omega)) ((length_cleanText_le _ _).trans hshort)
      ((List.flatMap_singleton _ _).trans (runs_cleanText (by omega)))

theorem isSegment_recursiveDecompose {text : String} {depth : ℕ} {parent : Option String}
    (h : text.toList.length ≤ 600) (hdepth : depth ≤ policy.maxDepth) :
    ∀ segment ∈ recursiveDecompose unicode sha256Hex policy text depth parent, IsSegment policy segment := by
  have hleaf (hne : cleanText text 1200 ≠ "") :
      ∀ segment ∈ [(⟨cleanText text 1200, depth, parent⟩ : Segment)], IsSegment policy segment := by
    intro segment hsegment
    obtain rfl := List.mem_singleton.mp hsegment
    exact ⟨cleanText_cleanText (by omega) (by omega), hne, hdepth⟩
  fun_induction recursiveDecompose unicode sha256Hex policy text depth parent with
  | case1 => exact nofun
  | case2 text depth parent trimmed hne => exact hleaf hne
  | case3 text depth parent trimmed hne => exact hleaf hne
  | case4 text depth parent trimmed hne => exact hleaf hne
  | case5 text depth parent trimmed hne hdeep candidates hsome currentId out hout ih =>
    have hcut := cutFrom_candidatesOf ((length_cleanText_le text 1200).trans h) hsome
    intro segment hsegment
    obtain ⟨candidate, hcandidate, hmem⟩ := List.mem_flatMap.mp hsegment
    have hshort := (length_le_totalLength hcandidate).trans (hcut.length.trans (length_cleanText_le text 1200))
    have hless : depth + 1 ≤ policy.maxDepth := by omega
    refine ih candidate (hshort.trans h) hless (fun hne segment hsegment => ?_) segment hmem
    obtain rfl := List.mem_singleton.mp hsegment
    exact ⟨cleanText_cleanText (by omega) (by omega), hne, hless⟩

end Recursion

end Protheus.Decompose
