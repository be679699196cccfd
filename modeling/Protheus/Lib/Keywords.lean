import Protheus.Lib.Words

/-!
Texts cut at keywords, as a regex `\b(?:w₁|w₂|…)\b` cuts them.

A keyword is found where a boundary of words is, its letters follow, and there is a boundary
after them; of the keywords that fit the first one is taken.  `pieces` is what stands between
the keywords found.  Where letters are word characters, the words of a text are those of its
pieces and those of the keywords (`words_pieces`).
-/

namespace Protheus.Keywords

open Words

variable {α : Type*} (isWord : α → Bool) (same : α → α → Bool) (keywords : List (List α))

/-- `\b` between two characters, or at an end of the text. -/
def boundary (prev next : Option α) : Bool := prev.any isWord != next.any isWord

/-- A text starts with a keyword, letter by letter. -/
def fits : List α → List α → Bool
  | [], _ => true
  | _ :: _, [] => false
  | k :: keyword, c :: text => same k c && fits keyword text

/-- A keyword that is found at the start of a text. -/
def found? (prev : Option α) (text : List α) : Option (List α) :=
  if boundary isWord prev text.head? then
    keywords.find? fun keyword => fits same keyword text &&
      boundary isWord (text.take keyword.length).getLast? (text.drop keyword.length).head?
  else none

/-- What stands between the keywords of a text.  The number counts what is left of a keyword. -/
def pieces : ℕ → Option α → List α → List (List α)
  | _, _, [] => [[]]
  | left + 1, _, c :: rest => pieces left (some c) rest
  | 0, prev, c :: rest =>
    match found? isWord same keywords prev (c :: rest) with
    | some (_ :: keyword) => [] :: pieces keyword.length (some c) rest
    | _ => (pieces 0 (some c) rest).modifyHead (c :: ·)

/-- A keyword is found somewhere in a text. -/
def isMatch : Option α → List α → Bool
  | _, [] => false
  | prev, c :: rest => (found? isWord same keywords prev (c :: rest)).isSome || isMatch (some c) rest

variable {isWord same keywords}

theorem fits_length {keyword text : List α} (h : fits same keyword text = true) :
    keyword.length ≤ text.length := by
  fun_induction fits same keyword text with
  | case1 text => exact Nat.zero_le _
  | case2 => cases h
  | case3 k keyword c text ih =>
    rw [Bool.and_eq_true] at h
    simpa using ih h.2

theorem fits_take {keyword text : List α} (h : fits same keyword text = true) :
    fits same keyword (text.take keyword.length) = true := by
  fun_induction fits same keyword text with
  | case1 text => rfl
  | case2 => cases h
  | case3 k keyword c text ih =>
    rw [Bool.and_eq_true] at h
    rw [List.length_cons, List.take_succ_cons, fits, h.1, ih h.2]
    rfl

/-- What is as long as a keyword and fits it is the keyword letter by letter. -/
theorem fits_iff_forall₂ {keyword text : List α} (h : text.length = keyword.length) :
    fits same keyword text = true ↔ List.Forall₂ (fun k c => same k c = true) keyword text := by
  fun_induction fits same keyword text with
  | case1 text =>
    obtain rfl := List.length_eq_zero_iff.mp h
    simp
  | case2 => cases h
  | case3 k keyword c text ih =>
    rw [Bool.and_eq_true, ih (Nat.succ.inj h), List.forall₂_cons]

theorem found?_eq_some {prev : Option α} {text keyword : List α}
    (h : found? isWord same keywords prev text = some keyword) :
    keyword ∈ keywords ∧ fits same keyword text = true ∧ boundary isWord prev text.head? = true ∧
      boundary isWord (text.take keyword.length).getLast? (text.drop keyword.length).head? = true := by
  unfold found? at h
  split at h
  · rename_i hbefore
    have hfits := List.find?_some h
    rw [Bool.and_eq_true] at hfits
    exact ⟨List.mem_of_find?_eq_some h, hfits.1, hbefore, hfits.2⟩
  · cases h

/-- The rest of a keyword is left out. -/
theorem pieces_of_left {left : ℕ} {prev : Option α} {text : List α} (h : left ≤ text.length) :
    pieces isWord same keywords left prev text =
      pieces isWord same keywords 0 ((text.take left).getLast?.or prev) (text.drop left) := by
  induction left generalizing prev text with
  | zero => rfl
  | succ left ih =>
    cases text with
    | nil => cases h
    | cons c rest =>
      rw [pieces, ih (Nat.le_of_succ_le_succ h), List.take_succ_cons, List.drop_succ_cons, List.getLast?_cons]
      cases (rest.take left).getLast? <;> rfl

theorem pieces_ne_nil (left : ℕ) (prev : Option α) (text : List α) :
    pieces isWord same keywords left prev text ≠ [] := by
  fun_induction pieces isWord same keywords left prev text with
  | case1 => exact nofun
  | case2 left prev c rest ih => exact ih
  | case3 => exact nofun
  | case4 prev c rest h ih =>
    cases hpieces : pieces isWord same keywords 0 (some c) rest with
    | nil => exact absurd hpieces ih
    | cons first more => exact nofun

/-- The pieces are no longer than the text. -/
theorem sum_length_pieces_le (left : ℕ) (prev : Option α) (text : List α) :
    ((pieces isWord same keywords left prev text).map List.length).sum ≤ text.length := by
  fun_induction pieces isWord same keywords left prev text with
  | case1 => exact Nat.le_refl _
  | case2 left prev c rest ih => exact ih.trans (Nat.le_succ _)
  | case3 prev c rest k keyword h ih =>
    rw [List.map_cons, List.sum_cons, List.length_nil, Nat.zero_add]
    exact ih.trans (Nat.le_succ _)
  | case4 prev c rest h ih =>
    cases hpieces : pieces isWord same keywords 0 (some c) rest with
    | nil => exact absurd hpieces (pieces_ne_nil _ _ _)
    | cons first more =>
      rw [hpieces, List.map_cons, List.sum_cons] at ih
      rw [List.modifyHead_cons, List.map_cons, List.sum_cons, List.length_cons, List.length_cons]
      omega

/-! ## Words -/

/-- What makes the keywords whole words: they are not empty, and what they fit starts and ends
with a word character. -/
structure Whole (isWord : α → Bool) (same : α → α → Bool) (keywords : List (List α)) : Prop where
  nonempty : ∀ keyword ∈ keywords, keyword ≠ []
  ends : ∀ keyword ∈ keywords, ∀ text, text.length = keyword.length → fits same keyword text = true →
    text.head?.any isWord = true ∧ text.getLast?.any isWord = true

/-- **A text has no keyword, or it is cut at its first one.** -/
theorem pieces_cases (whole : Whole isWord same keywords) (prev : Option α) (text : List α) :
    pieces isWord same keywords 0 prev text = [text] ∨
      ∃ before matched after, text = before ++ (matched ++ after) ∧
        (∃ keyword ∈ keywords, matched.length = keyword.length ∧ fits same keyword matched = true) ∧
        (before.getLast?.or prev).any isWord = false ∧ after.head?.any isWord = false ∧
        pieces isWord same keywords 0 prev text =
          before :: pieces isWord same keywords 0 matched.getLast? after := by
  induction text generalizing prev with
  | nil => exact .inl rfl
  | cons c rest ih =>
    cases hfound : found? isWord same keywords prev (c :: rest) with
    | none =>
      have hpieces : pieces isWord same keywords 0 prev (c :: rest) =
          (pieces isWord same keywords 0 (some c) rest).modifyHead (c :: ·) := by rw [pieces, hfound]
      rw [hpieces]
      rcases ih (some c) with hnone | ⟨before, matched, after, rfl, hkeyword, hbefore, hafter, hcut⟩
      · exact .inl (by rw [hnone, List.modifyHead_cons])
      · refine .inr ⟨c :: before, matched, after, rfl, hkeyword, ?_, hafter, by rw [hcut, List.modifyHead_cons]⟩
        rw [List.getLast?_cons]
        cases hlast : before.getLast? with
        | none =>
          rw [hlast] at hbefore
          exact hbefore
        | some d =>
          rw [hlast] at hbefore
          exact hbefore
    | some keyword =>
      obtain ⟨hmem, hfits, hopen, hclose⟩ := found?_eq_some hfound
      obtain ⟨k, keyword, rfl⟩ := List.exists_cons_of_ne_nil (whole.nonempty _ hmem)
      have hlength := fits_length hfits
      have hmatched : ((c :: rest).take (k :: keyword).length).length = (k :: keyword).length := by
        rw [List.length_take]
        exact min_eq_left hlength
      obtain ⟨hhead, hlast⟩ := whole.ends _ hmem _ hmatched (fits_take hfits)
      have hsplit := List.take_append_drop (k :: keyword).length (c :: rest)
      refine .inr ⟨[], (c :: rest).take (k :: keyword).length, (c :: rest).drop (k :: keyword).length,
        hsplit.symm, ⟨_, hmem, hmatched, fits_take hfits⟩, ?_, ?_, ?_⟩
      · rw [boundary, List.head?_cons] at hopen
        rw [List.length_cons, List.take_succ_cons, List.head?_cons] at hhead
        rw [hhead] at hopen
        simpa using hopen
      · rw [boundary, hlast] at hclose
        simpa using hclose
      · rw [pieces, hfound]
        dsimp only
        rw [pieces_of_left (Nat.le_of_succ_le_succ hlength), List.length_cons, List.take_succ_cons,
          List.drop_succ_cons, List.getLast?_cons]
        cases (rest.take keyword.length).getLast? <;> rfl

/-- **The words of a text are those of its pieces, and those of its keywords.** -/
theorem words_pieces (whole : Whole isWord same keywords) {sep : α → Bool} {keep : List α → Bool}
    (hletters : ∀ c, sep c = false → isWord c = true)
    (hkeywords : ∀ keyword ∈ keywords, ∀ matched, matched.length = keyword.length →
      fits same keyword matched = true → ∀ w ∈ words sep matched, keep w = false)
    (prev : Option α) (text : List α) :
    (pieces isWord same keywords 0 prev text).flatMap (fun piece => (words sep piece).filter keep) =
      (words sep text).filter keep := by
  have hsep {c : Option α} (h : c.any isWord = false) : ∀ d ∈ c, sep d = true := by
    rintro d rfl
    by_contra hd
    rw [Option.any_some, hletters d (by simpa using hd)] at h
    cases h
  induction hn : text.length using Nat.strong_induction_on generalizing prev text with
  | _ n ih =>
    rcases pieces_cases whole prev text with
      hnone | ⟨before, matched, after, rfl, ⟨keyword, hmem, hlength, hfits⟩, hbefore, hafter, hcut⟩
    · rw [hnone, List.flatMap_singleton]
    · have hpos := List.length_pos_iff.mpr (whole.nonempty keyword hmem)
      have hshort : after.length < n := by
        rw [← hn, List.length_append, List.length_append]
        omega
      have hempty : (words sep matched).filter keep = [] :=
        List.filter_eq_nil_iff.mpr fun w hw => by simp [hkeywords keyword hmem matched hlength hfits w hw]
      have hlast : ∀ c ∈ before.getLast?, sep c = true := by
        intro c hc
        rw [Option.mem_def.mp hc] at hbefore
        exact hsep hbefore c rfl
      rw [hcut, List.flatMap_cons, ih after.length hshort _ after rfl, words_append_of_last hlast,
        words_append_of_head (hsep hafter), List.filter_append, List.filter_append, hempty, List.nil_append]

end Protheus.Keywords
