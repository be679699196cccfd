import Mathlib.Data.List.Basic
import Mathlib.Data.List.TakeWhile

/-!
Scanning a text for a marker with a run behind it.

The scanner stops at the first marker whose run is long enough.  It goes on behind the run of
one that is too short, so that it never looks at a marker which starts in between (`Skipped`).
It finds what there is that is not skipped (`scan_iff`).  Nothing that counts is skipped where
the marker is itself made of the characters of a run (`not_skipped_of_forall`); where it only begins with such
characters, a marker is skipped behind a text that ends in too short a run (`Overlooked`).
-/

namespace Protheus.Scan

variable {α : Type*} (marker : List α) (token : α → Bool) (minLen : ℕ)

/-- The rounds of a scan; `none` where it has not come to an end. -/
def scan [DecidableEq α] : ℕ → List α → Option Bool
  | 0, _ => none
  | rounds + 1, rest =>
    if rest.length < marker.length then some false
    else if rest.take marker.length ≠ marker then scan rounds (rest.drop 1)
    else
      let run := (rest.drop marker.length).takeWhile token
      if minLen ≤ run.length then some true
      else scan rounds (rest.drop (marker.length + run.length))

variable (text : List α)

/-- The marker stands at a position. -/
def At (i : ℕ) : Prop := ∀ k < marker.length, text[i + k]? = marker[k]?

/-- The run behind a marker at a position. -/
def run (i : ℕ) : List α := (text.drop (i + marker.length)).takeWhile token

/-- Where the run behind a marker at a position ends. -/
def cursor (i : ℕ) : ℕ := i + marker.length + (run marker token text i).length

/-- A scan goes past a position: it starts behind a marker with too short a run, and before
that run ends. -/
def Skipped (j : ℕ) : Prop :=
  ∃ i : Fin j, At marker text i ∧ (run marker token text i).length < minLen ∧
    j < cursor marker token text i ∧ ¬Skipped i
termination_by j
decreasing_by exact i.2

/-- There is a marker with a run that is long enough. -/
def Found (i : ℕ) : Prop := At marker text i ∧ minLen ≤ (run marker token text i).length

section Lists

/-- A run takes in whatever is of its kind. -/
theorem le_length_takeWhile {token : α → Bool} : ∀ {n : ℕ} {l : List α},
    (∀ k < n, ∃ c, l[k]? = some c ∧ token c = true) → n ≤ (l.takeWhile token).length
  | 0, _, _ => Nat.zero_le _
  | n + 1, [], h => by
    obtain ⟨c, hc, -⟩ := h 0 (Nat.succ_pos n)
    simp at hc
  | n + 1, c :: l, h => by
    obtain ⟨d, hd, htoken⟩ := h 0 (Nat.succ_pos n)
    have hcd : c = d := by simpa using hd
    have hrest := @le_length_takeWhile token n l fun k hk => by
      have hnext := h (k + 1) (Nat.succ_lt_succ hk)
      rwa [List.getElem?_cons_succ] at hnext
    rw [List.takeWhile_cons_of_pos (hcd ▸ htoken), List.length_cons]
    exact Nat.succ_le_succ hrest

/-- A run is of its kind. -/
theorem getElem?_of_lt_length_takeWhile {token : α → Bool} : ∀ {k : ℕ} {l : List α},
    k < (l.takeWhile token).length → ∃ c, l[k]? = some c ∧ token c = true
  | _, [], h => by simp at h
  | k, c :: l, h => by
    by_cases htoken : token c = true
    · rw [List.takeWhile_cons_of_pos htoken, List.length_cons] at h
      cases k with
      | zero => exact ⟨c, rfl, htoken⟩
      | succ k => exact @getElem?_of_lt_length_takeWhile token k l (by omega)
    · rw [List.takeWhile_cons_of_neg htoken] at h
      simp at h

/-- No run goes on where it ended. -/
theorem takeWhile_drop_length {token : α → Bool} {l : List α} :
    (l.drop (l.takeWhile token).length).takeWhile token = [] := by
  rw [← List.length_eq_zero_iff]
  by_contra hne
  obtain ⟨c, hc, htoken⟩ := getElem?_of_lt_length_takeWhile (Nat.pos_of_ne_zero hne)
  rw [List.getElem?_drop, Nat.add_zero] at hc
  have hle := @le_length_takeWhile _ token ((l.takeWhile token).length + 1) l fun k hk => by
    obtain hlt | rfl := Nat.lt_or_eq_of_le (Nat.le_of_lt_succ hk)
    · exact getElem?_of_lt_length_takeWhile hlt
    · exact ⟨c, hc, htoken⟩
  omega

end Lists

section Positions

variable {marker token minLen text}

theorem at_iff {i : ℕ} (hmarker : marker ≠ []) :
    At marker text i ↔ marker.length ≤ (text.drop i).length ∧ (text.drop i).take marker.length = marker := by
  constructor
  · intro h
    have hle : marker.length ≤ (text.drop i).length := by
      have hpos := List.length_pos_iff.mpr hmarker
      have hlast : text[i + (marker.length - 1)]? = some marker[marker.length - 1] := by
        rw [h (marker.length - 1) (by omega)]
        exact List.getElem?_eq_getElem (by omega)
      obtain ⟨hlt, -⟩ := List.getElem?_eq_some_iff.mp hlast
      rw [List.length_drop]
      omega
    refine ⟨hle, List.ext_getElem? fun k => ?_⟩
    by_cases hk : k < marker.length
    · rw [List.getElem?_take_of_lt hk, List.getElem?_drop, h k hk]
    · rw [List.getElem?_eq_none (by rw [List.length_take]; omega), List.getElem?_eq_none (by omega)]
  · rintro ⟨-, h⟩ k hk
    rw [← List.getElem?_drop, ← List.getElem?_take_of_lt hk, h]

/-- The characters of a run. -/
theorem token_of_lt_cursor {i p : ℕ} (h : i + marker.length ≤ p) (hp : p < cursor marker token text i) :
    ∃ c, text[p]? = some c ∧ token c = true := by
  have hlt : p - (i + marker.length) < (run marker token text i).length := by
    unfold cursor at hp
    omega
  obtain ⟨c, hc, htoken⟩ := getElem?_of_lt_length_takeWhile hlt
  rw [List.getElem?_drop, Nat.add_sub_of_le h] at hc
  exact ⟨c, hc, htoken⟩

/-- A run goes on to the first character that is not of its kind. -/
theorem le_cursor {i n : ℕ} (h : i + marker.length ≤ n)
    (htoken : ∀ p, i + marker.length ≤ p → p < n → ∃ c, text[p]? = some c ∧ token c = true) :
    n ≤ cursor marker token text i := by
  have hle : n - (i + marker.length) ≤ (run marker token text i).length := by
    refine le_length_takeWhile fun k hk => ?_
    rw [List.getElem?_drop]
    exact htoken _ (Nat.le_add_right _ _) (by omega)
  unfold cursor
  omega

theorem skipped_iff {j : ℕ} : Skipped marker token minLen text j ↔
    ∃ i < j, At marker text i ∧ (run marker token text i).length < minLen ∧
      j < cursor marker token text i ∧ ¬Skipped marker token minLen text i := by
  rw [Skipped]
  constructor
  · rintro ⟨i, h⟩
    exact ⟨i, i.2, h⟩
  · rintro ⟨i, hi, h⟩
    exact ⟨⟨i, hi⟩, h⟩

end Positions

/-! ## The scanner -/

section Scanner

variable {marker token minLen text}

/-- Where the scanner stands: every marker before that it has looked at has too short a run,
which ends before. -/
def Clear (marker : List α) (token : α → Bool) (minLen : ℕ) (text : List α) (i : ℕ) : Prop :=
  ∀ j < i, At marker text j → ¬Skipped marker token minLen text j →
    (run marker token text j).length < minLen ∧ cursor marker token text j ≤ i

theorem Clear.not_skipped {i : ℕ} (h : Clear marker token minLen text i) :
    ¬Skipped marker token minLen text i := by
  rw [skipped_iff]
  rintro ⟨j, hj, hat, -, hcursor, hseen⟩
  exact absurd (h j hj hat hseen).2 (by omega)

theorem Clear.succ {i : ℕ} (h : Clear marker token minLen text i) (hat : ¬At marker text i) :
    Clear marker token minLen text (i + 1) := by
  intro j hj hatj hseen
  obtain rfl | hlt := Nat.eq_or_lt_of_le (Nat.le_of_lt_succ hj)
  · exact absurd hatj hat
  · obtain ⟨hshort, hcursor⟩ := h j hlt hatj hseen
    exact ⟨hshort, by omega⟩

theorem Clear.jump {i : ℕ} (h : Clear marker token minLen text i) (hat : At marker text i)
    (hshort : (run marker token text i).length < minLen) :
    Clear marker token minLen text (cursor marker token text i) := by
  intro j hj hatj hseen
  obtain hlt | rfl | hgt := Nat.lt_trichotomy j i
  · obtain ⟨hshortj, hcursor⟩ := h j hlt hatj hseen
    have hle : i ≤ cursor marker token text i := by
      unfold cursor
      omega
    exact ⟨hshortj, hcursor.trans hle⟩
  · exact ⟨hshort, Nat.le_refl _⟩
  · exact absurd (skipped_iff.mpr ⟨i, hgt, hat, hshort, hj, h.not_skipped⟩) hseen

variable [DecidableEq α]

/-- A scan from a clear position ends, with what there is that is not skipped. -/
theorem scan_spec (hmarker : marker ≠ []) : ∀ {rounds i : ℕ}, text.length < i + rounds →
    i ≤ text.length → Clear marker token minLen text i →
    ∃ found, scan marker token minLen rounds (text.drop i) = some found ∧
      (found = true ↔ ∃ j, Found marker token minLen text j ∧
        ¬Skipped marker token minLen text j) := by
  intro rounds
  induction rounds with
  | zero =>
    intro i hrounds hle
    omega
  | succ rounds ih =>
    intro i hrounds hle hclear
    have hpos := List.length_pos_iff.mpr hmarker
    rw [scan]
    by_cases hend : (text.drop i).length < marker.length
    · refine ⟨false, if_pos hend, by simp, ?_⟩
      rintro ⟨j, ⟨hat, hlong⟩, hseen⟩
      obtain hlt | hge := Nat.lt_or_ge j i
      · exact absurd (hclear j hlt hat hseen).1 hlong.not_gt
      · have hroom := ((at_iff hmarker).mp hat).1
        rw [List.length_drop] at hend hroom
        omega
    rw [if_neg hend]
    rw [List.length_drop] at hend
    by_cases hmatch : (text.drop i).take marker.length = marker
    · have hat : At marker text i := by
        rw [at_iff hmarker, List.length_drop]
        exact ⟨by omega, hmatch⟩
      have hrun : ((text.drop i).drop marker.length).takeWhile token = run marker token text i := by
        rw [List.drop_drop]
        rfl
      rw [if_neg (not_not_intro hmatch), hrun]
      by_cases hlong : minLen ≤ (run marker token text i).length
      · exact ⟨true, if_pos hlong, fun _ => ⟨i, ⟨hat, hlong⟩, hclear.not_skipped⟩, fun _ => rfl⟩
      · have hcursor : i + (marker.length + (run marker token text i).length) =
            cursor marker token text i := by
          rw [cursor, Nat.add_assoc]
        have hroom : (run marker token text i).length ≤ (text.drop (i + marker.length)).length :=
          (List.takeWhile_prefix _).length_le
        rw [List.length_drop] at hroom
        dsimp only
        rw [if_neg hlong, List.drop_drop, hcursor]
        exact ih (by omega) (by omega) (hclear.jump hat (Nat.lt_of_not_le hlong))
    · rw [if_pos hmatch, List.drop_drop]
      exact ih (by omega) (by omega) (hclear.succ fun hat => hmatch ((at_iff hmarker).mp hat).2)

/-- A scan that has ended has ended. -/
theorem scan_of_le {found : Bool} : ∀ {rounds rounds' : ℕ} {text : List α},
    scan marker token minLen rounds text = some found → rounds ≤ rounds' →
    scan marker token minLen rounds' text = some found
  | 0, _, _, h, _ => by cases h
  | rounds + 1, 0, _, _, hle => absurd hle (Nat.not_succ_le_zero rounds)
  | rounds + 1, rounds' + 1, text, h, hle => by
    have hrest : rounds ≤ rounds' := Nat.le_of_succ_le_succ hle
    rw [scan] at h ⊢
    split
    case isTrue hend => rwa [if_pos hend] at h
    case isFalse hend =>
      rw [if_neg hend] at h
      split
      case isTrue hmatch =>
        rw [if_pos hmatch] at h
        exact scan_of_le h hrest
      case isFalse hmatch =>
        rw [if_neg hmatch] at h
        dsimp only at h ⊢
        split
        case isTrue hlong => rwa [if_pos hlong] at h
        case isFalse hlong =>
          rw [if_neg hlong] at h
          exact scan_of_le h hrest

/-- **A scan finds what there is that is not skipped.** -/
theorem scan_iff (hmarker : marker ≠ []) {rounds : ℕ} (hrounds : text.length < rounds) :
    ∃ found, scan marker token minLen rounds text = some found ∧
      (found = true ↔ ∃ j, Found marker token minLen text j ∧
        ¬Skipped marker token minLen text j) := by
  have hclear : Clear marker token minLen text 0 := fun j hj => absurd hj (Nat.not_lt_zero j)
  exact scan_spec hmarker (by omega) (Nat.zero_le _) hclear

/-- A round without a marker. -/
theorem scan_nil_succ (rounds : ℕ) : scan [] token minLen (rounds + 1) text =
    if minLen ≤ (text.takeWhile token).length then some true
    else scan [] token minLen rounds (text.drop (text.takeWhile token).length) := by
  rw [scan]
  simp

/-- Without a marker a scan stands still where no run starts. -/
theorem scan_nil_eq_none (hmin : 0 < minLen) (hrun : text.takeWhile token = []) :
    ∀ rounds, scan [] token minLen rounds text = none
  | 0 => rfl
  | rounds + 1 => by
    have hshort : ¬minLen ≤ ([] : List α).length := hmin.not_ge
    rw [scan_nil_succ, hrun, if_neg hshort]
    exact scan_nil_eq_none hmin hrun rounds

/-- Without a marker a scan ends only with a run at the start of the text. -/
theorem scan_nil_iff (hmin : 0 < minLen) {found : Bool} :
    (∃ rounds, scan [] token minLen rounds text = some found) ↔
      found = true ∧ minLen ≤ (text.takeWhile token).length := by
  constructor
  · rintro ⟨rounds, h⟩
    cases rounds with
    | zero => cases h
    | succ rounds =>
      rw [scan_nil_succ] at h
      split at h
      case isTrue hlong =>
        cases h
        exact ⟨rfl, hlong⟩
      case isFalse =>
        rw [scan_nil_eq_none hmin takeWhile_drop_length] at h
        cases h
  · rintro ⟨rfl, hlong⟩
    exact ⟨1, by rw [scan_nil_succ, if_pos hlong]⟩

end Scanner

section Tokens

variable {marker token minLen text}

/-- **Nothing that counts is skipped where the marker is made of the characters of a run.** -/
theorem not_skipped_of_forall (htoken : ∀ c ∈ marker, token c = true) {j : ℕ}
    (h : Found marker token minLen text j) : ¬Skipped marker token minLen text j := by
  obtain ⟨hat, hlong⟩ := h
  rw [skipped_iff]
  rintro ⟨i, hi, hati, hshort, hcursor, -⟩
  have htokens : ∀ p, i + marker.length ≤ p → p < cursor marker token text j →
      ∃ c, text[p]? = some c ∧ token c = true := by
    intro p hp hlt
    obtain hbefore | hafter := Nat.lt_or_ge p (cursor marker token text i)
    · exact token_of_lt_cursor hp hbefore
    obtain hinside | hbehind := Nat.lt_or_ge p (j + marker.length)
    · have hk : p - j < marker.length := by omega
      have hget := hat (p - j) hk
      rw [Nat.add_sub_of_le (by omega), List.getElem?_eq_getElem hk] at hget
      exact ⟨_, hget, htoken _ (List.getElem_mem hk)⟩
    · exact token_of_lt_cursor hbehind hlt
  have hle := le_cursor (by unfold cursor; omega) htokens
  unfold cursor at hle
  omega

end Tokens

/-! ## Markers with a separator -/

section Separator

variable {marker token minLen text}

/-- A text around a marker in it. -/
theorem At.parts (hmarker : marker ≠ []) {i : ℕ} (hat : At marker text i) :
    text = text.take i ++ (marker ++ text.drop (i + marker.length)) := by
  have htake := ((at_iff hmarker).mp hat).2
  calc text = text.take i ++ text.drop i := (List.take_append_drop i text).symm
    _ = text.take i ++ ((text.drop i).take marker.length ++ (text.drop i).drop marker.length) := by
      rw [@List.take_append_drop _ marker.length (text.drop i), List.take_append_drop]
    _ = text.take i ++ (marker ++ text.drop (i + marker.length)) := by rw [htake, List.drop_drop]

theorem at_append {before after : List α} : At marker (before ++ (marker ++ after)) before.length := by
  intro k hk
  rw [List.getElem?_append_right (Nat.le_add_right _ _), Nat.add_sub_cancel_left,
    List.getElem?_append_left hk]

/-- What is found at the positions of a text, as its parts. -/
theorem exists_found_iff (hmarker : marker ≠ []) {P : List α → Prop} :
    (∃ i, Found marker token minLen text i ∧ P (text.take i)) ↔
      ∃ before run after, text = before ++ (marker ++ (run ++ after)) ∧
        (∀ c ∈ run, token c = true) ∧ minLen ≤ run.length ∧ P before := by
  constructor
  · rintro ⟨i, ⟨hat, hlong⟩, hP⟩
    refine ⟨text.take i, run marker token text i,
      (text.drop (i + marker.length)).dropWhile token, ?_, fun c hc => List.mem_takeWhile_imp hc,
      hlong, hP⟩
    rw [run, List.takeWhile_append_dropWhile]
    exact hat.parts hmarker
  · rintro ⟨before, run, after, rfl, htoken, hlong, hP⟩
    refine ⟨before.length, ⟨at_append, ?_⟩, ?_⟩
    · rw [Scan.run, ← List.drop_drop, List.drop_left, List.drop_left,
        List.takeWhile_append_of_pos htoken, List.length_append]
      exact Nat.le_add_right_of_le hlong
    · rwa [List.take_left]

/-- How much of a marker belongs to a run that it follows. -/
def wordLen (marker : List α) (token : α → Bool) : ℕ := (marker.takeWhile token).length

/-- A marker that does not overlap itself, of which a run takes in the beginning only. -/
structure Separated (marker : List α) (token : α → Bool) : Prop where
  wordLen_pos : 0 < wordLen marker token
  wordLen_lt : wordLen marker token < marker.length
  no_border : ∀ d, 0 < d → d < marker.length →
    ∃ k, k + d < marker.length ∧ marker[k + d]? ≠ marker[k]?

theorem Separated.ne_nil (h : Separated marker token) : marker ≠ [] :=
  List.length_pos_iff.mp (Nat.zero_lt_of_lt h.wordLen_lt)

/-- The character that separates a marker from a run before it. -/
theorem not_token_of_getElem?_wordLen {c : α} (hc : marker[wordLen marker token]? = some c) :
    token c = false := by
  rw [← Bool.not_eq_true]
  intro htoken
  have hle := @le_length_takeWhile _ token (wordLen marker token + 1) marker fun k hk => by
    obtain hlt | rfl := Nat.lt_or_eq_of_le (Nat.le_of_lt_succ hk)
    · exact getElem?_of_lt_length_takeWhile hlt
    · exact ⟨c, hc, htoken⟩
  unfold wordLen at hle
  omega

/-- A marker behind a run ends it. -/
theorem Separated.cursor_eq (h : Separated marker token) {i j : ℕ} (hi : At marker text i)
    (hj : At marker text j) (hlt : i < j) (hcursor : j < cursor marker token text i) :
    i + marker.length ≤ j ∧ cursor marker token text i = j + wordLen marker token := by
  have hword := h.wordLen_lt
  have hle : i + marker.length ≤ j := by
    by_contra hoverlap
    obtain ⟨k, hk, hne⟩ := h.no_border (j - i) (by omega) (by omega)
    have hleft := hi (k + (j - i)) hk
    have hright := hj k (by omega)
    have hsame : i + (k + (j - i)) = j + k := by omega
    rw [hsame] at hleft
    exact hne (hleft.symm.trans hright)
  refine ⟨hle, Nat.le_antisymm ?_ ?_⟩
  · by_contra hgt
    obtain ⟨c, hc, htoken⟩ := @token_of_lt_cursor _ marker token text i (j + wordLen marker token)
      (by omega) (by omega)
    rw [hj _ hword] at hc
    rw [not_token_of_getElem?_wordLen hc] at htoken
    cases htoken
  · refine le_cursor (by omega) fun p hp hlt => ?_
    obtain hbefore | hafter := Nat.lt_or_ge p j
    · exact token_of_lt_cursor hp (by omega)
    · obtain ⟨c, hc, htoken⟩ := @getElem?_of_lt_length_takeWhile _ token (p - j) marker (by
        unfold wordLen at hlt
        omega)
      have hget := hj (p - j) (by omega)
      rw [Nat.add_sub_of_le hafter, hc] at hget
      exact ⟨c, hget, htoken⟩

/-- A text that a scan goes past the end of: it ends in a marker that is not itself behind such
a text, and less than a run that is long enough with the beginning of another marker. -/
def Overlooked (marker : List α) (token : α → Bool) (minLen : ℕ) (before : List α) : Prop :=
  ∃ n : Fin before.length,
    (∃ word, before.drop n = marker ++ word ∧ (∀ c ∈ word, token c = true) ∧
      word.length + wordLen marker token < minLen) ∧
    ¬Overlooked marker token minLen (before.take n)
termination_by before.length
decreasing_by
  rw [List.length_take]
  exact Nat.lt_of_le_of_lt (Nat.min_le_left _ _) n.2

/-- What is skipped stands behind a text that is overlooked. -/
theorem Separated.skipped_iff (h : Separated marker token) {j : ℕ} (hat : At marker text j) :
    Skipped marker token minLen text j ↔ Overlooked marker token minLen (text.take j) := by
  induction j using Nat.strong_induction_on with
  | _ j ih =>
    have hroom := ((at_iff h.ne_nil).mp hat).1
    have hpos := List.length_pos_iff.mpr h.ne_nil
    rw [List.length_drop] at hroom
    have htake : (text.take j).length = j := by
      rw [List.length_take]
      omega
    have hinitial {i : ℕ} (hlt : i < j) : (text.take j).take i = text.take i := by
      rw [List.take_take, Nat.min_eq_left hlt.le]
    rw [Scan.skipped_iff, Overlooked]
    constructor
    · rintro ⟨i, hlt, hi, hshort, hcursor, hseen⟩
      obtain ⟨hle, hend⟩ := h.cursor_eq hi hat hlt hcursor
      have hdrop : (text.take j).drop i = marker ++ (text.take j).drop (i + marker.length) := by
        have hmarker : ((text.take j).drop i).take marker.length = marker := by
          rw [List.take_drop, List.take_take, Nat.min_eq_left hle, ← List.take_drop]
          exact ((at_iff h.ne_nil).mp hi).2
        conv_lhs => rw [← List.take_append_drop marker.length ((text.take j).drop i)]
        rw [hmarker, List.drop_drop]
      refine ⟨⟨i, by omega⟩, ⟨_, hdrop, ?_, ?_⟩, ?_⟩
      · intro c hc
        obtain ⟨k, hget⟩ := List.mem_iff_getElem?.mp hc
        obtain ⟨hk, -⟩ := List.getElem?_eq_some_iff.mp hget
        rw [List.length_drop, htake] at hk
        rw [List.getElem?_drop, List.getElem?_take_of_lt (by omega)] at hget
        obtain ⟨d, hd, htoken⟩ := @token_of_lt_cursor _ marker token text i (i + marker.length + k)
          (by omega) (by omega)
        rw [hget] at hd
        cases hd
        exact htoken
      · rw [List.length_drop, htake]
        unfold cursor at hend
        omega
      · dsimp only
        rwa [hinitial hlt, ← ih i hlt hi]
    · rintro ⟨⟨i, hlt⟩, ⟨word, hdrop, htoken, hshort⟩, hseen⟩
      rw [htake] at hlt
      dsimp only at hdrop hseen
      have hlength := congrArg List.length hdrop
      rw [List.length_drop, htake, List.length_append] at hlength
      have hget {k : ℕ} (hk : i + k < j) : text[i + k]? = (marker ++ word)[k]? := by
        rw [← hdrop, List.getElem?_drop, List.getElem?_take_of_lt hk]
      have hi : At marker text i := by
        intro k hk
        rw [hget (by omega), List.getElem?_append_left hk]
      have hcursor : j + wordLen marker token ≤ cursor marker token text i := by
        refine le_cursor (by omega) fun p hp hp' => ?_
        obtain hbefore | hafter := Nat.lt_or_ge p j
        · have hword := @hget (p - i) (by omega)
          have hk : p - i - marker.length < word.length := by omega
          rw [Nat.add_sub_of_le (by omega), List.getElem?_append_right (by omega),
            List.getElem?_eq_getElem hk] at hword
          exact ⟨_, hword, htoken _ (List.getElem_mem hk)⟩
        · obtain ⟨c, hc, hc'⟩ := @getElem?_of_lt_length_takeWhile _ token (p - j) marker (by
            unfold wordLen at hp'
            omega)
          have hmarker := hat (p - j) (by
            have := h.wordLen_lt
            omega)
          rw [Nat.add_sub_of_le hafter, hc] at hmarker
          exact ⟨c, hmarker, hc'⟩
      have hpositive := h.wordLen_pos
      obtain ⟨-, hend⟩ := h.cursor_eq hi hat hlt (by omega)
      refine ⟨i, hlt, hi, ?_, by omega, ?_⟩
      · unfold cursor at hend
        omega
      · rwa [hinitial hlt, ← ih i hlt hi] at hseen

end Separator

end Protheus.Scan
