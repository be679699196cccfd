import Mathlib.Data.List.Basic
import Protheus.Lib.Keywords

/-!
Regular expressions with word boundaries, and whether a text has a match.

`Matches` says what an expression matches from a place of a text to a later one, `ends` finds
all the ends (`mem_ends_iff`), and `isMatch` looks for a start.  A match depends on nothing
that stands more than one character beyond it, and there only on whether that is a word
character: a text keeps its matches when it is continued by a character that is none
(`isMatch_append`).
-/

namespace Protheus

/-- A regular expression. -/
inductive RegExp (α : Type*) where
  | empty
  /-- A character of a class. -/
  | one (p : α → Bool)
  /-- `\b`. -/
  | boundary
  | seq (a b : RegExp α)
  | alt (a b : RegExp α)
  /-- As often as it likes. -/
  | star (a : RegExp α)

namespace RegExp

variable {α : Type*}

/-! ## Compound expressions -/

/-- One after the other. -/
def chain (parts : List (RegExp α)) : RegExp α := parts.foldr seq empty

/-- One of several, of which there is a first. -/
def oneOf (first : RegExp α) (rest : List (RegExp α)) : RegExp α := rest.foldl alt first

/-- At least once. -/
def plus (a : RegExp α) : RegExp α := seq a (star a)

/-- Once or not at all. -/
def opt (a : RegExp α) : RegExp α := alt a empty

/-- `\b(?:…|…)\b`. -/
def whole (first : RegExp α) (rest : List (RegExp α)) : RegExp α :=
  chain [boundary, oneOf first rest, boundary]

/-! ## What is matched -/

/-- A place in a text: the character before it, and what follows. -/
abbrev Place (α : Type*) := Option α × List α

/-- An expression matches from one place to another. -/
inductive Matches (isWord : α → Bool) : RegExp α → Place α → Place α → Prop where
  | empty (place : Place α) : Matches isWord empty place place
  | one {p : α → Bool} {c : α} (prev : Option α) (rest : List α) (hp : p c = true) :
      Matches isWord (one p) (prev, c :: rest) (some c, rest)
  | boundary (prev : Option α) (rest : List α)
      (hbound : Keywords.boundary isWord prev rest.head? = true) :
      Matches isWord boundary (prev, rest) (prev, rest)
  | seq {a b : RegExp α} {start middle stop : Place α} (hfirst : Matches isWord a start middle)
      (hsecond : Matches isWord b middle stop) : Matches isWord (seq a b) start stop
  | left {a b : RegExp α} {start stop : Place α} (h : Matches isWord a start stop) :
      Matches isWord (alt a b) start stop
  | right {a b : RegExp α} {start stop : Place α} (h : Matches isWord b start stop) :
      Matches isWord (alt a b) start stop
  | done (a : RegExp α) (place : Place α) : Matches isWord (star a) place place
  | more {a : RegExp α} {start middle stop : Place α} (honce : Matches isWord a start middle)
      (hrest : Matches isWord (star a) middle stop) : Matches isWord (star a) start stop

/-- The places that are reached step by step, each step nearer to the end of the text. -/
def closure (next : Place α → List (Place α)) : ℕ → Place α → List (Place α)
  | 0, place => [place]
  | left + 1, place =>
    place :: ((next place).filter fun later => later.2.length < place.2.length).flatMap (closure next left)

/-- Where the matches that start at a place end. -/
def ends (isWord : α → Bool) : RegExp α → Place α → List (Place α)
  | empty, place => [place]
  | one _, (_, []) => []
  | one p, (_, c :: rest) => if p c then [(some c, rest)] else []
  | boundary, place => if Keywords.boundary isWord place.1 place.2.head? then [place] else []
  | seq a b, place => (ends isWord a place).flatMap (ends isWord b)
  | alt a b, place => ends isWord a place ++ ends isWord b place
  | star a, place => closure (ends isWord a) place.2.length place

/-- `RegExp::is_match` from a place on. -/
def isMatchFrom (isWord : α → Bool) (r : RegExp α) : Option α → List α → Bool
  | prev, [] => !(ends isWord r (prev, [])).isEmpty
  | prev, c :: rest => !(ends isWord r (prev, c :: rest)).isEmpty || isMatchFrom isWord r (some c) rest

/-- `RegExp::is_match`. -/
def isMatch (isWord : α → Bool) (r : RegExp α) (text : List α) : Bool := isMatchFrom isWord r none text

variable {isWord : α → Bool} {r a : RegExp α} {start stop : Place α}

/-- A match goes on in the text. -/
theorem Matches.suffix (h : Matches isWord r start stop) : stop.2 <:+ start.2 := by
  induction h with
  | empty => exact List.suffix_rfl
  | one => exact List.suffix_cons _ _
  | boundary => exact List.suffix_rfl
  | seq _ _ ihfirst ihsecond => exact ihsecond.trans ihfirst
  | left _ ih => exact ih
  | right _ ih => exact ih
  | done => exact List.suffix_rfl
  | more _ _ ihonce ihrest => exact ihrest.trans ihonce

/-- A match that goes on nowhere ends where it starts. -/
theorem Matches.eq_of_length (h : Matches isWord r start stop) (hlength : stop.2.length = start.2.length) :
    stop = start := by
  have hbetween {start middle stop : Place α} {a b : RegExp α} (hfirst : Matches isWord a start middle)
      (hsecond : Matches isWord b middle stop) (hlength : stop.2.length = start.2.length) :
      middle.2.length = start.2.length ∧ stop.2.length = middle.2.length := by
    have := hfirst.suffix.length_le
    have := hsecond.suffix.length_le
    omega
  induction h with
  | empty => rfl
  | one prev rest => exact absurd hlength (Nat.ne_of_lt (Nat.lt_succ_self rest.length))
  | boundary => rfl
  | seq hfirst hsecond ihfirst ihsecond =>
    obtain ⟨h1, h2⟩ := hbetween hfirst hsecond hlength
    exact (ihsecond h2).trans (ihfirst h1)
  | left _ ih => exact ih hlength
  | right _ ih => exact ih hlength
  | done => rfl
  | more honce hrest ihonce ihrest =>
    obtain ⟨h1, h2⟩ := hbetween honce hrest hlength
    exact (ihrest h2).trans (ihonce h1)

/-! ## Finding the ends -/

theorem matches_of_mem_closure {next : Place α → List (Place α)}
    (hnext : ∀ start stop, stop ∈ next start → Matches isWord a start stop) {left : ℕ}
    (h : stop ∈ closure next left start) : Matches isWord (star a) start stop := by
  induction left generalizing start with
  | zero =>
    obtain rfl := List.mem_singleton.mp h
    exact .done _ _
  | succ left ih =>
    rcases List.mem_cons.mp h with rfl | hmem
    · exact .done _ _
    · obtain ⟨middle, hmiddle, hstop⟩ := List.mem_flatMap.mp hmem
      exact .more (hnext _ _ (List.mem_filter.mp hmiddle).1) (ih hstop)

theorem mem_closure_of_matches {next : Place α → List (Place α)}
    (hnext : ∀ start stop, Matches isWord a start stop → stop ∈ next start)
    (h : Matches isWord (star a) start stop) {left : ℕ} (hleft : start.2.length ≤ left) :
    stop ∈ closure next left start := by
  generalize hr : star a = r at h
  induction h generalizing left with
  | empty | one | boundary | seq | left | right => cases hr
  | done => cases left <;> exact .head _
  | @more a start middle stop honce hrest ihonce ihrest =>
    cases hr
    rcases Nat.lt_or_ge middle.2.length start.2.length with hlt | hge
    · cases left with
      | zero => omega
      | succ left =>
        refine .tail _ (List.mem_flatMap.mpr ⟨middle, List.mem_filter.mpr ⟨hnext _ _ honce, ?_⟩, ?_⟩)
        · exact decide_eq_true hlt
        · exact ihrest (by omega) rfl
    · obtain rfl := honce.eq_of_length (Nat.le_antisymm honce.suffix.length_le hge)
      exact ihrest hleft rfl

/-- **The ends found are the ends of the matches.** -/
theorem mem_ends_iff : stop ∈ ends isWord r start ↔ Matches isWord r start stop := by
  induction r generalizing start stop with
  | empty =>
    constructor
    · intro h
      obtain rfl := List.mem_singleton.mp h
      exact .empty _
    · rintro ⟨⟩
      exact .head _
  | one p =>
    obtain ⟨prev, text⟩ := start
    constructor
    · intro h
      cases text with
      | nil => cases h
      | cons c rest =>
        rw [ends] at h
        split at h
        · rename_i hp
          obtain rfl := List.mem_singleton.mp h
          exact .one _ _ hp
        · cases h
    · intro h
      cases h with
      | one _ _ hp =>
        rw [ends, if_pos hp]
        exact .head _
  | boundary =>
    obtain ⟨prev, text⟩ := start
    constructor
    · intro h
      rw [ends] at h
      split at h
      · rename_i hbound
        obtain rfl := List.mem_singleton.mp h
        exact .boundary _ _ hbound
      · cases h
    · intro h
      cases h with
      | boundary _ _ hbound =>
        rw [ends, if_pos hbound]
        exact .head _
  | seq a b iha ihb =>
    rw [ends, List.mem_flatMap]
    constructor
    · rintro ⟨middle, hfirst, hsecond⟩
      exact .seq (iha.mp hfirst) (ihb.mp hsecond)
    · intro h
      cases h with
      | seq hfirst hsecond => exact ⟨_, iha.mpr hfirst, ihb.mpr hsecond⟩
  | alt a b iha ihb =>
    rw [ends, List.mem_append, iha, ihb]
    constructor
    · rintro (h | h)
      · exact .left h
      · exact .right h
    · intro h
      cases h with
      | left h => exact .inl h
      | right h => exact .inr h
  | star a iha =>
    exact ⟨matches_of_mem_closure fun _ _ => iha.mp, fun h =>
      mem_closure_of_matches (fun _ _ => iha.mpr) h (Nat.le_refl _)⟩

/-! ## Texts that go on -/

/-- A match stays when the text is continued by no word character. -/
theorem Matches.append (h : Matches isWord r start stop) {more : List α}
    (hmore : ∀ c ∈ more.head?, isWord c = false) :
    Matches isWord r (start.1, start.2 ++ more) (stop.1, stop.2 ++ more) := by
  induction h with
  | empty => exact .empty _
  | one prev rest hp => exact .one _ _ hp
  | boundary prev rest hbound =>
    refine .boundary _ _ ?_
    cases rest with
    | nil =>
      rw [List.nil_append]
      cases more with
      | nil => exact hbound
      | cons c more =>
        rw [Keywords.boundary, List.head?_cons, Option.any_some, hmore c rfl]
        exact hbound
    | cons c rest => exact hbound
  | seq _ _ ihfirst ihsecond => exact .seq ihfirst ihsecond
  | left _ ih => exact .left ih
  | right _ ih => exact .right ih
  | done => exact .done _ _
  | more _ _ ihonce ihrest => exact .more ihonce ihrest

/-- **A text has a match if and only if something is matched from one of its places.** -/
theorem isMatchFrom_iff {prev : Option α} {text : List α} : isMatchFrom isWord r prev text = true ↔
    ∃ before after stop, text = before ++ after ∧ Matches isWord r (before.getLast?.or prev, after) stop := by
  have hends (start : Place α) : (!(ends isWord r start).isEmpty) = true ↔ ∃ stop, Matches isWord r start stop := by
    rw [Bool.not_eq_true', List.isEmpty_eq_false_iff_exists_mem]
    exact exists_congr fun stop => mem_ends_iff
  induction text generalizing prev with
  | nil =>
    rw [isMatchFrom, hends]
    constructor
    · rintro ⟨stop, h⟩
      exact ⟨[], [], stop, rfl, h⟩
    · rintro ⟨before, after, stop, htext, h⟩
      obtain ⟨rfl, rfl⟩ := List.nil_eq_append_iff.mp htext
      exact ⟨stop, h⟩
  | cons c rest ih =>
    rw [isMatchFrom, Bool.or_eq_true, hends]
    constructor
    · rintro (⟨stop, h⟩ | hrest)
      · exact ⟨[], c :: rest, stop, rfl, h⟩
      · obtain ⟨before, after, stop, rfl, h⟩ := ih.mp hrest
        refine ⟨c :: before, after, stop, rfl, ?_⟩
        rw [List.getLast?_cons]
        cases hlast : before.getLast? <;> simpa [hlast] using h
    · rintro ⟨before, after, stop, htext, h⟩
      cases before with
      | nil =>
        obtain rfl : c :: rest = after := htext
        exact .inl ⟨stop, h⟩
      | cons d before =>
        obtain ⟨rfl, rfl⟩ := List.cons.inj htext
        refine .inr (ih.mpr ⟨before, after, stop, rfl, ?_⟩)
        rw [List.getLast?_cons] at h
        cases hlast : before.getLast? <;> simpa [hlast] using h

/-- **A text keeps its matches when it is continued by no word character.** -/
theorem isMatch_append {text more : List α} (hmore : ∀ c ∈ more.head?, isWord c = false)
    (h : isMatch isWord r text = true) : isMatch isWord r (text ++ more) = true := by
  obtain ⟨before, after, stop, rfl, hmatch⟩ := isMatchFrom_iff.mp h
  exact isMatchFrom_iff.mpr ⟨before, after ++ more, _, List.append_assoc _ _ _, hmatch.append hmore⟩

end RegExp

end Protheus
