import Protheus.RustStd

/-!
What a regular-expression engine reports of a text, and how a replacement string is
expanded.

An engine splits a text into matches, the gaps before them and a rest; a match has its
groups, the zeroth of which is the match itself.  A replacement string is read as
pieces: characters that stand for themselves, and references to groups.  Where no piece
is a reference, what replaces a match says nothing of it (`replaceAll_congr`).
-/

namespace Protheus.Replace

/-- A match: the text between the match before and this one, its own text, and its groups. -/
structure Captures where
  gap : List Char
  whole : List Char
  group : ℕ → Option (List Char)
  group_zero : group 0 = some whole

/-- A compiled expression: its matches in a text, from left to right and without overlap, what comes
after the last of them, and the groups that have a name. -/
structure Regex where
  capturesIter : List Char → List Captures × List Char
  groupIndex : String → Option ℕ
  covers : ∀ text, (capturesIter text).1.flatMap (fun found => found.gap ++ found.whole) ++
    (capturesIter text).2 = text

/-- A piece of a replacement string. -/
inductive Piece where
  | literal (c : Char)
  | number (index : ℕ)
  | named (name : String)
  deriving DecidableEq, Repr

def Piece.isLiteral : Piece → Bool
  | .literal _ => true
  | _ => false

/-- The characters of a reference that is not braced. -/
def isCapLetter (c : Char) : Bool := c.isAlphanum || c == '_'

/-- What a reference after a dollar names, and what comes after it: a braced text, or the longest word. -/
def capRef (rest : List Char) : Option (List Char × List Char) :=
  match rest with
  | '{' :: braced =>
    match braced.dropWhile (· != '}') with
    | [] => none
    | _ :: after => some (braced.takeWhile (· != '}'), after)
  | _ =>
    if rest.takeWhile isCapLetter = [] then none
    else some (rest.takeWhile isCapLetter, rest.dropWhile isCapLetter)

/-- A number refers to a group by its index, any other text by its name. -/
def refPiece (name : List Char) : Piece :=
  match RustStd.parseU64 (String.ofList name) with
  | some index => .number index.toNat
  | none => .named (String.ofList name)

/-- The pieces of a replacement string, for as many rounds as it has characters. -/
def piecesUpTo : ℕ → List Char → List Piece
  | 0, _ => []
  | _ + 1, [] => []
  | rounds + 1, c :: rest =>
    if c = '$' then
      if rest.head? = some '$' then .literal '$' :: piecesUpTo rounds rest.tail
      else
        match capRef rest with
        | none => .literal '$' :: piecesUpTo rounds rest
        | some (name, after) => refPiece name :: piecesUpTo rounds after
    else .literal c :: piecesUpTo rounds rest

def pieces (replacement : String) : List Piece :=
  piecesUpTo replacement.length replacement.toList

/-- What a piece puts in for a match; a group that is not there, or took no part, puts in nothing. -/
def Piece.expand (regex : Regex) (found : Captures) : Piece → List Char
  | .literal c => [c]
  | .number index => (found.group index).getD []
  | .named name => ((regex.groupIndex name).bind found.group).getD []

/-- What a replacement string puts in for a match. -/
def expand (regex : Regex) (replacement : String) (found : Captures) : List Char :=
  (pieces replacement).flatMap (Piece.expand regex found)

/-- `Regex::replace_all`. -/
def replaceAll (regex : Regex) (text replacement : String) : String :=
  let split := regex.capturesIter text.toList
  String.ofList
    (split.1.flatMap (fun found => found.gap ++ expand regex replacement found) ++ split.2)

/-- Two texts that are the same outside the matches, of which they have as many. -/
def SameOutside (regex : Regex) (text text' : String) : Prop :=
  (regex.capturesIter text.toList).1.map Captures.gap =
      (regex.capturesIter text'.toList).1.map Captures.gap ∧
    (regex.capturesIter text.toList).2 = (regex.capturesIter text'.toList).2

/-- The replacement string refers to no group. -/
def IsLiteral (replacement : String) : Prop := ∀ piece ∈ pieces replacement, piece.isLiteral = true

instance (replacement : String) : Decidable (IsLiteral replacement) :=
  inferInstanceAs (Decidable (∀ piece ∈ pieces replacement, piece.isLiteral = true))

section Literal

variable {regex : Regex} {replacement : String}

/-- A literal puts in the same for every match. -/
theorem expand_congr (h : IsLiteral replacement) (found found' : Captures) :
    expand regex replacement found = expand regex replacement found' := by
  refine List.flatMap_congr fun piece hpiece => ?_
  cases piece with
  | literal c => rfl
  | number index => exact absurd (h _ hpiece) Bool.false_ne_true
  | named name => exact absurd (h _ hpiece) Bool.false_ne_true

/-- **A literal replacement hides the matches.** -/
theorem replaceAll_congr (h : IsLiteral replacement) {text text' : String}
    (hsame : SameOutside regex text text') :
    replaceAll regex text replacement = replaceAll regex text' replacement := by
  obtain ⟨hgaps, hrest⟩ := hsame
  have hout (matched matched' : List Captures)
      (hgaps : matched.map Captures.gap = matched'.map Captures.gap) :
      matched.flatMap (fun found => found.gap ++ expand regex replacement found) =
        matched'.flatMap fun found => found.gap ++ expand regex replacement found := by
    induction matched generalizing matched' with
    | nil =>
      obtain rfl : matched' = [] := by simpa using hgaps.symm
      rfl
    | cons found matched ih =>
      cases matched' with
      | nil => cases hgaps
      | cons found' matched' =>
        obtain ⟨hgap, htail⟩ := List.cons.inj hgaps
        rw [List.flatMap_cons, List.flatMap_cons, hgap, expand_congr h found found', ih _ htail]
  unfold replaceAll
  dsimp only
  rw [hout _ _ hgaps, hrest]

/-- What a match puts in grows with it where its groups do. -/
theorem length_expand (found : Captures) {width : ℕ}
    (hgroup : ∀ piece ∈ pieces replacement, piece.isLiteral = false →
      (piece.expand regex found).length = width) :
    (expand regex replacement found).length =
      (pieces replacement).countP Piece.isLiteral +
        (pieces replacement).countP (fun piece => !piece.isLiteral) * width := by
  unfold expand
  generalize pieces replacement = all at hgroup
  induction all with
  | nil => simp
  | cons piece rest ih =>
    have hrest := ih fun piece hpiece => hgroup piece (List.mem_cons_of_mem _ hpiece)
    rw [List.flatMap_cons, List.length_append, hrest]
    cases hpiece : piece.isLiteral with
    | true =>
      have hone : (piece.expand regex found).length = 1 := by
        cases piece with
        | literal c => rfl
        | number index => cases hpiece
        | named name => cases hpiece
      rw [hone, List.countP_cons_of_pos hpiece, List.countP_cons_of_neg (by simp [hpiece])]
      ring
    | false =>
      rw [hgroup piece List.mem_cons_self hpiece, List.countP_cons_of_neg (by simp [hpiece]),
        List.countP_cons_of_pos (by simp [hpiece])]
      ring

end Literal

/-! ## Runs of digits -/

/-- The longest runs of digits of a text with the gaps before them, and the rest. -/
def digitRuns : List Char → List (List Char × List Char) × List Char
  | [] => ([], [])
  | c :: text =>
    match c.isDigit, digitRuns text with
    | true, (([], run) :: runs, rest) => (([], c :: run) :: runs, rest)
    | true, (runs, rest) => (([], [c]) :: runs, rest)
    | false, ((gap, run) :: runs, rest) => ((c :: gap, run) :: runs, rest)
    | false, ([], rest) => ([], c :: rest)

theorem digitRuns_covers (text : List Char) :
    (digitRuns text).1.flatMap (fun found => found.1 ++ found.2) ++ (digitRuns text).2 = text := by
  induction text with
  | nil => rfl
  | cons c text ih =>
    rw [digitRuns]
    generalize digitRuns text = found at ih
    obtain ⟨runs, rest⟩ := found
    cases c.isDigit with
    | true =>
      cases runs with
      | nil => simpa using ih
      | cons head runs =>
        obtain ⟨gap, run⟩ := head
        cases gap with
        | nil => simpa using ih
        | cons d gap => simpa using ih
    | false =>
      cases runs with
      | nil => simpa using ih
      | cons head runs => simpa using ih

/-- The expression for runs of digits within `count` groups, the first of which has a name if one is
given: `((?P<name>([0-9]+)))`, say. -/
def digits (count : ℕ) (names : List String) : Regex where
  capturesIter text :=
    let (runs, rest) := digitRuns text
    (runs.map fun (gap, run) =>
      { gap, whole := run, group := fun index => if index ≤ count then some run else none,
        group_zero := rfl }, rest)
  groupIndex name := if name ∈ names then some 1 else none
  covers text := by
    dsimp only
    rw [List.flatMap_map]
    exact digitRuns_covers text

end Protheus.Replace
