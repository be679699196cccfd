import Protheus.Lib.Glob
import Protheus.RustStd

/-!
The label patterns of `results query`.

`wildcard_matches` takes each literal piece of a pattern at its first place and tests the last one
against the end of the candidate besides: that is what a glob means (`wildcardMatches_iff_globs`).
-/

namespace Protheus.Swarm

/-- The loop of `wildcard_matches` over the parts of a pattern; `anchored` where the pattern does not
start with a star. -/
def matchParts (anchored : Bool) : Bool → List (List Char) → List Char → Option (List Char)
  | _, [], remainder => some remainder
  | first, part :: parts, remainder =>
    if part = [] then matchParts anchored first parts remainder
    else if first && anchored then
      if part <+: remainder then matchParts anchored false parts (remainder.drop part.length)
      else none
    else
      match Glob.findRest part remainder with
      | some rest => matchParts anchored false parts rest
      | none => none

/-- `wildcard_matches`. -/
def wildcardMatches (pattern candidate : String) : Bool :=
  let pattern := pattern.toList
  let candidate := candidate.toList
  if pattern = [] ∨ pattern = ['*'] then true
  else if '*' ∉ pattern then pattern == candidate
  else
    let parts := pattern.splitOn '*'
    if (matchParts (pattern.head? != some '*') true parts candidate).isNone then false
    else if pattern.getLast? ≠ some '*' ∧
        (parts.reverse.find? (· ≠ [])).any fun tail => !decide (tail <:+ candidate) then false
    else true

/-- The candidate is made of the literal pieces of the pattern, in order, with any text for each
star. -/
def Globs (pattern candidate : String) : Prop :=
  Glob.Fits (pattern.toList.splitOn '*') candidate.toList

/-- Behind the first part the loop looks for first places. -/
theorem matchParts_eq_findAll {anchored first : Bool} (h : (first && anchored) = false)
    (parts : List (List Char)) (remainder : List Char) :
    matchParts anchored first parts remainder = Glob.findAll parts remainder := by
  induction parts generalizing first remainder with
  | nil => rfl
  | cons part parts ih =>
    rw [matchParts, Glob.findAll]
    by_cases hpart : part = []
    · rw [if_pos hpart, hpart, Glob.findRest_nil, Option.bind_some]
      exact ih h remainder
    · rw [if_neg hpart, h, if_neg Bool.false_ne_true]
      cases Glob.findRest part remainder with
      | none => rfl
      | some rest => exact ih rfl rest

/-- What stands before the first star. -/
theorem splitOn_head (pattern : List Char) : ∃ head rest, pattern.splitOn '*' = head :: rest ∧
    (head = [] ↔ pattern = [] ∨ pattern.head? = some '*') := by
  cases pattern with
  | nil => exact ⟨[], [], List.splitOn_nil '*', by simp⟩
  | cons c pattern =>
    obtain ⟨head, rest, hsplit⟩ := List.exists_cons_of_ne_nil (List.splitOn_ne_nil '*' pattern)
    rw [List.splitOn_cons_eq_if_modifyHead]
    by_cases hstar : c = '*'
    · exact ⟨[], pattern.splitOn '*', if_pos (beq_iff_eq.mpr hstar), by simp [hstar]⟩
    · refine ⟨c :: head, rest, ?_, by simp [hstar]⟩
      rw [if_neg (by simpa using hstar), hsplit, List.modifyHead_cons]

/-- A pattern with a star has a first and a last piece, which are empty where it starts and ends with
a star. -/
theorem splitOn_star {pattern : List Char} (h : '*' ∈ pattern) : ∃ head middle last,
    pattern.splitOn '*' = head :: middle ++ [last] ∧
      (head = [] ↔ pattern.head? = some '*') ∧ (last = [] ↔ pattern.getLast? = some '*') := by
  obtain ⟨tail, front, hrev, hfree⟩ := List.eq_append_cons_of_mem (List.mem_reverse.mpr h)
  have hpattern : pattern = front.reverse ++ '*' :: tail.reverse := by
    rw [← List.reverse_reverse pattern, hrev]
    simp
  obtain ⟨head, middle, hsplit, hhead⟩ := splitOn_head front.reverse
  refine ⟨head, middle, tail.reverse, ?_, ?_, ?_⟩
  · rw [hpattern, List.splitOn_append_cons_self, hsplit,
      List.splitOn_eq_singleton (by simpa using hfree)]
  · rw [hhead, hpattern]
    cases front.reverse with
    | nil => simp
    | cons c front => simp
  · rw [hpattern]
    constructor
    · intro htail
      rw [htail, List.getLast?_concat]
    · intro hlast
      by_contra hne
      rw [List.getLast?_append_cons, List.getLast?_cons_of_ne_nil hne] at hlast
      exact hfree (List.mem_reverse.mp (List.mem_of_getLast? hlast))

section Parts

variable {head last candidate : List Char} {middle : List (List Char)} {anchored : Bool}

/-- The first part stands at the start, and behind it the loop looks for first places. -/
theorem matchParts_cons (h : anchored = true ↔ head ≠ []) (parts : List (List Char)) :
    matchParts anchored true (head :: parts) candidate =
      if head <+: candidate then Glob.findAll parts (candidate.drop head.length) else none := by
  by_cases hhead : head = []
  · have hfloats : anchored = false := by
      rw [← Bool.not_eq_true, h, not_not]
      exact hhead
    rw [matchParts_eq_findAll (by rw [hfloats]; rfl), hhead, Glob.findAll, Glob.findRest_nil,
      Option.bind_some, if_pos List.nil_prefix, List.length_nil, List.drop_zero]
  · rw [matchParts, if_neg hhead, h.mpr hhead, Bool.true_and, if_pos rfl]
    split
    · rw [matchParts_eq_findAll rfl]
    · rfl

/-- The last part that is not empty, where the pattern does not end with a star. -/
theorem find?_reverse (h : last ≠ []) :
    (head :: middle ++ [last]).reverse.find? (· ≠ []) = some last := by
  rw [List.reverse_append, List.reverse_singleton, List.singleton_append, List.find?_cons_of_pos]
  exact decide_eq_true h

end Parts

/-- **Patterns are globs.** -/
theorem wildcardMatches_iff_globs {pattern : String} (h : pattern ≠ "") (candidate : String) :
    wildcardMatches pattern candidate = true ↔ Globs pattern candidate := by
  have hne : pattern.toList ≠ [] := fun hnil => h (String.toList_eq_nil_iff.mp hnil)
  rw [wildcardMatches, Globs]
  generalize pattern.toList = text at hne ⊢
  generalize candidate.toList = candidate
  dsimp only
  by_cases hstar : '*' ∈ text
  · obtain ⟨head, middle, last, hsplit, hhead, hlast⟩ := splitOn_star hstar
    have hanchored : (text.head? != some '*') = true ↔ head ≠ [] := by
      rw [bne_iff_ne, ne_eq, ← hhead]
    have hfits : Glob.Fits (head :: middle ++ [last]) candidate ↔
        head <+: candidate ∧ (Glob.findAll (middle ++ [last]) (candidate.drop head.length)).isSome ∧
          last <:+ candidate := by
      rw [← Glob.gap_iff_suffix (List.drop_suffix _ _), List.cons_append]
      cases middle with
      | nil => exact Glob.fits_cons
      | cons next middle => exact Glob.fits_cons
    by_cases hone : text = ['*']
    · rw [if_pos (.inr hone)]
      have hpieces : text.splitOn '*' = [[], []] := by
        rw [hone, List.splitOn_cons_eq_if_modifyHead]
        rfl
      rw [hpieces]
      exact iff_of_true rfl ⟨candidate, [], by simp, rfl⟩
    rw [if_neg (not_or.mpr ⟨hne, hone⟩), if_neg (not_not.mpr hstar), hsplit, hfits]
    rw [List.cons_append, matchParts_cons hanchored, ← List.cons_append]
    by_cases hinitial : head <+: candidate
    · rw [if_pos hinitial]
      by_cases hlastNil : last = []
      · have hend : text.getLast? = some '*' := hlast.mp hlastNil
        rw [hlastNil]
        cases Glob.findAll (middle ++ [[]]) (candidate.drop head.length) with
        | none => simp
        | some rest => simp [hinitial, hend]
      · rw [find?_reverse hlastNil]
        have hend : text.getLast? ≠ some '*' := fun h => hlastNil (hlast.mpr h)
        cases Glob.findAll (middle ++ [last]) (candidate.drop head.length) with
        | none => simp
        | some rest => simp [hinitial, hend]
    · rw [if_neg hinitial]
      simp [hinitial]
  · have hone : text ≠ ['*'] := by
      rintro rfl
      exact hstar (List.mem_singleton_self _)
    rw [if_neg (not_or.mpr ⟨hne, hone⟩), if_pos hstar, List.splitOn_eq_singleton hstar, Glob.Fits,
      beq_iff_eq, eq_comm]

theorem wildcardMatches_iff_globs_prefixed :
    wildcardMatches "swarm-test-7-*" "swarm-test-7-agent-fast" = true ↔
      Globs "swarm-test-7-*" "swarm-test-7-agent-fast" :=
  wildcardMatches_iff_globs (by decide) _

end Protheus.Swarm
