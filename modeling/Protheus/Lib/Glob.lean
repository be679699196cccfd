import Mathlib.Data.List.Infix

/-!
Patterns of pieces with gaps.

A text fits a list of pieces where they stand in it in order, with anything in between, the first at
its start and the last at its end.  Taking each piece at its first place behind the one before finds
whatever fits (`gap_iff_findAll`): what is left behind a first place holds all that is left behind any
other.
-/

namespace Protheus.Glob

variable {α : Type*}

/-- The pieces stand in the text in order, with a gap between any two. -/
def Fits : List (List α) → List α → Prop
  | [], text => text = []
  | [piece], text => text = piece
  | piece :: next :: pieces, text =>
    ∃ gap rest, text = piece ++ gap ++ rest ∧ Fits (next :: pieces) rest

/-- The pieces fit behind a gap. -/
def Gap (pieces : List (List α)) (text : List α) : Prop :=
  ∃ gap rest, text = gap ++ rest ∧ Fits pieces rest

variable {piece text rest : List α} {pieces : List (List α)}

/-- More text in front takes nothing away. -/
theorem Gap.of_suffix {text' : List α} (h : Gap pieces text) (hsuffix : text <:+ text') :
    Gap pieces text' := by
  obtain ⟨front, rfl⟩ := hsuffix
  obtain ⟨gap, rest, rfl, hfits⟩ := h
  exact ⟨front ++ gap, rest, by rw [List.append_assoc], hfits⟩

theorem gap_singleton {last : List α} : Gap [last] text ↔ last <:+ text := by
  constructor
  · rintro ⟨gap, rest, rfl, rfl⟩
    exact List.suffix_append _ _
  · rintro ⟨gap, rfl⟩
    exact ⟨gap, last, rfl, rfl⟩

/-- The first piece stands at the start of the text. -/
theorem fits_cons {next : List α} : Fits (piece :: next :: pieces) text ↔
    piece <+: text ∧ Gap (next :: pieces) (text.drop piece.length) := by
  constructor
  · rintro ⟨gap, rest, rfl, hfits⟩
    refine ⟨by rw [List.append_assoc]; exact List.prefix_append _ _, gap, rest, ?_, hfits⟩
    rw [List.append_assoc, List.drop_left]
  · rintro ⟨⟨tail, rfl⟩, gap, rest, htail, hfits⟩
    rw [List.drop_left] at htail
    exact ⟨gap, rest, by rw [htail, List.append_assoc], hfits⟩

/-! ## First places -/

variable [DecidableEq α]

/-- What is left behind the first place of a piece. -/
def findRest (piece : List α) : List α → Option (List α)
  | [] => if piece = [] then some [] else none
  | c :: text =>
    if piece <+: c :: text then some ((c :: text).drop piece.length) else findRest piece text

/-- What is left behind the first places of pieces, one behind the other. -/
def findAll : List (List α) → List α → Option (List α)
  | [], text => some text
  | piece :: pieces, text => (findRest piece text).bind (findAll pieces)

theorem findRest_of_prefix (h : piece <+: text) :
    findRest piece text = some (text.drop piece.length) := by
  cases text with
  | nil =>
    obtain rfl := List.prefix_nil.mp h
    rfl
  | cons c text => rw [findRest, if_pos h]

@[simp] theorem findRest_nil (text : List α) : findRest [] text = some text :=
  findRest_of_prefix List.nil_prefix

/-- A piece is found where it stands. -/
theorem eq_append_of_findRest (h : findRest piece text = some rest) :
    ∃ gap, text = gap ++ piece ++ rest := by
  induction text with
  | nil =>
    rw [findRest] at h
    split at h
    · rename_i hpiece
      obtain rfl := Option.some.inj h
      exact ⟨[], by rw [hpiece]; rfl⟩
    · cases h
  | cons c text ih =>
    rw [findRest] at h
    split at h
    · rename_i hprefix
      obtain ⟨tail, htail⟩ := hprefix
      obtain rfl := Option.some.inj h
      refine ⟨[], ?_⟩
      rw [← htail, List.drop_left, List.nil_append]
    · obtain ⟨gap, rfl⟩ := ih h
      exact ⟨c :: gap, rfl⟩

/-- **What is left behind the first place holds what is left behind any other.** -/
theorem findRest_append (gap piece tail : List α) :
    ∃ rest, findRest piece (gap ++ piece ++ tail) = some rest ∧ tail <:+ rest := by
  induction gap with
  | nil =>
    refine ⟨tail, ?_, List.suffix_rfl⟩
    rw [List.nil_append, findRest_of_prefix (List.prefix_append piece tail), List.drop_left]
  | cons c gap ih =>
    by_cases hprefix : piece <+: c :: (gap ++ piece ++ tail)
    · refine ⟨_, findRest_of_prefix hprefix, ?_⟩
      have htail : tail <:+ (c :: (gap ++ piece ++ tail)).drop piece.length := by
        refine List.suffix_of_suffix_length_le ?_ (List.drop_suffix _ _) ?_
        · exact ⟨c :: (gap ++ piece), by simp⟩
        · simp only [List.length_drop, List.length_cons, List.length_append]
          omega
      exact htail
    · obtain ⟨rest, hfind, hsuffix⟩ := ih
      refine ⟨rest, ?_, hsuffix⟩
      rw [List.cons_append, List.cons_append, findRest, if_neg hprefix]
      exact hfind

theorem findAll_append (pieces pieces' : List (List α)) (text : List α) :
    findAll (pieces ++ pieces') text = (findAll pieces text).bind (findAll pieces') := by
  induction pieces generalizing text with
  | nil => rfl
  | cons piece pieces ih =>
    rw [List.cons_append, findAll, findAll, Option.bind_assoc]
    exact Option.bind_congr fun rest _ => ih rest

theorem suffix_of_findAll (h : findAll pieces text = some rest) : rest <:+ text := by
  induction pieces generalizing text with
  | nil =>
    obtain rfl := Option.some.inj h
    exact List.suffix_rfl
  | cons piece pieces ih =>
    obtain ⟨middle, hfind, hall⟩ := Option.bind_eq_some_iff.mp h
    obtain ⟨gap, htext⟩ := eq_append_of_findRest hfind
    exact (ih hall).trans ⟨gap ++ piece, htext.symm⟩

/-- A piece and what follows fit behind a gap where what follows fits behind a gap, past the first
place of the piece. -/
theorem gap_cons {next : List α} : Gap (piece :: next :: pieces) text ↔
    ∃ rest, findRest piece text = some rest ∧ Gap (next :: pieces) rest := by
  constructor
  · rintro ⟨gap, _, rfl, gap', rest, rfl, hfits⟩
    obtain ⟨found, hfind, hsuffix⟩ := findRest_append gap piece (gap' ++ rest)
    refine ⟨found, ?_, Gap.of_suffix ⟨gap', rest, rfl, hfits⟩ hsuffix⟩
    rw [← hfind]
    simp only [List.append_assoc]
  · rintro ⟨rest, hfind, gap', rest', rfl, hfits⟩
    obtain ⟨gap, rfl⟩ := eq_append_of_findRest hfind
    exact ⟨gap, piece ++ gap' ++ rest', by simp, gap', rest', rfl, hfits⟩

/-- **Taking the first places finds what fits**, with the last piece at the end of the text. -/
theorem gap_iff_findAll {last : List α} : Gap (pieces ++ [last]) text ↔
    ∃ rest, findAll pieces text = some rest ∧ last <:+ rest := by
  induction pieces generalizing text with
  | nil =>
    rw [List.nil_append, gap_singleton]
    exact ⟨fun h => ⟨text, rfl, h⟩, fun ⟨_, h, hlast⟩ => Option.some.inj h ▸ hlast⟩
  | cons piece pieces ih =>
    have hcons : ∃ next pieces', pieces ++ [last] = next :: pieces' := by
      cases pieces with
      | nil => exact ⟨last, [], rfl⟩
      | cons next pieces => exact ⟨next, pieces ++ [last], rfl⟩
    obtain ⟨next, pieces', hpieces⟩ := hcons
    rw [List.cons_append, hpieces, gap_cons, ← hpieces]
    constructor
    · rintro ⟨middle, hfind, hgap⟩
      obtain ⟨rest, hall, hlast⟩ := ih.mp hgap
      exact ⟨rest, by rw [findAll, hfind, Option.bind_some, hall], hlast⟩
    · rintro ⟨rest, hall, hlast⟩
      obtain ⟨middle, hfind, hall⟩ := Option.bind_eq_some_iff.mp hall
      exact ⟨middle, hfind, ih.mpr ⟨rest, hall, hlast⟩⟩

/-- It is all one whether the last piece is taken at its first place too, and stands at the end of a
longer text. -/
theorem gap_iff_suffix {last whole : List α} (hwhole : text <:+ whole) :
    Gap (pieces ++ [last]) text ↔ (findAll (pieces ++ [last]) text).isSome ∧ last <:+ whole := by
  rw [gap_iff_findAll, findAll_append]
  constructor
  · rintro ⟨rest, hall, hlast⟩
    refine ⟨?_, (hlast.trans (suffix_of_findAll hall)).trans hwhole⟩
    obtain ⟨gap, rfl⟩ := hlast
    obtain ⟨behind, hfind, -⟩ := findRest_append gap last []
    rw [List.append_nil] at hfind
    rw [hall, Option.bind_some, findAll, hfind]
    rfl
  · rintro ⟨hsome, hlast⟩
    obtain ⟨behind, hbehind⟩ := Option.isSome_iff_exists.mp hsome
    obtain ⟨rest, hall, hfind⟩ := Option.bind_eq_some_iff.mp hbehind
    have hrest := (suffix_of_findAll hall).trans hwhole
    refine ⟨rest, hall, List.suffix_of_suffix_length_le hlast hrest ?_⟩
    obtain ⟨_, hfind, -⟩ := Option.bind_eq_some_iff.mp hfind
    obtain ⟨gap, rfl⟩ := eq_append_of_findRest hfind
    simp only [List.length_append]
    omega

end Protheus.Glob
