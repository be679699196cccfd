import Protheus.RustStd

/-!
Lines numbered and written one after another, each between its number and a bar.

`framed` writes a list of lines so; `chain` is the same text read as the lines with a
label between each two.  A label begins with its only bar, so two ways of cutting one
text at a label are one, or the cut of the one lies in what the other has to a side of
its own (`cut`).  Lines without a bar are told by the text (`framed_inj_of_barless`);
among all lists a text tells the list only where there is nothing to cut
(`framed_unique_iff`).
-/

namespace Protheus.Frames

/-- What stands before line `k`, but for the first. -/
def label (k : ℕ) : List Char := '|' :: ((toString k).toList ++ [':'])

/-- The lines of a list, numbered from `k`. -/
def framed : ℕ → List (List Char) → List Char
  | _, [] => []
  | k, line :: lines => (toString k).toList ++ ':' :: (line ++ '|' :: framed (k + 1) lines)

/-- A text, and lines after it, the first of them labelled `k`. -/
def chain (text : List Char) : ℕ → List (List Char) → List Char
  | _, [] => text
  | k, line :: lines => chain (text ++ (label k ++ line)) (k + 1) lines

theorem chain_append (a b : List Char) : ∀ (k : ℕ) (lines : List (List Char)),
    chain (a ++ b) k lines = a ++ chain b k lines
  | _, [] => rfl
  | k, line :: lines => by rw [chain, chain, List.append_assoc, chain_append]

theorem chain_cons (text line : List Char) (k : ℕ) (lines : List (List Char)) :
    chain text k (line :: lines) = text ++ (label k ++ chain line (k + 1) lines) := by
  rw [chain, chain_append, chain_append]

theorem initial_chain (text : List Char) (k : ℕ) (lines : List (List Char)) :
    text <+: chain text k lines :=
  ⟨chain [] k lines, by rw [← chain_append, List.append_nil]⟩

theorem framed_cons (line : List Char) : ∀ (k : ℕ) (lines : List (List Char)),
    framed k (line :: lines) = (toString k).toList ++ ':' :: (chain line (k + 1) lines ++ ['|'])
  | _, [] => rfl
  | k, next :: lines => by
    rw [framed, framed_cons next (k + 1) lines, chain, chain_append, chain_append]
    simp [label]

/-! ## Cuts -/

/-- A label can be told from what follows it. -/
theorem label_append_inj {j k : ℕ} {x y : List Char} (h : label j ++ x = label k ++ y) : j = k ∧ x = y := by
  have hdigits : (toString j).toList ++ ':' :: x = (toString k).toList ++ ':' :: y := by
    simpa [label] using h
  obtain ⟨hnumber, hrest⟩ := RustStd.append_cons_inj (RustStd.notMem_toString rfl j)
    (RustStd.notMem_toString rfl k) hdigits
  exact ⟨RustStd.toString_injective (String.toList_injective hnumber), hrest⟩

/-- A label that starts before another one ends before it. -/
theorem inside {j k : ℕ} {c x y : List Char} (hc : c ≠ []) (h : label k ++ y = c ++ (label j ++ x)) :
    ∃ r, c = label k ++ r ∧ y = r ++ (label j ++ x) := by
  obtain ⟨c₀, c', rfl⟩ := List.exists_cons_of_ne_nil hc
  obtain ⟨rfl, hrest⟩ := List.cons.inj h
  have hbar : '|' ∉ (toString k).toList ++ [':'] := by
    simpa using RustStd.notMem_toString rfl k
  rcases List.append_eq_append_iff.mp hrest with ⟨r, hr, hy⟩ | ⟨e, hdigits, he⟩
  · exact ⟨r, by rw [hr]; rfl, hy⟩
  · -- What is left of the label would hold the other one's bar.
    cases e with
    | nil =>
      rw [List.append_nil] at hdigits
      exact ⟨[], by rw [label, hdigits, List.append_nil], he.symm⟩
    | cons b e =>
      have hb := (List.cons.inj he).1
      exact absurd (by rw [hdigits, ← hb]; simp) hbar

/-- Two cuts of one text at a label are one, or one of them lies to a side of the other. -/
theorem cut {j k : ℕ} {a b x y : List Char} (h : a ++ (label j ++ x) = b ++ (label k ++ y)) :
    (j = k ∧ a = b ∧ x = y) ∨ (∃ r, a = b ++ (label k ++ r) ∧ y = r ++ (label j ++ x)) ∨
      ∃ r, b = a ++ (label j ++ r) ∧ x = r ++ (label k ++ y) := by
  rcases List.append_eq_append_iff.mp h with ⟨c, rfl, hc⟩ | ⟨c, rfl, hc⟩
  · by_cases hnil : c = []
    · subst hnil
      obtain ⟨rfl, rfl⟩ := label_append_inj hc
      exact .inl ⟨rfl, by simp, rfl⟩
    · obtain ⟨r, rfl, hx⟩ := inside hnil hc
      exact .inr (.inr ⟨r, rfl, hx⟩)
  · by_cases hnil : c = []
    · subst hnil
      obtain ⟨rfl, rfl⟩ := label_append_inj hc
      exact .inl ⟨rfl, by simp, rfl⟩
    · obtain ⟨r, rfl, hy⟩ := inside hnil hc
      exact .inr (.inl ⟨r, rfl, hy⟩)

theorem cut_of_notInfix {j k : ℕ} {a b x y : List Char} (hx : ¬ label k <:+: x)
    (h : a ++ (label j ++ x) = b ++ (label k ++ y)) :
    (j = k ∧ a = b ∧ x = y) ∨ ∃ r, a = b ++ (label k ++ r) := by
  rcases cut h with heq | ⟨r, hr, -⟩ | ⟨r, -, hr⟩
  · exact .inl heq
  · exact .inr ⟨r, hr⟩
  · exact absurd ⟨r, y, by rw [hr, List.append_assoc]⟩ hx

theorem notInfix_of_barless {k : ℕ} {line : List Char} (h : '|' ∉ line) : ¬ label k <:+: line :=
  fun hk => h (hk.subset List.mem_cons_self)

/-! ## When the text tells the lines -/

/-- Lines without a bar are told by the text. -/
theorem framed_inj_of_barless : ∀ (k : ℕ) {lines other : List (List Char)}, (∀ l ∈ lines, '|' ∉ l) →
    (∀ l ∈ other, '|' ∉ l) → framed k lines = framed k other → lines = other
  | _, [], [], _, _, _ => rfl
  | k, [], _ :: _, _, _, h => by
    rw [framed, framed] at h
    cases (List.append_eq_nil_iff.mp h.symm).2
  | k, _ :: _, [], _, _, h => by
    rw [framed, framed] at h
    cases (List.append_eq_nil_iff.mp h).2
  | k, line :: lines, next :: other, hlines, hother, h => by
    rw [framed, framed] at h
    have hbody := (List.cons.inj (List.append_cancel_left h)).2
    obtain ⟨rfl, hrest⟩ := RustStd.append_cons_inj (hlines line List.mem_cons_self)
      (hother next List.mem_cons_self) hbody
    rw [framed_inj_of_barless (k + 1) (fun l hl => hlines l (.tail _ hl))
      (fun l hl => hother l (.tail _ hl)) hrest]

/-- **What a text tells among all lists.**  No other list is written as a list is exactly where it is
empty, or is one line in which no next line is labelled. -/
theorem framed_unique_iff (lines : List (List Char)) :
    (∀ other, framed 0 other = framed 0 lines → other = lines) ↔
      lines = [] ∨ ∃ line, lines = [line] ∧ ¬ label 1 <:+: line := by
  constructor
  · intro h
    match lines with
    | [] => exact .inl rfl
    | [line] =>
      refine .inr ⟨line, rfl, fun ⟨a, b, hinfix⟩ => ?_⟩
      -- The line is two lines, written out.
      have hsame : framed 0 [a, b] = framed 0 [line] := by
        simp only [framed_cons, chain, ← hinfix, List.append_assoc, Nat.zero_add]
      cases h _ hsame
    | line :: next :: rest =>
      -- The lines are one, with the labels in it.
      have hsame : framed 0 [chain line 1 (next :: rest)] = framed 0 (line :: next :: rest) := by
        rw [framed_cons, framed_cons, chain]
      have hlength := congrArg List.length (h _ hsame)
      simp at hlength
  · rintro (rfl | ⟨line, rfl, hline⟩) other h
    · cases other with
      | nil => rfl
      | cons a l =>
        rw [framed_cons, framed] at h
        cases (List.append_eq_nil_iff.mp h).2
    · match other with
      | [] =>
        rw [framed_cons, framed] at h
        cases (List.append_eq_nil_iff.mp h.symm).2
      | a :: l =>
        rw [framed_cons, framed_cons, List.append_cancel_left_eq, List.cons_inj_right,
          List.append_cancel_right_eq] at h
        cases l with
        | nil => exact congrArg (fun text => [text]) h
        | cons b l =>
          rw [Nat.zero_add, chain_cons] at h
          exact absurd ⟨a, chain b 2 l, by rw [List.append_assoc, h]; rfl⟩ hline

end Protheus.Frames
