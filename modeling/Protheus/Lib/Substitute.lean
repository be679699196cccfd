import Mathlib.Data.List.Infix

/-!
A text put in for every occurrence of another one, from left to right, as `str::replace` does it.

An occurrence holds every character of what is looked for.  So a text without one of these
characters is left as it is (`replaceAll_of_notMem`), and where the text before an occurrence is
without one of them, no occurrence begins earlier (`replaceAll_append_self`).
-/

namespace Protheus.Substitute

variable {α : Type*} [DecidableEq α]

/-- What is written from here on, once the rest of an occurrence is passed over. -/
def replaceFrom (pat new : List α) : ℕ → List α → List α
  | _, [] => []
  | skip + 1, _ :: rest => replaceFrom pat new skip rest
  | 0, a :: rest =>
    if pat <+: a :: rest then new ++ replaceFrom pat new (pat.length - 1) rest
    else a :: replaceFrom pat new 0 rest

/-- `str::replace`, of a text that is not empty. -/
def replaceAll (pat new text : List α) : List α := replaceFrom pat new 0 text

variable {pat new text : List α} {a : α}

theorem replaceAll_cons_of_mismatch {rest : List α} (h : ¬pat <+: a :: rest) :
    replaceAll pat new (a :: rest) = a :: replaceAll pat new rest := by
  rw [replaceAll, replaceFrom, if_neg h, replaceAll]

theorem replaceFrom_append (skipped : List α) :
    replaceFrom pat new skipped.length (skipped ++ text) = replaceAll pat new text := by
  induction skipped with
  | nil => rfl
  | cons b skipped ih => exact ih

/-- An occurrence at the start. -/
theorem replaceAll_append (hpat : pat ≠ []) :
    replaceAll pat new (pat ++ text) = new ++ replaceAll pat new text := by
  cases pat with
  | nil => exact absurd rfl hpat
  | cons b more =>
    rw [replaceAll, List.cons_append, replaceFrom, @if_pos (b :: more <+: b :: (more ++ text)) _ ⟨text, rfl⟩,
      List.length_cons, Nat.add_sub_cancel, replaceFrom_append]

/-- A text without a character of what is looked for. -/
theorem replaceAll_of_notMem (hpat : a ∈ pat) (h : a ∉ text) : replaceAll pat new text = text := by
  induction text with
  | nil => rfl
  | cons b rest ih =>
    rw [List.mem_cons, not_or] at h
    rw [replaceAll_cons_of_mismatch, ih h.2]
    intro hstarts
    exact (List.mem_cons.mp (hstarts.subset hpat)).elim h.1 h.2

/-- An occurrence is not met before its time, where a character of it is missing in what stands
before. -/
theorem not_prefix_append {before after more : List α} (hbefore : a ∉ before) (htext : a ∉ text)
    (hne : text ≠ []) : ¬(before ++ a :: after) <+: text ++ (before ++ a :: after) ++ more := by
  rintro ⟨tail, htail⟩
  have hfirst := congrArg (List.idxOf a) htail
  rw [List.append_assoc, List.idxOf_append_of_notMem hbefore, List.append_assoc,
    List.append_assoc, List.idxOf_append_of_notMem htext, List.idxOf_append_of_notMem hbefore,
    List.cons_append, List.cons_append, List.idxOf_cons_self, List.idxOf_cons_self] at hfirst
  have := List.length_pos_of_ne_nil hne
  omega

/-- One occurrence, at the end. -/
theorem replaceAll_append_self {before after : List α} (hbefore : a ∉ before) (htext : a ∉ text) :
    replaceAll (before ++ a :: after) new (text ++ (before ++ a :: after)) = text ++ new := by
  induction text with
  | nil =>
    have hstart := @replaceAll_append _ _ (before ++ a :: after) new [] (by simp)
    rw [List.append_nil] at hstart
    rw [List.nil_append, hstart]
    simp [replaceAll, replaceFrom]
  | cons b rest ih =>
    have hfirst := @not_prefix_append _ _ (b :: rest) a before after [] hbefore htext nofun
    rw [List.append_nil, List.cons_append] at hfirst
    rw [List.cons_append, replaceAll_cons_of_mismatch hfirst,
      ih fun hmem => htext (List.mem_cons_of_mem b hmem), List.cons_append]

/-! ## Spelling one character as a text -/

/-- The text with `word` for each `a`. -/
def spell (a : α) (word text : List α) : List α := text.flatMap fun b => if b = a then word else [b]

/-- A character that is spelled out is put back. -/
theorem replaceAll_spell {escape : α} {word rest : List α} (htext : escape ∉ text) :
    replaceAll (escape :: word) [a] (spell a (escape :: word) text ++ rest) =
      text ++ replaceAll (escape :: word) [a] rest := by
  induction text with
  | nil => rfl
  | cons b text ih =>
    rw [List.mem_cons, not_or] at htext
    have hspell : spell a (escape :: word) (b :: text) =
        (if b = a then escape :: word else [b]) ++ spell a (escape :: word) text := rfl
    rw [hspell, List.append_assoc]
    by_cases hb : b = a
    · rw [if_pos hb, replaceAll_append (List.cons_ne_nil escape word), ih htext.2, hb]
      rfl
    · have hother : ¬escape :: word <+: b :: (spell a (escape :: word) text ++ rest) := by
        intro hstarts
        exact htext.1 (List.cons_prefix_cons.mp hstarts).1
      rw [if_neg hb, List.singleton_append, replaceAll_cons_of_mismatch hother, ih htext.2]
      rfl

theorem mem_spell {word : List α} {b : α} (h : b ∈ spell a word text) : b ∈ text ∨ b ∈ word := by
  obtain ⟨c, hc, hb⟩ := List.mem_flatMap.mp h
  split at hb
  · exact .inr hb
  · exact .inl (List.mem_singleton.mp hb ▸ hc)

/-- A change of characters that keeps the spelled one apart from the others goes through. -/
theorem map_spell {f : α → α} {word : List α} (hword : word.map f = word)
    (ha : ∀ b, f b = a ↔ b = a) : (spell a word text).map f = spell a word (text.map f) := by
  rw [spell, spell, List.map_flatMap, List.flatMap_map]
  congr 1
  funext b
  by_cases hb : b = a
  · rw [if_pos hb, if_pos ((ha b).mpr hb), hword]
  · rw [if_neg hb, if_neg fun h => hb ((ha b).mp h), List.map_singleton]

end Protheus.Substitute
