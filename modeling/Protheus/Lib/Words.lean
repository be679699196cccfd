import Mathlib.Algebra.Order.BigOperators.Group.List
import Mathlib.Algebra.Ring.Nat
import Mathlib.Algebra.Order.Group.Nat
import Mathlib.Data.List.Chain
import Mathlib.Data.List.Forall2
import Mathlib.Data.List.TakeWhile
import Mathlib.Data.Nat.Cast.Basic

/-!
The words of a list and the list that joins them again.

A word is a longest stretch without separators; `joined` puts one gap between each two
words and drops everything else.  It is no longer than the list, starts with a letter of
the first word, and never has two separators side by side; a list that is so already is
joined as it is.  Where no separator weighs less than the gap it is no heavier either.
-/

namespace Protheus.Words

variable {α : Type*} (sep : α → Bool) (gap : α)

def words (l : List α) : List (List α) := (l.splitOnP sep).filter (!·.isEmpty)

/-- The words of a list with one gap between each two. -/
def joined (l : List α) : List α := [gap].intercalate (words sep l)

/-- Of two neighbours one is no separator. -/
def Spaced (l : List α) : Prop := l.IsChain fun a b => sep a = false ∨ sep b = false

variable {sep gap}

theorem intercalate_cons_cons (a b : List α) (rest : List (List α)) :
    [gap].intercalate (a :: b :: rest) = a ++ gap :: [gap].intercalate (b :: rest) := by
  simp [List.intercalate, List.intersperse]

theorem Spaced.of_isInfix {l l' : List α} (h : Spaced sep l') (hin : l <:+: l') : Spaced sep l := by
  obtain ⟨before, after, rfl⟩ := hin
  exact (List.IsChain.left_of_append h).right_of_append

section Pieces

theorem free_of_mem_splitOnP {l : List α} :
    ∀ piece ∈ l.splitOnP sep, ∀ c ∈ piece, sep c = false := by
  induction l with
  | nil => simp
  | cons a l ih =>
    rw [List.splitOnP_cons_eq_if_modifyHead]
    split
    · simpa using ih
    · rename_i ha
      cases hpieces : l.splitOnP sep with
      | nil => exact absurd hpieces (List.splitOnP_ne_nil sep l)
      | cons first rest =>
        rw [hpieces] at ih
        rw [List.modifyHead_cons, List.forall_mem_cons, List.forall_mem_cons]
        rw [List.forall_mem_cons] at ih
        exact ⟨⟨by simpa using ha, ih.1⟩, ih.2⟩

theorem exists_piece {l : List α} {c : α} (hc : c ∈ l) (hfree : sep c = false) :
    ∃ piece ∈ l.splitOnP sep, c ∈ piece := by
  induction l with
  | nil => cases hc
  | cons a l ih =>
    rw [List.splitOnP_cons_eq_if_modifyHead]
    obtain rfl | hc := List.mem_cons.mp hc
    · rw [if_neg (by simp [hfree])]
      cases hpieces : l.splitOnP sep with
      | nil => exact absurd hpieces (List.splitOnP_ne_nil sep l)
      | cons first rest => exact ⟨c :: first, List.mem_cons_self, List.mem_cons_self⟩
    · obtain ⟨piece, hpiece, hmem⟩ := ih hc
      split
      · exact ⟨piece, List.mem_cons_of_mem _ hpiece, hmem⟩
      · cases hpieces : l.splitOnP sep with
        | nil => exact absurd hpieces (List.splitOnP_ne_nil sep l)
        | cons first rest =>
          rw [hpieces] at hpiece
          rw [List.modifyHead_cons]
          obtain rfl | hpiece := List.mem_cons.mp hpiece
          · exact ⟨a :: piece, List.mem_cons_self, List.mem_cons_of_mem _ hmem⟩
          · exact ⟨piece, List.mem_cons_of_mem _ hpiece, hmem⟩

theorem mem_of_mem_piece {l : List α} : ∀ piece ∈ l.splitOnP sep, ∀ c ∈ piece, c ∈ l := by
  induction l with
  | nil => simp
  | cons a l ih =>
    rw [List.splitOnP_cons_eq_if_modifyHead]
    split
    · simpa using fun piece hpiece c hc => Or.inr (ih piece hpiece c hc)
    · cases hpieces : l.splitOnP sep with
      | nil => exact absurd hpieces (List.splitOnP_ne_nil sep l)
      | cons first rest =>
        rw [hpieces, List.forall_mem_cons] at ih
        rw [List.modifyHead_cons, List.forall_mem_cons, List.forall_mem_cons]
        exact ⟨⟨List.mem_cons_self, fun c hc => List.mem_cons_of_mem a (ih.1 c hc)⟩,
          fun piece hpiece c hc => List.mem_cons_of_mem a (ih.2 piece hpiece c hc)⟩

end Pieces

theorem free_of_mem_words {l : List α} {word : List α} (h : word ∈ words sep l) :
    word ≠ [] ∧ ∀ c ∈ word, sep c = false := by
  obtain ⟨hpiece, hne⟩ := List.mem_filter.mp h
  exact ⟨by simpa using hne, free_of_mem_splitOnP word hpiece⟩

theorem mem_intercalate {ws : List (List α)} {c : α} (hc : c ∈ [gap].intercalate ws) :
    c = gap ∨ ∃ word ∈ ws, c ∈ word := by
  induction ws with
  | nil => cases hc
  | cons a ws ih =>
    cases ws with
    | nil => exact .inr ⟨a, List.mem_cons_self, by simpa [List.intercalate] using hc⟩
    | cons b ws =>
      rw [intercalate_cons_cons, List.mem_append, List.mem_cons] at hc
      obtain hc | rfl | hc := hc
      · exact .inr ⟨a, List.mem_cons_self, hc⟩
      · exact .inl rfl
      · exact (ih hc).imp_right fun ⟨word, hword, hmem⟩ => ⟨word, List.mem_cons_of_mem a hword, hmem⟩

/-! ### Weights -/

section Weight

variable (weight : α → ℕ) {ws : List (List α)}

/-- The weight of a list. -/
def total (l : List α) : ℕ := (l.map weight).sum

variable {weight}

theorem total_append (a b : List α) : total weight (a ++ b) = total weight a + total weight b := by
  rw [total, List.map_append, List.sum_append, total, total]

theorem total_cons (a : α) (l : List α) : total weight (a :: l) = weight a + total weight l :=
  List.sum_cons

/-- Pieces joined by gaps weigh no more than they did with their separators. -/
theorem total_pieces_le (hgap : ∀ c, sep c = true → weight gap ≤ weight c) (l : List α) :
    total weight ([gap].intercalate (l.splitOnP sep)) ≤ total weight l := by
  induction l with
  | nil => exact Nat.le_refl _
  | cons c l ih =>
    rw [List.splitOnP_cons_eq_if_modifyHead]
    cases hpieces : l.splitOnP sep with
    | nil => exact absurd hpieces (List.splitOnP_ne_nil sep l)
    | cons piece pieces =>
      rw [hpieces] at ih
      split
      · rename_i hc
        have hle := hgap c hc
        rw [intercalate_cons_cons, List.nil_append, total_cons, total_cons]
        omega
      · rw [List.modifyHead_cons]
        cases pieces with
        | nil =>
          rw [List.intercalate_singleton] at ih ⊢
          rw [total_cons, total_cons]
          omega
        | cons next pieces =>
          rw [intercalate_cons_cons] at ih ⊢
          rw [List.cons_append, total_cons, total_cons]
          omega

/-- Leaving blank pieces out makes nothing heavier. -/
theorem total_filter_le (ws : List (List α)) :
    total weight ([gap].intercalate (ws.filter (!·.isEmpty))) ≤ total weight ([gap].intercalate ws) := by
  induction ws with
  | nil => exact Nat.le_refl _
  | cons w ws ih =>
    have hcons (rest : List (List α)) : total weight ([gap].intercalate (w :: rest)) =
        total weight w + if rest = [] then 0 else weight gap + total weight ([gap].intercalate rest) := by
      cases rest with
      | nil => rw [List.intercalate_singleton, if_pos rfl, Nat.add_zero]
      | cons next rest => rw [intercalate_cons_cons, total_append, total_cons, if_neg (List.cons_ne_nil _ _)]
    have hrest : ws.filter (!·.isEmpty) ≠ [] → ws ≠ [] := by
      rintro h rfl
      exact h rfl
    rw [hcons]
    by_cases hw : (!w.isEmpty) = true
    · rw [@List.filter_cons_of_pos _ (fun w => !w.isEmpty) w ws hw, hcons]
      by_cases hkept : ws.filter (!·.isEmpty) = []
      · rw [if_pos hkept]
        omega
      · rw [if_neg hkept, if_neg (hrest hkept)]
        omega
    · rw [@List.filter_cons_of_neg _ (fun w => !w.isEmpty) w ws hw]
      by_cases hkept : ws.filter (!·.isEmpty) = []
      · rw [hkept]
        exact Nat.zero_le _
      · rw [if_neg (hrest hkept)]
        omega

/-- **Joined words weigh no more than the list**, where no separator weighs less than the gap. -/
theorem total_joined_le (hgap : ∀ c, sep c = true → weight gap ≤ weight c) (l : List α) :
    total weight (joined sep gap l) ≤ total weight l :=
  (total_filter_le _).trans (total_pieces_le hgap l)

end Weight

theorem length_joined_le (l : List α) : (joined sep gap l).length ≤ l.length := by
  have hlength (l : List α) : total (fun _ => 1) l = l.length := by simp [total]
  rw [← hlength, ← hlength]
  exact total_joined_le (fun _ _ => Nat.le_refl _) l

theorem spaced_of_free {l : List α} (h : ∀ c ∈ l, sep c = false) : Spaced sep l := by
  induction l with
  | nil => exact .nil
  | cons a l ih =>
    cases l with
    | nil => exact .singleton a
    | cons b l =>
      have hrest := ih fun c hc => h c (List.mem_cons_of_mem a hc)
      exact List.IsChain.cons_cons (.inl (h a List.mem_cons_self)) hrest

/-- Joined words do not stand apart by more than a gap. -/
theorem spaced_intercalate {ws : List (List α)}
    (h : ∀ word ∈ ws, word ≠ [] ∧ ∀ c ∈ word, sep c = false) : Spaced sep ([gap].intercalate ws) := by
  induction ws with
  | nil => exact .nil
  | cons a ws ih =>
    obtain ⟨-, hfree⟩ := h a List.mem_cons_self
    cases ws with
    | nil => simpa [List.intercalate] using spaced_of_free hfree
    | cons b ws =>
      have hrest := ih fun word hword => h word (List.mem_cons_of_mem a hword)
      obtain ⟨hne, hb⟩ := h b (by simp)
      -- the gap stands between the last letter of one word and the first of the next
      rw [intercalate_cons_cons, Spaced, List.isChain_append]
      refine ⟨spaced_of_free hfree, ?_, fun x hx y _ => .inl (hfree x (List.mem_of_getLast? hx))⟩
      obtain ⟨c, b', rfl⟩ := List.exists_cons_of_ne_nil hne
      have hjoin : ∃ rest, [gap].intercalate ((c :: b') :: ws) = c :: rest := by
        cases ws with
        | nil => exact ⟨b', by simp [List.intercalate]⟩
        | cons d ws => exact ⟨_, by rw [intercalate_cons_cons, List.cons_append]⟩
      obtain ⟨rest, hjoin⟩ := hjoin
      rw [hjoin] at hrest ⊢
      exact List.IsChain.cons_cons (.inr (hb c List.mem_cons_self)) hrest

theorem spaced_joined (l : List α) : Spaced sep (joined sep gap l) :=
  spaced_intercalate fun _ hword => free_of_mem_words hword

/-- A list with a letter has words, and the first starts with one. -/
theorem joined_eq_cons {l : List α} {c : α} (hc : c ∈ l) (hfree : sep c = false) :
    ∃ a rest, joined sep gap l = a :: rest ∧ sep a = false := by
  obtain ⟨piece, hpiece, hmem⟩ := exists_piece hc hfree
  have hword : piece ∈ words sep l :=
    List.mem_filter.mpr ⟨hpiece, by simpa using List.ne_nil_of_mem hmem⟩
  cases hwords : words sep l with
  | nil =>
    rw [hwords] at hword
    cases hword
  | cons first rest =>
    obtain ⟨hne, hletters⟩ := free_of_mem_words (hwords ▸ List.mem_cons_self : first ∈ words sep l)
    obtain ⟨a, first', rfl⟩ := List.exists_cons_of_ne_nil hne
    rw [joined, hwords]
    cases rest with
    | nil => exact ⟨a, first', by simp [List.intercalate], hletters a List.mem_cons_self⟩
    | cons b rest =>
      exact ⟨a, _, by rw [intercalate_cons_cons, List.cons_append], hletters a List.mem_cons_self⟩

/-- Joined words start with a letter. -/
theorem head_joined (l : List α) : ∀ c ∈ (joined sep gap l).head?, sep c = false := by
  intro c hc
  cases hwords : words sep l with
  | nil =>
    rw [joined, hwords] at hc
    cases hc
  | cons first rest =>
    obtain ⟨hne, hletters⟩ := free_of_mem_words (hwords ▸ List.mem_cons_self : first ∈ words sep l)
    obtain ⟨a, first', rfl⟩ := List.exists_cons_of_ne_nil hne
    have hhead : (joined sep gap l).head? = some a := by
      rw [joined, hwords]
      cases rest with
      | nil => simp [List.intercalate]
      | cons b rest => rw [intercalate_cons_cons, List.cons_append, List.head?_cons]
    rw [hhead] at hc
    exact Option.some.inj hc ▸ hletters a List.mem_cons_self

/-- Joined words end with a letter. -/
theorem getLast_joined (l : List α) : ∀ c ∈ (joined sep gap l).getLast?, sep c = false := by
  have hend : ∀ ws : List (List α), (∀ word ∈ ws, word ≠ [] ∧ ∀ c ∈ word, sep c = false) →
      ∀ c ∈ ([gap].intercalate ws).getLast?, sep c = false := by
    intro ws
    induction ws with
    | nil => exact fun _ c hc => by cases hc
    | cons word ws ih =>
      intro hws c hc
      cases ws with
      | nil =>
        have hone : [gap].intercalate [word] = word := by simp [List.intercalate]
        rw [hone] at hc
        exact (hws word List.mem_cons_self).2 c (List.mem_of_getLast? hc)
      | cons next ws =>
        have hrest := ih fun w hw => hws w (List.mem_cons_of_mem _ hw)
        have hne : [gap].intercalate (next :: ws) ≠ [] := by
          obtain ⟨a, rest, hnext⟩ := List.exists_cons_of_ne_nil (hws next (by simp)).1
          cases ws with
          | nil => simp [List.intercalate, hnext]
          | cons b ws => simp [hnext]
        rw [intercalate_cons_cons, List.getLast?_append, List.getLast?_cons] at hc
        refine hrest c ?_
        rw [Option.mem_def] at hc ⊢
        rw [← hc, List.getLast?_eq_some_getLast hne]
        simp
  exact hend _ fun _ hword => free_of_mem_words hword

/-- Every separator that is left is a gap. -/
theorem eq_gap_of_mem_joined {l : List α} {c : α} (hc : c ∈ joined sep gap l) (hsep : sep c = true) :
    c = gap := by
  obtain rfl | ⟨word, hword, hmem⟩ := mem_intercalate hc
  · rfl
  · rw [(free_of_mem_words hword).2 c hmem] at hsep
    cases hsep

theorem words_append_gap (hgap : sep gap = true) {w rest : List α} (hne : w ≠ [])
    (hfree : ∀ c ∈ w, sep c = false) : words sep (w ++ gap :: rest) = w :: words sep rest := by
  rw [words, List.splitOnP_append_cons_of_forall_mem hfree gap hgap,
    List.filter_cons_of_pos (by simpa using hne)]
  rfl

/-- Words with a gap between each two are the words again. -/
theorem words_intercalate (hgap : sep gap = true) {ws : List (List α)}
    (h : ∀ w ∈ ws, w ≠ [] ∧ ∀ c ∈ w, sep c = false) : words sep ([gap].intercalate ws) = ws := by
  induction ws with
  | nil => simp [words]
  | cons w rest ih =>
    obtain ⟨hne, hfree⟩ := h w List.mem_cons_self
    have hrest := ih fun w hw => h w (List.mem_cons_of_mem _ hw)
    cases rest with
    | nil =>
      rw [List.intercalate_singleton, words, List.splitOnP_eq_singleton hfree,
        List.filter_cons_of_pos (by simpa using hne), List.filter_nil]
    | cons next rest =>
      rw [List.intercalate_cons_cons, List.append_assoc, List.singleton_append, words_append_gap hgap hne hfree,
        hrest]

/-- A list has no separator, or it is cut at its first one. -/
theorem splitOnP_cases (sep : α → Bool) (l : List α) :
    l.splitOnP sep = [l] ∨ ∃ before c after, l = before ++ c :: after ∧ sep c = true ∧
      l.splitOnP sep = before :: after.splitOnP sep := by
  have hfree : ∀ c ∈ l.takeWhile fun c => !sep c, sep c = false :=
    fun c hc => by simpa using List.mem_takeWhile_imp hc
  have hsplit := List.takeWhile_append_dropWhile (p := fun c => !sep c) (l := l)
  cases hrest : l.dropWhile fun c => !sep c with
  | nil =>
    rw [hrest, List.append_nil] at hsplit
    rw [hsplit] at hfree
    exact .inl (List.splitOnP_eq_singleton hfree)
  | cons c after =>
    have hc : sep c = true := by
      have hhead := List.head?_dropWhile_not (fun c => !sep c) l
      simpa [hrest] using hhead
    rw [hrest] at hsplit
    refine .inr ⟨_, c, after, hsplit.symm, hc, ?_⟩
    rw [← List.splitOnP_append_cons_of_forall_mem hfree c hc, hsplit]

/-- The words are no longer than the list. -/
theorem sum_length_words_le (l : List α) : ((words sep l).map List.length).sum ≤ l.length := by
  have hpieces : ((l.splitOnP sep).map List.length).sum ≤ l.length := by
    induction hn : l.length using Nat.strong_induction_on generalizing l with
    | _ n ih =>
      rcases splitOnP_cases sep l with hone | ⟨before, c, after, rfl, -, hcut⟩
      · rw [hone, List.map_singleton, List.sum_singleton, hn]
      · rw [List.length_append, List.length_cons] at hn
        have hih := ih after.length (by omega) after rfl
        rw [hcut, List.map_cons, List.sum_cons]
        omega
  exact (List.Sublist.sum_le_sum (List.filter_sublist.map _) fun _ _ => Nat.zero_le _).trans hpieces

/-- A word stands in the list. -/
theorem isInfix_of_mem_words {l w : List α} (h : w ∈ words sep l) : w <:+: l := by
  have hpiece : ∀ piece ∈ l.splitOnP sep, piece <:+: l := by
    clear h
    induction hn : l.length using Nat.strong_induction_on generalizing l with
    | _ n ih =>
      intro piece hpiece
      rcases splitOnP_cases sep l with hone | ⟨before, c, after, rfl, -, hcut⟩
      · rw [hone, List.mem_singleton] at hpiece
        exact hpiece ▸ List.infix_rfl
      · rw [List.length_append, List.length_cons] at hn
        rw [hcut, List.mem_cons] at hpiece
        rcases hpiece with rfl | hmem
        · exact (List.prefix_append _ _).isInfix
        · have hafter : after <:+ before ++ c :: after := ⟨before ++ [c], by simp⟩
          exact (ih after.length (by omega) rfl piece hmem).trans hafter.isInfix
  exact hpiece w (List.mem_filter.mp h).1

/-- Lists that are alike letter by letter have words that are. -/
theorem forall₂_words {β : Type*} {R : α → β → Prop} {sep' : β → Bool}
    (hsep : ∀ a b, R a b → sep a = sep' b) {as : List α} {bs : List β} (h : List.Forall₂ R as bs) :
    List.Forall₂ (List.Forall₂ R) (words sep as) (words sep' bs) := by
  have hpieces : List.Forall₂ (List.Forall₂ R) (as.splitOnP sep) (bs.splitOnP sep') := by
    induction h with
    | nil => simp
    | @cons a b as bs hab _ ih =>
      rw [List.splitOnP_cons_eq_if_modifyHead, List.splitOnP_cons_eq_if_modifyHead, hsep a b hab]
      split
      · exact .cons .nil ih
      · obtain ⟨p, ps, hp⟩ := List.exists_cons_of_ne_nil (List.splitOnP_ne_nil sep as)
        obtain ⟨q, qs, hq⟩ := List.exists_cons_of_ne_nil (List.splitOnP_ne_nil sep' bs)
        rw [hp, hq] at ih
        rw [hp, hq, List.modifyHead_cons, List.modifyHead_cons]
        rcases ih with _ | ⟨hfirst, hrest⟩
        exact .cons (.cons hab hfirst) hrest
  refine List.rel_filter (fun p q hpq => ?_) hpieces
  cases hpq with
  | nil => rfl
  | cons _ _ => rfl

/-! ## Words of a list with more around it -/

theorem words_append_cons {s : α} (hs : sep s = true) (xs as : List α) :
    words sep (xs ++ s :: as) = words sep xs ++ words sep as := by
  rw [words, List.splitOnP_append_cons xs as hs, List.filter_append]
  rfl

theorem words_cons_sep {s : α} (hs : sep s = true) (l : List α) : words sep (s :: l) = words sep l := by
  have hwords := @words_append_cons _ sep s hs [] l
  rwa [List.nil_append, (by simp [words] : words sep [] = []), List.nil_append] at hwords

/-- A text that ends in a separator. -/
theorem words_append_of_last {xs ys : List α} (h : ∀ c ∈ xs.getLast?, sep c = true) :
    words sep (xs ++ ys) = words sep xs ++ words sep ys := by
  rcases xs.eq_nil_or_concat with rfl | ⟨before, c, rfl⟩
  · rfl
  · have hc : sep c = true := h c (by simp)
    rw [List.concat_eq_append, List.append_assoc, List.singleton_append, words_append_cons hc,
      words_append_cons hc, (by simp [words] : words sep [] = []), List.append_nil]

/-- A text that goes on with a separator. -/
theorem words_append_of_head {xs ys : List α} (h : ∀ c ∈ ys.head?, sep c = true) :
    words sep (xs ++ ys) = words sep xs ++ words sep ys := by
  cases ys with
  | nil => rw [List.append_nil, (by simp [words] : words sep [] = []), List.append_nil]
  | cons c rest =>
    have hc : sep c = true := h c rfl
    rw [words_append_cons hc, words_cons_sep hc]

/-- Pieces joined by gaps have their words one after another. -/
theorem words_intercalate_flatMap (hgap : sep gap = true) (ws : List (List α)) :
    words sep ([gap].intercalate ws) = ws.flatMap (words sep) := by
  induction ws with
  | nil => simp [words]
  | cons w rest ih =>
    cases rest with
    | nil => simp
    | cons w' rest =>
      rw [intercalate_cons_cons, words_append_cons hgap, ih]
      exact List.flatMap_cons.symm

section Finer

variable {fine : α → Bool}

/-- Cutting at some of the separators first leaves the words. -/
theorem flatMap_words_splitOnP (hfine : ∀ c, fine c = true → sep c = true) (l : List α) :
    (l.splitOnP fine).flatMap (words sep) = words sep l := by
  induction hn : l.length using Nat.strong_induction_on generalizing l with
  | _ n ih =>
    rcases splitOnP_cases fine l with hone | ⟨before, c, after, rfl, hc, hcut⟩
    · rw [hone, List.flatMap_singleton]
    · rw [List.length_append, List.length_cons] at hn
      rw [hcut, List.flatMap_cons, ih after.length (by omega) after rfl, words_append_cons (hfine c hc)]

theorem flatMap_words_filter (ws : List (List α)) :
    (ws.filter (!·.isEmpty)).flatMap (words sep) = ws.flatMap (words sep) := by
  induction ws with
  | nil => rfl
  | cons w ws ih =>
    cases w with
    | nil =>
      rw [List.filter_cons_of_neg (by simp), List.flatMap_cons, ih, (by simp [words] : words sep [] = [])]
      rfl
    | cons c w => rw [List.filter_cons_of_pos (by simp), List.flatMap_cons, List.flatMap_cons, ih]

theorem flatMap_words (hfine : ∀ c, fine c = true → sep c = true) (l : List α) :
    (words fine l).flatMap (words sep) = words sep l :=
  (flatMap_words_filter _).trans (flatMap_words_splitOnP hfine l)

/-- Blanks can be made single before the words are read. -/
theorem words_joined (hfine : ∀ c, fine c = true → sep c = true) (hgap : sep gap = true) (l : List α) :
    words sep (joined fine gap l) = words sep l :=
  (words_intercalate_flatMap hgap _).trans (flatMap_words hfine l)

end Finer

theorem words_dropWhile (l : List α) : words sep (l.dropWhile sep) = words sep l := by
  induction l with
  | nil => rfl
  | cons a l ih =>
    by_cases ha : sep a = true
    · rw [List.dropWhile_cons_of_pos ha, words_cons_sep ha, ih]
    · rw [List.dropWhile_cons_of_neg ha]

/-- Separators at the end make no words. -/
theorem words_reverse_dropWhile (l : List α) :
    words sep (l.dropWhile sep).reverse = words sep l.reverse := by
  induction l with
  | nil => rfl
  | cons a l ih =>
    by_cases ha : sep a = true
    · rw [List.dropWhile_cons_of_pos ha, ih, List.reverse_cons, words_append_cons ha]
      simp [words]
    · rw [List.dropWhile_cons_of_neg ha]

theorem words_eq_nil {l : List α} (h : ∀ c ∈ l, sep c = true) : words sep l = [] := by
  have hdrop := @words_dropWhile _ sep l
  rw [List.dropWhile_eq_nil_iff.mpr h] at hdrop
  rw [← hdrop]
  simp [words]

/-- A letter before a letter. -/
theorem joined_cons {c : α} {l : List α} (hc : sep c = false) (hl : ∀ d ∈ l.head?, sep d = false) :
    joined sep gap (c :: l) = c :: joined sep gap l := by
  have hneg : ¬sep c = true := by simp [hc]
  rw [joined, joined, words, words, List.splitOnP_cons_eq_if_modifyHead, if_neg hneg]
  cases l with
  | nil => simp [List.intercalate]
  | cons d l =>
    have hd : ¬sep d = true := by simpa using hl d rfl
    rw [List.splitOnP_cons_eq_if_modifyHead, if_neg hd]
    cases hpieces : l.splitOnP sep with
    | nil => exact absurd hpieces (List.splitOnP_ne_nil sep l)
    | cons first rest =>
      rw [List.modifyHead_cons, List.modifyHead_cons, List.filter_cons_of_pos (by simp),
        List.filter_cons_of_pos (by simp)]
      cases rest.filter (!·.isEmpty) with
      | nil => simp [List.intercalate]
      | cons b ws => rw [intercalate_cons_cons, intercalate_cons_cons, List.cons_append]

/-- A letter before a separator, with more letters to come. -/
theorem joined_cons_sep {c s : α} {l : List α} (hc : sep c = false) (hs : sep s = true)
    (hl : ∃ d ∈ l, sep d = false) : joined sep gap (c :: s :: l) = c :: gap :: joined sep gap l := by
  have hwords := @words_append_cons _ sep s hs [c] l
  have hfirst : words sep [c] = [[c]] := by simp [words, hc, List.splitOnP_cons_eq_if_modifyHead]
  obtain ⟨d, hd, hfree⟩ := hl
  obtain ⟨piece, hpiece, hmem⟩ := exists_piece hd hfree
  have hword : piece ∈ words sep l :=
    List.mem_filter.mpr ⟨hpiece, by simpa using List.ne_nil_of_mem hmem⟩
  rw [hfirst, List.singleton_append, List.singleton_append] at hwords
  rw [joined, joined, hwords]
  cases hrest : words sep l with
  | nil =>
    rw [hrest] at hword
    cases hword
  | cons b ws => rw [intercalate_cons_cons, List.singleton_append]

/-- A letter with nothing but separators behind it. -/
theorem joined_cons_seps {c s : α} {l : List α} (hc : sep c = false) (hs : sep s = true)
    (hl : ∀ e ∈ l, sep e = true) : joined sep gap (c :: s :: l) = [c] := by
  have hwords := @words_append_cons _ sep s hs [c] l
  rw [words_eq_nil hl, List.append_nil, List.singleton_append] at hwords
  rw [joined, hwords]
  simp [words, hc, List.splitOnP_cons_eq_if_modifyHead, List.intercalate]

/-- Letters stay before whatever starts with a letter. -/
theorem joined_append_of_free {a b : List α} (ha : ∀ c ∈ a, sep c = false)
    (hb : ∀ d ∈ b.head?, sep d = false) : joined sep gap (a ++ b) = a ++ joined sep gap b := by
  induction a with
  | nil => rfl
  | cons c a ih =>
    have hrest := ih fun d hd => ha d (List.mem_cons_of_mem c hd)
    rw [List.cons_append, joined_cons (ha c List.mem_cons_self), hrest, List.cons_append]
    cases a with
    | nil => exact hb
    | cons d a =>
      intro e he
      cases he
      exact ha d (by simp)

theorem mem_of_mem_joined {l : List α} {c : α} (hc : c ∈ joined sep gap l) : c = gap ∨ c ∈ l := by
  obtain hgap | ⟨word, hword, hmem⟩ := mem_intercalate hc
  · exact .inl hgap
  · exact .inr (mem_of_mem_piece word (List.mem_filter.mp hword).1 c hmem)

/-- Letters stay before whatever follows them. -/
theorem joined_append_spec {a b : List α} (hne : a ≠ []) (ha : ∀ c ∈ a, sep c = false) :
    ∃ t, joined sep gap (a ++ b) = a ++ t ∧ ∀ c ∈ t, c = gap ∨ c ∈ b := by
  induction a with
  | nil => exact absurd rfl hne
  | cons c a ih =>
    have hc := ha c List.mem_cons_self
    cases a with
    | cons d a =>
      obtain ⟨t, ht, hmem⟩ := ih (by simp) fun d hd => ha d (List.mem_cons_of_mem c hd)
      have hhead : ∀ e ∈ (d :: a ++ b).head?, sep e = false := by
        intro e he
        cases he
        exact ha d (by simp)
      refine ⟨t, ?_, hmem⟩
      rw [List.cons_append, joined_cons hc hhead, ht]
      rfl
    | nil =>
      cases b with
      | nil => exact ⟨[], joined_cons hc (by simp), by simp⟩
      | cons s b =>
        by_cases hs : sep s = true
        · by_cases hletter : ∃ d ∈ b, sep d = false
          · refine ⟨gap :: joined sep gap b, joined_cons_sep hc hs hletter, ?_⟩
            intro e he
            obtain rfl | he := List.mem_cons.mp he
            · exact .inl rfl
            · exact (mem_of_mem_joined he).imp_right (List.mem_cons_of_mem s)
          · push Not at hletter
            have hseps : ∀ e ∈ b, sep e = true := fun e he => by simpa using hletter e he
            exact ⟨[], joined_cons_seps hc hs hseps, by simp⟩
        · refine ⟨joined sep gap (s :: b), joined_cons hc ?_, fun e he => mem_of_mem_joined he⟩
          intro e he
          cases he
          simpa using hs

/-- **What is joined up to a letter** is joined first, with a gap if there is one. -/
theorem joined_append {x y : List α} (hx : ∃ c ∈ x, sep c = false)
    (hy : ∃ c rest, y = c :: rest ∧ sep c = false) :
    ∃ g, (g = [] ∨ g = [gap]) ∧ joined sep gap (x ++ y) = joined sep gap x ++ g ++ joined sep gap y := by
  have hletter : ∃ c ∈ y, sep c = false := by
    obtain ⟨c, rest, rfl, hc⟩ := hy
    exact ⟨c, List.mem_cons_self, hc⟩
  have hhead : ∀ c ∈ y.head?, sep c = false := by
    obtain ⟨c, rest, rfl, hc⟩ := hy
    intro d hd
    cases hd
    exact hc
  induction hn : x.length using Nat.strong_induction_on generalizing x with
  | _ n ih =>
    subst hn
    have hskip {s : α} (hs : sep s = true) (l : List α) : joined sep gap (s :: l) = joined sep gap l := by
      rw [joined, words_cons_sep hs, joined]
    cases x with
    | nil => simp at hx
    | cons c x =>
      by_cases hc : sep c = true
      · obtain ⟨g, hg, heq⟩ := @ih x.length (by simp) x (by simpa [hc] using hx) rfl
        exact ⟨g, hg, by rw [List.cons_append, hskip hc, hskip hc, heq]⟩
      · have hc : sep c = false := by simpa using hc
        cases x with
        | nil =>
          refine ⟨[], .inl rfl, ?_⟩
          rw [List.singleton_append, joined_cons hc hhead, joined_cons hc (by simp)]
          simp [joined, words, List.intercalate]
        | cons d x =>
          by_cases hd : sep d = true
          · by_cases hmore : ∃ e ∈ x, sep e = false
            · obtain ⟨g, hg, heq⟩ := @ih x.length (Nat.lt_succ_of_lt (Nat.lt_succ_self _)) x hmore rfl
              have hmore' : ∃ e ∈ x ++ y, sep e = false := by
                obtain ⟨e, he, hfree⟩ := hmore
                exact ⟨e, List.mem_append_left y he, hfree⟩
              refine ⟨g, hg, ?_⟩
              rw [List.cons_append, List.cons_append, joined_cons_sep hc hd hmore',
                joined_cons_sep hc hd hmore, heq]
              rfl
            · push Not at hmore
              have hseps : ∀ e ∈ x, sep e = true := fun e he => by simpa using hmore e he
              have hmore' : ∃ e ∈ x ++ y, sep e = false := by
                obtain ⟨e, he, hfree⟩ := hletter
                exact ⟨e, List.mem_append_right x he, hfree⟩
              have hrest : joined sep gap (x ++ y) = joined sep gap y := by
                have hdrop := @words_dropWhile _ sep (x ++ y)
                rw [List.dropWhile_append_of_pos hseps] at hdrop
                rw [joined, joined, ← hdrop, words_dropWhile]
              refine ⟨[gap], .inr rfl, ?_⟩
              rw [List.cons_append, List.cons_append, joined_cons_sep hc hd hmore', hrest,
                joined_cons_seps hc hd hseps]
              rfl
          · have hd : sep d = false := by simpa using hd
            have hstart {l : List α} : ∀ e ∈ (d :: l).head?, sep e = false := by
              intro e he
              cases he
              exact hd
            obtain ⟨g, hg, heq⟩ := @ih (d :: x).length (by simp) (d :: x) ⟨d, by simp, hd⟩ rfl
            refine ⟨g, hg, ?_⟩
            rw [List.cons_append, List.cons_append, joined_cons hc hstart, joined_cons hc hstart,
              ← List.cons_append, heq]
            rfl

/-- **A list of words with single gaps** is joined as it is. -/
theorem joined_eq_self (hgap : sep gap = true) {l : List α} (hspaced : Spaced sep l)
    (hgaps : ∀ c ∈ l, sep c = true → c = gap) (hhead : ∀ c ∈ l.head?, sep c = false)
    (hlast : ∀ c ∈ l.getLast?, sep c = false) : joined sep gap l = l := by
  induction hn : l.length using Nat.strong_induction_on generalizing l with
  | _ n ih =>
    have hfree : ∀ c ∈ l.takeWhile (!sep ·), sep c = false := fun c hc => by
      simpa using List.mem_takeWhile_imp hc
    have hsplit := List.takeWhile_append_dropWhile (p := (!sep ·)) (l := l)
    generalize l.takeWhile (!sep ·) = w at hfree hsplit
    cases hrest : l.dropWhile (!sep ·) with
    | nil =>
      rw [hrest, List.append_nil] at hsplit
      subst hsplit
      cases w with
      | nil => simp [joined, words, List.intercalate]
      | cons a w =>
        rw [joined, words, List.splitOnP_eq_singleton hfree]
        simp [List.intercalate]
    | cons c rest =>
      have hc : sep c = true := by
        have hne : l.dropWhile (!sep ·) ≠ [] := by simp [hrest]
        simpa [hrest] using List.head_dropWhile_not (!sep ·) hne
      rw [hrest] at hsplit
      subst hsplit
      obtain rfl := hgaps c (by simp) hc
      have hw : w ≠ [] := by
        rintro rfl
        have hfirst := hhead c (by simp)
        rw [hc] at hfirst
        cases hfirst
      obtain ⟨b, rest', rfl⟩ : ∃ b rest', rest = b :: rest' := by
        cases rest with
        | nil =>
          have hend := hlast c (by simp)
          rw [hc] at hend
          cases hend
        | cons b rest' => exact ⟨b, rest', rfl⟩
      have htail : Spaced sep (c :: b :: rest') := (List.isChain_append.mp hspaced).2.1
      obtain ⟨hnext, htail⟩ := List.isChain_cons_cons.mp htail
      have hb : sep b = false := hnext.resolve_left (by simp [hc])
      have hjoined : joined sep c (b :: rest') = b :: rest' := by
        refine ih _ (by simp [← hn]; omega) htail (fun d hd => hgaps d (by simp [hd])) (by simpa using hb)
          (fun d hd => hlast d ?_) rfl
        rw [List.getLast?_append, List.getLast?_cons_cons, hd]
        rfl
      obtain ⟨word, ws, hwords⟩ : ∃ word ws, words sep (b :: rest') = word :: ws := by
        cases hwords : words sep (b :: rest') with
        | nil =>
          rw [joined, hwords] at hjoined
          cases hjoined
        | cons word ws => exact ⟨word, ws, rfl⟩
      rw [joined, words_append_gap hgap hw hfree, hwords, intercalate_cons_cons, ← hwords]
      exact congrArg (w ++ c :: ·) hjoined

/-! ### Gaps at the ends -/

section Ends

variable {l : List α} (hspaced : Spaced sep l) (hgaps : ∀ c ∈ l, sep c = true → c = gap)
include hspaced hgaps

/-- A list with single gaps has one gap in front of its first letter at most. -/
theorem exists_lead : ∃ lead rest, (lead = [] ∨ lead = [gap]) ∧ l = lead ++ rest ∧
    ∀ c ∈ rest.head?, sep c = false := by
  cases l with
  | nil => exact ⟨[], [], .inl rfl, rfl, by simp⟩
  | cons a l =>
    by_cases ha : sep a = true
    · refine ⟨[gap], l, .inr rfl, by rw [hgaps a List.mem_cons_self ha]; rfl, fun c hc => ?_⟩
      rw [List.eq_cons_of_mem_head? hc] at hspaced
      exact (List.isChain_cons_cons.mp hspaced).1.resolve_left (by simp [ha])
    · exact ⟨[], a :: l, .inl rfl, rfl, by simpa using ha⟩

/-- And one behind its last letter. -/
theorem exists_trail : ∃ rest trail, (trail = [] ∨ trail = [gap]) ∧ l = rest ++ trail ∧
    ∀ c ∈ rest.getLast?, sep c = false := by
  rcases l.eq_nil_or_concat with rfl | ⟨rest, a, rfl⟩
  · exact ⟨[], [], .inl rfl, rfl, by simp⟩
  · rw [List.concat_eq_append] at hspaced hgaps ⊢
    by_cases ha : sep a = true
    · refine ⟨rest, [gap], .inr rfl, by rw [hgaps a (by simp) ha], fun c hc => ?_⟩
      exact ((List.isChain_append.mp hspaced).2.2 c hc a (by simp)).resolve_right (by simp [ha])
    · exact ⟨rest ++ [a], [], .inl rfl, by simp, by simpa using ha⟩

/-- **A list with single gaps** is its joined words with a gap before and behind them at most. -/
theorem eq_gaps_joined (hgap : sep gap = true) :
    ∃ lead trail, (lead = [] ∨ lead = [gap]) ∧ (trail = [] ∨ trail = [gap]) ∧
      l = lead ++ joined sep gap l ++ trail := by
  obtain ⟨lead, rest, hlead, rfl, hhead⟩ := exists_lead hspaced hgaps
  have hrest : Spaced sep rest := hspaced.of_isInfix (List.suffix_append lead rest).isInfix
  obtain ⟨core, trail, htrail, rfl, hlast⟩ :=
    exists_trail hrest fun c hc => hgaps c (List.mem_append_right lead hc)
  have hself : joined sep gap core = core := by
    refine joined_eq_self hgap (hrest.of_isInfix (List.prefix_append core trail).isInfix)
      (fun c hc => hgaps c (by simp [hc])) (fun c hc => hhead c ?_) hlast
    rw [List.head?_append, Option.mem_def.mp hc]
    rfl
  have hgapsOnly {g : List α} (hg : g = [] ∨ g = [gap]) : ∀ c ∈ g, sep c = true := by
    obtain rfl | rfl := hg
    · simp
    · simpa using hgap
  have hwords : words sep (lead ++ (core ++ trail)) = words sep core := by
    rw [words_append_of_last fun c hc => hgapsOnly hlead c (List.mem_of_getLast? hc),
      words_append_of_head fun c hc => hgapsOnly htrail c (List.mem_of_mem_head? hc),
      words_eq_nil (hgapsOnly hlead), words_eq_nil (hgapsOnly htrail), List.nil_append, List.append_nil]
  refine ⟨lead, trail, hlead, htrail, ?_⟩
  rw [joined, hwords, ← joined, hself, List.append_assoc]

end Ends

end Protheus.Words
