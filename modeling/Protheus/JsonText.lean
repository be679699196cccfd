import Protheus.Json

/-!
A value is determined by its text.

The serialiser's output can be read back in one way only: two values with the same
text are the same value (`render_injective`).  A number is the one value whose text
does not say where it ends, so the induction is over texts that are followed by a
separator.  How floats are printed is outside; `FloatText` is what is needed of it.
-/

namespace Protheus

/-- The integer a number stands for. -/
def JsonNumber.asInt? : JsonNumber → Option ℤ
  | .posInt n => some n.toNat
  | .negInt n _ => some n.toInt
  | .float _ => none

namespace Json

def isNumberChar (c : Char) : Bool :=
  c.isDigit || c == '-' || c == '+' || c == '.' || c == 'e' || c == 'E'

/-- Floats are printed as `ryu` prints them: distinct floats differently, and always
with a point or an exponent, which no integer has. -/
structure FloatText (printFloat : ℚ → String) : Prop where
  injective : Function.Injective printFloat
  numeric : ∀ q, ∀ c ∈ (printFloat q).toList, isNumberChar c = true
  marked : ∀ q, ∃ c ∈ (printFloat q).toList, c.isDigit = false ∧ c ≠ '-'

/-- What may follow a value: nothing, or a separator. -/
def Ends : List Char → Prop
  | [] => True
  | c :: _ => isNumberChar c = false

/-! ## Strings -/

/-- Reads one escaped character back. -/
def unescape : List Char → Option (Char × List Char)
  | '\\' :: 'u' :: '0' :: '0' :: a :: b :: rest =>
    some (Char.ofNat (16 * (if a = '1' then 1 else 0) +
      if b.isDigit then b.toNat - 48 else b.toNat - 87), rest)
  | '\\' :: 'n' :: rest => some ('\n', rest)
  | '\\' :: 'r' :: rest => some ('\r', rest)
  | '\\' :: 't' :: rest => some ('\t', rest)
  | '\\' :: 'b' :: rest => some (Char.ofNat 8, rest)
  | '\\' :: 'f' :: rest => some (Char.ofNat 12, rest)
  | '\\' :: c :: rest => some (c, rest)
  | c :: rest => if c = '"' then none else some (c, rest)
  | [] => none

theorem unescape_escapeChar (c : Char) (rest : List Char) :
    unescape ((escapeChar c).toList ++ rest) = some (c, rest) := by
  unfold escapeChar
  split_ifs with hquote hslash hn hr ht hb hf hctl
  · subst hquote
    rfl
  · subst hslash
    rfl
  · subst hn
    rfl
  · subst hr
    rfl
  · subst ht
    rfl
  · rw [← Char.ofNat_toNat c, hb]
    rfl
  · rw [← Char.ofNat_toNat c, hf]
    rfl
  · rw [← Char.ofNat_toNat c]
    generalize c.toNat = n at hctl
    interval_cases n <;> rfl
  · rw [String.toList_singleton, List.singleton_append, unescape.eq_def]
    grind

/-- The body of a string literal ends at its own quote. -/
theorem escaped_inj {a b s t : List Char}
    (h : (a.flatMap fun c => (escapeChar c).toList) ++ '"' :: s =
      (b.flatMap fun c => (escapeChar c).toList) ++ '"' :: t) : a = b ∧ s = t := by
  have hquote : ∀ rest, unescape ('"' :: rest) = none := fun _ => rfl
  induction a generalizing b with
  | nil =>
    cases b with
    | nil => exact ⟨rfl, (List.cons.inj h).2⟩
    | cons d b =>
      have := congrArg unescape h
      rw [List.flatMap_cons, List.append_assoc, unescape_escapeChar] at this
      cases this
  | cons c a ih =>
    cases b with
    | nil =>
      have := congrArg unescape h
      rw [List.flatMap_cons, List.append_assoc, unescape_escapeChar] at this
      cases this
    | cons d b =>
      have := congrArg unescape h
      rw [List.flatMap_cons, List.flatMap_cons, List.append_assoc, List.append_assoc,
        unescape_escapeChar, unescape_escapeChar, Option.some.injEq, Prod.mk.injEq] at this
      obtain ⟨rfl, hrest⟩ := this
      obtain ⟨rfl, hst⟩ := ih hrest
      exact ⟨rfl, hst⟩

theorem toList_renderStr (s : String) :
    (renderStr s).toList = '"' :: (s.toList.flatMap fun c => (escapeChar c).toList) ++ ['"'] := by
  simp [renderStr, String.toList_join, List.flatMap_map]

theorem renderStr_inj {a b : String} {s t : List Char}
    (h : (renderStr a).toList ++ s = (renderStr b).toList ++ t) : a = b ∧ s = t := by
  rw [toList_renderStr, toList_renderStr, List.append_assoc, List.append_assoc] at h
  obtain ⟨hab, hst⟩ := escaped_inj (List.cons.inj h).2
  exact ⟨String.toList_injective hab, hst⟩

/-! ## Numbers -/

theorem isDigit_or_minus_of_mem_repr {n : ℤ} {c : Char} (h : c ∈ (toString n).toList) :
    c.isDigit = true ∨ c = '-' := by
  change c ∈ (Int.repr n).toList at h
  rw [Int.repr_eq_if] at h
  have hdigits {m : ℕ} (hc : c ∈ m.repr.toList) : c.isDigit = true :=
    Nat.isDigit_of_mem_toDigits (by decide) (by decide) (Nat.toList_repr ▸ hc)
  split at h
  · exact .inl (hdigits h)
  · rw [String.toList_append, List.mem_append] at h
    cases h with
    | inl h => exact .inr (by simpa using h)
    | inr h => exact .inl (hdigits h)

section Numbers

variable {printFloat : ℚ → String}

theorem renderNumber_of_asInt? {n : JsonNumber} {i : ℤ} (h : JsonNumber.asInt? n = some i) :
    renderNumber printFloat n = toString i := by
  cases n with
  | posInt n =>
    cases h
    rfl
  | negInt n hn =>
    cases h
    rfl
  | float q => cases h

theorem asInt?_injective {m n : JsonNumber} {i : ℤ} (hm : JsonNumber.asInt? m = some i)
    (hn : JsonNumber.asInt? n = some i) : m = n := by
  cases m with
  | posInt m =>
    cases n with
    | posInt n =>
      have : m.toNat = n.toNat := by
        simpa [JsonNumber.asInt?, ← hn] using hm
      rw [UInt64.toNat_inj.mp this]
    | negInt n negative =>
      cases hm
      have hlt : n.toInt < 0 := Int64.lt_iff_toInt_lt.mp negative
      have : n.toInt = m.toNat := by simpa [JsonNumber.asInt?] using hn
      omega
    | float => cases hn
  | negInt m negative =>
    have hlt : m.toInt < 0 := Int64.lt_iff_toInt_lt.mp negative
    cases n with
    | posInt n =>
      cases hm
      have : (n.toNat : ℤ) = m.toInt := by simpa [JsonNumber.asInt?] using hn
      omega
    | negInt n _ =>
      have : m.toInt = n.toInt := by
        simpa [JsonNumber.asInt?, ← hn] using hm
      cases Int64.toInt_inj.mp this
      rfl
    | float => cases hn
  | float => cases hm

variable (htext : FloatText printFloat)
include htext

theorem isNumberChar_of_mem_renderNumber {n : JsonNumber} {c : Char}
    (h : c ∈ (renderNumber printFloat n).toList) : isNumberChar c = true := by
  cases hn : JsonNumber.asInt? n with
  | some i =>
    rw [renderNumber_of_asInt? hn] at h
    cases isDigit_or_minus_of_mem_repr h with
    | inl h => simp [isNumberChar, h]
    | inr h => simp [isNumberChar, h]
  | none =>
    cases n with
    | posInt n => cases hn
    | negInt n _ => cases hn
    | float q => exact htext.numeric q c h

/-- The text of an integer is not that of a float. -/
theorem renderNumber_ne_printFloat {n : JsonNumber} {i : ℤ} (hn : JsonNumber.asInt? n = some i)
    (q : ℚ) : renderNumber printFloat n ≠ printFloat q := by
  intro h
  obtain ⟨c, hc, hdigit, hminus⟩ := htext.marked q
  rw [← h, renderNumber_of_asInt? hn] at hc
  cases isDigit_or_minus_of_mem_repr hc with
  | inl h => exact absurd h (by simp [hdigit])
  | inr h => exact hminus h

theorem renderNumber_injective {m n : JsonNumber}
    (h : renderNumber printFloat m = renderNumber printFloat n) : m = n := by
  cases hm : JsonNumber.asInt? m with
  | some i =>
    cases hn : JsonNumber.asInt? n with
    | some j =>
      rw [renderNumber_of_asInt? hm, renderNumber_of_asInt? hn] at h
      cases Int.repr_inj.mp h
      exact asInt?_injective hm hn
    | none =>
      cases n with
      | float q => exact absurd h (renderNumber_ne_printFloat htext hm q)
      | posInt => cases hn
      | negInt => cases hn
  | none =>
    cases m with
    | posInt => cases hm
    | negInt => cases hm
    | float q =>
      cases hn : JsonNumber.asInt? n with
      | some j => exact absurd h.symm (renderNumber_ne_printFloat htext hn q)
      | none =>
        cases n with
        | posInt => cases hn
        | negInt => cases hn
        | float r => rw [htext.injective h]

theorem renderNumber_ne_empty (n : JsonNumber) : renderNumber printFloat n ≠ "" := by
  intro h
  cases hn : JsonNumber.asInt? n with
  | some i =>
    rw [renderNumber_of_asInt? hn, Int.toString_eq_repr, Int.repr_eq_if] at h
    split at h
    · have := congrArg String.toList h
      rw [Nat.toList_repr] at this
      exact absurd (congrArg List.length this) Nat.length_toDigits_pos.ne'
    · exact absurd (congrArg String.toList h) (by simp)
  | none =>
    cases n with
    | posInt => cases hn
    | negInt => cases hn
    | float q =>
      obtain ⟨c, hc, -⟩ := htext.marked q
      rw [show printFloat q = "" from h] at hc
      cases hc

/-- A number's text ends where the characters of numbers end. -/
theorem renderNumber_inj {m n : JsonNumber} {s t : List Char} (hs : Ends s) (ht : Ends t)
    (h : (renderNumber printFloat m).toList ++ s = (renderNumber printFloat n).toList ++ t) :
    m = n ∧ s = t := by
  have hsplit (k : JsonNumber) {r : List Char} (hr : Ends r) :
      ((renderNumber printFloat k).toList ++ r).takeWhile isNumberChar =
        (renderNumber printFloat k).toList := by
    rw [List.takeWhile_append_of_pos fun c hc => isNumberChar_of_mem_renderNumber htext hc]
    cases r with
    | nil => simp
    | cons c r =>
      have hc : isNumberChar c = false := hr
      simp [hc]
  have htexts := congrArg (List.takeWhile isNumberChar) h
  rw [hsplit m hs, hsplit n ht] at htexts
  rw [htexts] at h
  exact ⟨renderNumber_injective htext (String.toList_injective htexts), List.append_cancel_left h⟩

end Numbers

/-! ## Values -/

inductive Shape where
  | null
  | bool
  | num
  | str
  | arr
  | obj
  deriving DecidableEq

def shape : Json → Shape
  | .null => .null
  | .bool _ => .bool
  | .num _ => .num
  | .str _ => .str
  | .arr _ => .arr
  | .obj _ => .obj

/-- The shape of the value a character opens. -/
def shapeOf (c : Char) : Option Shape :=
  if c = 'n' then some .null
  else if c = 't' || c = 'f' then some .bool
  else if c = '"' then some .str
  else if c = '[' then some .arr
  else if c = '\x7b' then some .obj
  else if isNumberChar c then some .num
  else none

theorem shapeOf_of_isNumberChar {c : Char} (h : isNumberChar c = true) : shapeOf c = some .num := by
  have hne (d : Char) (hd : isNumberChar d = false) : c ≠ d := by
    rintro rfl
    rw [h] at hd
    cases hd
  simp [shapeOf, h, hne 'n' (by decide), hne 't' (by decide), hne 'f' (by decide),
    hne '"' (by decide), hne '[' (by decide), hne '\x7b' (by decide)]

section Values

variable {printFloat : ℚ → String}

theorem render_opens (htext : FloatText printFloat) (j : Json) :
    ∃ c rest, (j.render printFloat).toList = c :: rest ∧ shapeOf c = some j.shape := by
  cases j with
  | null => exact ⟨'n', ['u', 'l', 'l'], by simp [render], rfl⟩
  | bool b =>
    cases b with
    | false => exact ⟨'f', ['a', 'l', 's', 'e'], by simp [render], rfl⟩
    | true => exact ⟨'t', ['r', 'u', 'e'], by simp [render], rfl⟩
  | num n =>
    cases h : (renderNumber printFloat n).toList with
    | nil => exact absurd (String.toList_injective h) (renderNumber_ne_empty htext n)
    | cons c rest =>
      exact ⟨c, rest, h, shapeOf_of_isNumberChar
        (isNumberChar_of_mem_renderNumber htext (h ▸ List.mem_cons_self))⟩
  | str s => exact ⟨'"', _, toList_renderStr s, rfl⟩
  | arr items => exact ⟨'[', _, by simp [render]; rfl, rfl⟩
  | obj fields => exact ⟨'\x7b', _, by simp [render]; rfl, rfl⟩

theorem shape_eq (htext : FloatText printFloat) {a b : Json} {s t : List Char}
    (h : (a.render printFloat).toList ++ s = (b.render printFloat).toList ++ t) :
    a.shape = b.shape := by
  obtain ⟨c, rest, ha, hshape⟩ := render_opens htext a
  obtain ⟨d, rest', hb, hshape'⟩ := render_opens htext b
  rw [ha, hb, List.cons_append, List.cons_append, List.cons.injEq] at h
  rw [h.1, hshape'] at hshape
  exact (Option.some.inj hshape).symm

/-- What follows the first item of an array. -/
def itemsTail (printFloat : ℚ → String) : List Json → List Char
  | [] => []
  | rest => ',' :: (renderItems printFloat rest).toList

theorem toList_renderItems_cons (j : Json) (rest : List Json) :
    (renderItems printFloat (j :: rest)).toList =
      (j.render printFloat).toList ++ itemsTail printFloat rest := by
  cases rest with
  | nil => simp [renderItems, itemsTail]
  | cons k rest => simp [renderItems, itemsTail]

/-- What follows the first field of an object. -/
def fieldsTail (printFloat : ℚ → String) : List (String × Json) → List Char
  | [] => []
  | rest => ',' :: (renderFields printFloat rest).toList

theorem toList_renderFields_cons (f : String × Json) (rest : List (String × Json)) :
    (renderFields printFloat (f :: rest)).toList =
      (renderStr f.1).toList ++ ':' :: (f.2.render printFloat).toList ++
        fieldsTail printFloat rest := by
  obtain ⟨k, j⟩ := f
  cases rest with
  | nil => simp [renderFields, fieldsTail]
  | cons g rest => simp [renderFields, fieldsTail]

mutual

/-- **A text reads back in one way.**  Two values whose texts, each followed by a
separator, make the same text are the same, and so is what follows them. -/
theorem render_inj (htext : FloatText printFloat) : ∀ (a b : Json) {s t : List Char},
    Ends s → Ends t →
      (a.render printFloat).toList ++ s = (b.render printFloat).toList ++ t → a = b ∧ s = t
  | .null, b, s, t, _, _, h => by
    have hshape := shape_eq htext h
    cases b with
    | null => exact ⟨rfl, List.append_cancel_left h⟩
    | _ => cases hshape
  | .bool x, b, s, t, _, _, h => by
    have hshape := shape_eq htext h
    cases b with
    | bool y => cases x <;> cases y <;> simp_all [render]
    | _ => cases hshape
  | .num m, b, s, t, hs, ht, h => by
    have hshape := shape_eq htext h
    cases b with
    | num n =>
      obtain ⟨rfl, hst⟩ := renderNumber_inj htext hs ht h
      exact ⟨rfl, hst⟩
    | _ => cases hshape
  | .str x, b, s, t, _, _, h => by
    have hshape := shape_eq htext h
    cases b with
    | str y =>
      obtain ⟨rfl, hst⟩ := renderStr_inj h
      exact ⟨rfl, hst⟩
    | _ => cases hshape
  | .arr xs, b, s, t, _, _, h => by
    have hshape := shape_eq htext h
    cases b with
    | arr ys =>
      obtain ⟨rfl, hst⟩ := renderItems_inj htext xs ys (s := s) (t := t) (by
        simpa [render, String.toList_append] using h)
      exact ⟨rfl, hst⟩
    | _ => cases hshape
  | .obj xs, b, s, t, _, _, h => by
    have hshape := shape_eq htext h
    cases b with
    | obj ys =>
      obtain ⟨rfl, hst⟩ := renderFields_inj htext xs ys (s := s) (t := t) (by
        simpa [render, String.toList_append] using h)
      exact ⟨rfl, hst⟩
    | _ => cases hshape

theorem renderItems_inj (htext : FloatText printFloat) : ∀ (xs ys : List Json) {s t : List Char},
    (renderItems printFloat xs).toList ++ ']' :: s = (renderItems printFloat ys).toList ++ ']' :: t →
      xs = ys ∧ s = t
  | [], [], s, t, h => ⟨rfl, (List.cons.inj h).2⟩
  | [], y :: ys, s, t, h => by
    obtain ⟨c, rest, hy, hshape⟩ := render_opens htext y
    rw [toList_renderItems_cons, hy] at h
    obtain rfl : ']' = c := (List.cons.inj h).1
    cases hshape
  | x :: xs, [], s, t, h => by
    obtain ⟨c, rest, hx, hshape⟩ := render_opens htext x
    rw [toList_renderItems_cons, hx] at h
    obtain rfl : c = ']' := (List.cons.inj h).1
    cases hshape
  | x :: xs, y :: ys, s, t, h => by
    rw [toList_renderItems_cons, toList_renderItems_cons, List.append_assoc, List.append_assoc] at h
    have hends (zs : List Json) (r : List Char) : Ends (itemsTail printFloat zs ++ ']' :: r) := by
      cases zs <;> rfl
    obtain ⟨rfl, hrest⟩ := render_inj htext x y (hends xs s) (hends ys t) h
    cases xs with
    | nil =>
      cases ys with
      | nil => exact ⟨rfl, (List.cons.inj hrest).2⟩
      | cons y ys => cases hrest
    | cons x' xs =>
      cases ys with
      | nil => cases hrest
      | cons y ys =>
        obtain ⟨hxs, hst⟩ := renderItems_inj htext (x' :: xs) (y :: ys) (List.cons.inj hrest).2
        exact ⟨by rw [hxs], hst⟩

theorem renderFields_inj (htext : FloatText printFloat) :
    ∀ (xs ys : List (String × Json)) {s t : List Char},
      (renderFields printFloat xs).toList ++ '\x7d' :: s =
          (renderFields printFloat ys).toList ++ '\x7d' :: t → xs = ys ∧ s = t
  | [], [], s, t, h => ⟨rfl, (List.cons.inj h).2⟩
  | [], y :: ys, s, t, h => by
    rw [toList_renderFields_cons, toList_renderStr] at h
    cases h
  | x :: xs, [], s, t, h => by
    rw [toList_renderFields_cons, toList_renderStr] at h
    cases h
  | (k, x) :: xs, (l, y) :: ys, s, t, h => by
    rw [toList_renderFields_cons, toList_renderFields_cons] at h
    simp only [List.append_assoc, List.cons_append] at h
    obtain ⟨rfl, hvalue⟩ := renderStr_inj h
    have hends (zs : List (String × Json)) (r : List Char) :
        Ends (fieldsTail printFloat zs ++ '\x7d' :: r) := by
      cases zs <;> rfl
    obtain ⟨rfl, hrest⟩ := render_inj htext x y (hends xs s) (hends ys t) (List.cons.inj hvalue).2
    cases xs with
    | nil =>
      cases ys with
      | nil => exact ⟨rfl, (List.cons.inj hrest).2⟩
      | cons y ys => cases hrest
    | cons x' xs =>
      cases ys with
      | nil => cases hrest
      | cons y ys =>
        obtain ⟨hxs, hst⟩ := renderFields_inj htext (x' :: xs) (y :: ys) (List.cons.inj hrest).2
        exact ⟨by rw [hxs], hst⟩

end

/-- **A value is determined by its text.** -/
theorem render_injective (htext : FloatText printFloat) {a b : Json}
    (h : a.render printFloat = b.render printFloat) : a = b :=
  (render_inj htext a b (s := []) (t := []) trivial trivial (by rw [h])).1

end Values

end Json

end Protheus
