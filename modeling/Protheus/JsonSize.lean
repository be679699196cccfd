import Protheus.JsonText

/-!
How long the text of a value is, in bytes.

A string grows by at most six bytes for each character and by its quotes; an integer has at
most twenty digits.  An object is no longer than its fields, whatever their order and
however often a key is written: `size_ofFields_le` bounds it by the fields it is made of.
-/

namespace Protheus.Json

theorem size_escapeChar_le (c : Char) : (escapeChar c).utf8ByteSize ≤ 6 := by
  unfold escapeChar
  split_ifs with hquote hslash hn hr ht hb hf hctl
  · decide
  · decide
  · decide
  · decide
  · decide
  · decide
  · decide
  · have hhigh : ∀ n < 2, (Nat.digitChar n).utf8Size = 1 := by decide
    have hlow : ∀ n < 16, (Nat.digitChar n).utf8Size = 1 := by decide
    rw [String.utf8ByteSize_append, String.utf8ByteSize_append, String.utf8ByteSize_singleton,
      String.utf8ByteSize_singleton, hhigh _ (by omega), hlow _ (by omega)]
    decide
  · rw [String.utf8ByteSize_singleton]
    exact (Char.utf8Size_le_four c).trans (by decide)

theorem size_join_le {bound : ℕ} : ∀ texts : List String,
    (∀ text ∈ texts, text.utf8ByteSize ≤ bound) →
      (String.join texts).utf8ByteSize ≤ bound * texts.length
  | [], _ => by simp
  | text :: rest, h => by
    have hhead := h text List.mem_cons_self
    have htail := size_join_le rest fun t ht => h t (List.mem_cons_of_mem text ht)
    rw [String.join_cons, String.utf8ByteSize_append, List.length_cons, Nat.mul_succ]
    omega

/-- A string literal is at most six times as long as the string, and has its quotes. -/
theorem size_renderStr_le (s : String) : (renderStr s).utf8ByteSize ≤ 6 * s.length + 2 := by
  have hjoin : (String.join (s.toList.map escapeChar)).utf8ByteSize ≤ 6 * s.length := by
    have h := @size_join_le 6 (s.toList.map escapeChar) (by
      intro text htext
      obtain ⟨c, -, rfl⟩ := List.mem_map.mp htext
      exact size_escapeChar_le c)
    rwa [List.length_map, String.length_toList] at h
  have hquote : "\"".utf8ByteSize = 1 := by decide
  rw [renderStr, String.utf8ByteSize_append, String.utf8ByteSize_append, hquote]
  omega

theorem size_le_of_utf8Size {bound : ℕ} {s : String} (h : ∀ c ∈ s.toList, c.utf8Size ≤ bound) :
    s.utf8ByteSize ≤ bound * s.length := by
  have hjoin : String.join (s.toList.map String.singleton) = s := by
    apply String.toList_injective
    simp [String.toList_join, List.flatMap_map]
  have hsize := size_join_le (s.toList.map String.singleton) (by
    intro text htext
    obtain ⟨c, hc, rfl⟩ := List.mem_map.mp htext
    rw [String.utf8ByteSize_singleton]
    exact h c hc)
  rwa [hjoin, List.length_map, String.length_toList] at hsize

/-- An `i64` has at most nineteen digits and a sign. -/
theorem size_toString_le (n : Int64) : (toString n.toInt).utf8ByteSize ≤ 20 := by
  have hlow := n.le_toInt
  have hhigh := n.toInt_lt
  have hascii : ∀ c ∈ (toString n.toInt).toList, c.utf8Size ≤ 1 := by
    intro c hc
    rcases isDigit_or_minus_of_mem_repr hc with hdigit | rfl
    · have hsmall : c.toNat < 128 := by
        simp only [Char.isDigit, Bool.and_eq_true, decide_eq_true_eq] at hdigit
        exact Nat.lt_of_le_of_lt hdigit.2 (by decide)
      have hsize : c.utf8Size = 1 := by
        rw [Char.utf8Size_eq_one_iff]
        exact UInt32.le_iff_toNat_le.mpr (Nat.le_of_lt_succ hsmall)
      omega
    · decide
  have hlength : (toString n.toInt).length ≤ 20 := by
    change (Int.repr n.toInt).length ≤ 20
    rw [Int.repr_eq_if]
    split
    · exact (Nat.repr_length _ 20 (by decide) (by omega))
    · rw [String.length_append]
      have h := Nat.repr_length n.toInt.natAbs 19 (by decide) (by omega)
      have hminus : "-".length = 1 := by decide
      rw [show (-n.toInt).toNat = n.toInt.natAbs by omega]
      omega
  have hsize := size_le_of_utf8Size hascii
  omega

theorem size_ofInt_le (printFloat : ℚ → String) (n : Int64) :
    ((ofInt n.toInt).render printFloat).utf8ByteSize ≤ 20 := by
  have hsize := size_toString_le n
  unfold ofInt
  split
  · rw [render, renderNumber, Int64.ofInt_toInt]
    exact hsize
  · have hnonneg : 0 ≤ n.toInt := by
      have h : ¬ Int64.ofInt n.toInt < 0 := ‹_›
      rw [Int64.ofInt_toInt, Int64.lt_iff_toInt_lt] at h
      simpa using h
    have hlt := n.toInt_lt
    have hsame : ((UInt64.ofNat n.toInt.toNat).toNat : ℤ) = n.toInt := by
      rw [UInt64.toNat_ofNat']
      omega
    rw [render, renderNumber]
    rw [← hsame] at hsize
    exact hsize

/-! ## Objects -/

variable (printFloat : ℚ → String)

/-- The bytes of a field: its key, its value, a colon and a comma. -/
def fieldSize (field : String × Json) : ℕ :=
  (renderStr field.1).utf8ByteSize + (field.2.render printFloat).utf8ByteSize + 2

theorem size_renderFields_le : ∀ fields : List (String × Json),
    (renderFields printFloat fields).utf8ByteSize ≤ (fields.map (fieldSize printFloat)).sum
  | [] => by simp [renderFields]
  | [(k, j)] => by
    have hcolon : ":".utf8ByteSize = 1 := by decide
    simp only [renderFields, String.utf8ByteSize_append, hcolon, List.map_cons, List.map_nil,
      List.sum_cons, List.sum_nil, fieldSize]
    omega
  | (k, j) :: f :: rest => by
    have htail := size_renderFields_le (f :: rest)
    have hcolon : ":".utf8ByteSize = 1 := by decide
    have hcomma : ",".utf8ByteSize = 1 := by decide
    rw [List.map_cons, List.sum_cons]
    rw [renderFields.eq_3 printFloat k j (f :: rest) (by simp)]
    simp only [String.utf8ByteSize_append, hcolon, hcomma, fieldSize] at htail ⊢
    omega

theorem sum_fieldSize_insertField_le (key : String) (value : Json) (fields : List (String × Json)) :
    ((insertField key value fields).map (fieldSize printFloat)).sum ≤
      fieldSize printFloat (key, value) + (fields.map (fieldSize printFloat)).sum := by
  induction fields with
  | nil => simp [insertField]
  | cons f rest ih =>
    obtain ⟨k, v⟩ := f
    rw [insertField]
    split_ifs with hless hsame
    · simp
    · simp only [List.map_cons, List.sum_cons]
      omega
    · simp only [List.map_cons, List.sum_cons]
      omega

/-- **The text of a `json!` object is no longer than its fields.** -/
theorem size_ofFields_le (fields : List (String × Json)) :
    ((ofFields fields).render printFloat).utf8ByteSize ≤
      (fields.map (fieldSize printFloat)).sum + 2 := by
  have hfold : ∀ (fields map : List (String × Json)),
      ((insertFields fields map).map (fieldSize printFloat)).sum ≤
        (fields.map (fieldSize printFloat)).sum + (map.map (fieldSize printFloat)).sum := by
    intro fields
    induction fields with
    | nil => simp [insertFields]
    | cons f rest ih =>
      intro map
      have hstep : _ ≤ fieldSize printFloat f + _ :=
        sum_fieldSize_insertField_le printFloat f.1 f.2 map
      have hrest := ih (insertField f.1 f.2 map)
      rw [List.map_cons, List.sum_cons]
      change ((insertFields rest (insertField f.1 f.2 map)).map (fieldSize printFloat)).sum ≤ _
      omega
  have hmap := hfold fields []
  have hfields := size_renderFields_le printFloat (insertFields fields [])
  have hopen : "\x7b".utf8ByteSize = 1 := by decide
  have hclose : "\x7d".utf8ByteSize = 1 := by decide
  change (("\x7b" ++ renderFields printFloat (insertFields fields [])) ++ "\x7d").utf8ByteSize ≤ _
  rw [String.utf8ByteSize_append, String.utf8ByteSize_append, hopen, hclose]
  rw [List.map_nil, List.sum_nil] at hmap
  omega

end Protheus.Json
