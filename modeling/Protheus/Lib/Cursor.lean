import Mathlib.Data.List.Basic

/-!
A positional cursor over a list that changes under it.

`Sound` says that every item below the cursor has been handed out.  The rules
say which changes keep it so: dropping items above the cursor, adding some
behind it, handing out what stands next and moving past it, cutting the list at
its front and moving the cursor along.  Nothing keeps it when an item is dropped
or added below the cursor.
-/

namespace Protheus.Cursor

variable {α β : Type*} {items items' given given' : List α} {offset stop n : ℕ}

/-- The cursor stands in the list and everything below it was handed out. -/
structure Sound (items : List α) (offset : ℕ) (given : List α) : Prop where
  offset_le : offset ≤ items.length
  mem_given : ∀ a ∈ items.take offset, a ∈ given

theorem Sound.zero (items given : List α) : Sound items 0 given :=
  ⟨Nat.zero_le _, by simp⟩

/-- Only the items below the cursor matter. -/
theorem Sound.of_take_eq (h : Sound items offset given)
    (htake : items'.take offset = items.take offset) : Sound items' offset given := by
  refine ⟨?_, htake ▸ h.mem_given⟩
  have hlen := congrArg List.length htake
  have hle := h.offset_le
  rw [List.length_take, List.length_take] at hlen
  omega

theorem Sound.mono (h : Sound items offset given) (hgiven : given ⊆ given') :
    Sound items offset given' :=
  ⟨h.offset_le, fun a ha => hgiven (h.mem_given a ha)⟩

/-- The cursor may move past items that were handed out. -/
theorem Sound.move (hstop : stop ≤ items.length) (h : ∀ a ∈ items.take stop, a ∈ given) :
    Sound items stop given := ⟨hstop, h⟩

/-- Handing out the items from the cursor on and moving past them is sound. -/
theorem Sound.advance (h : Sound items offset given) (hle : offset ≤ stop)
    (hstop : stop ≤ items.length) :
    Sound items stop (given ++ (items.drop offset).take (stop - offset)) := by
  refine ⟨hstop, fun a ha => List.mem_append.mpr ?_⟩
  obtain ⟨k, rfl⟩ := Nat.exists_eq_add_of_le hle
  rw [List.take_add, List.mem_append] at ha
  rcases ha with ha | ha
  · exact .inl (h.mem_given a ha)
  · exact .inr (by rwa [Nat.add_sub_cancel_left])

/-- Cutting the list below the cursor takes the cursor along. -/
theorem Sound.drop (h : Sound items offset given) (n : ℕ) :
    Sound (items.drop n) (offset - n) given := by
  refine ⟨by rw [List.length_drop]; exact Nat.sub_le_sub_right h.offset_le n, fun a ha => ?_⟩
  rw [← List.drop_take] at ha
  exact h.mem_given a (List.mem_of_mem_drop ha)

/-- Items above the cursor may be dropped. -/
theorem take_filter_of_forall {keep : α → Bool} : ∀ {items : List α} {offset : ℕ},
    (∀ a ∈ items.take offset, keep a = true) → offset ≤ items.length →
      (items.filter keep).take offset = items.take offset
  | _, 0, _, _ => by simp
  | a :: items, offset + 1, h, hle => by
    have ha : keep a = true := h a (by simp)
    have ih : (items.filter keep).take offset = items.take offset :=
      take_filter_of_forall (fun b hb => h b (by simp [hb])) (by simpa using hle)
    rw [List.filter_cons_of_pos ha, List.take_succ_cons, List.take_succ_cons, ih]

end Protheus.Cursor
