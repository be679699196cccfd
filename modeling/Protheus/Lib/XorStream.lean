import Mathlib.Data.List.Basic
import Mathlib.Algebra.NeZero
import Mathlib.Algebra.Ring.Nat
import Mathlib.Algebra.Order.Group.Nat

/-!
A stream of blocks laid over bytes with exclusive or.

The blocks are taken one after another, each over as many bytes as it is long.  Laying the
same stream over the result gives the bytes back (`stream_stream`).
-/

namespace Protheus.XorStream

variable {ι : Type*} (block : ι → List UInt8) (next : ι → ι) (size : ℕ)

/-- The bytes under the stream that starts with a block. -/
def stream [hsize : NeZero size] (i : ι) (input : List UInt8) : List UInt8 :=
  if input = [] then []
  else List.zipWith (· ^^^ ·) (input.take size) (block i) ++ stream (next i) (input.drop size)
termination_by input.length
decreasing_by
  have hpos := hsize.pos
  have hinput := List.length_pos_iff.mpr ‹_›
  rw [List.length_drop]
  omega

variable {block next size}

theorem xor_xor (a b : UInt8) : (a ^^^ b) ^^^ b = a := by
  rw [UInt8.xor_assoc, UInt8.xor_self, UInt8.xor_zero]

/-- A block laid over bytes twice leaves them. -/
theorem zipWith_zipWith {bytes keys : List UInt8} (h : bytes.length ≤ keys.length) :
    List.zipWith (· ^^^ ·) (List.zipWith (· ^^^ ·) bytes keys) keys = bytes := by
  induction bytes generalizing keys with
  | nil => simp
  | cons b bytes ih =>
    cases keys with
    | nil => exact absurd h (by simp)
    | cons k keys =>
      rw [List.length_cons, List.length_cons, Nat.add_le_add_iff_right] at h
      rw [List.zipWith_cons_cons, List.zipWith_cons_cons, xor_xor, ih h]

/-- **The same stream twice gives the bytes back.** -/
theorem stream_stream [NeZero size] (hsize : ∀ i, (block i).length = size) (i : ι) (input : List UInt8) :
    stream block next size i (stream block next size i input) = input := by
  induction hlength : input.length using Nat.strong_induction_on generalizing i input with
  | _ n ih =>
    by_cases hempty : input = []
    · have hnil (j : ι) : stream block next size j [] = [] := by rw [stream, if_pos rfl]
      rw [hempty, hnil, hnil]
    have hpos := NeZero.pos size
    have hinput := List.length_pos_iff.mpr hempty
    -- what is laid over the first bytes, and the rest
    obtain ⟨first, hfirst⟩ : ∃ first, first = List.zipWith (· ^^^ ·) (input.take size) (block i) := ⟨_, rfl⟩
    obtain ⟨rest, hrest⟩ : ∃ rest, rest = stream block next size (next i) (input.drop size) := ⟨_, rfl⟩
    have hover : stream block next size i input = first ++ rest := by
      rw [stream, if_neg hempty, ← hfirst, ← hrest]
    have hlen : first.length = min size input.length := by
      rw [hfirst, List.length_zipWith, List.length_take, hsize i]
      omega
    have hback : List.zipWith (· ^^^ ·) first (block i) = input.take size := by
      rw [hfirst]
      refine zipWith_zipWith ?_
      rw [List.length_take, hsize i]
      omega
    have hih : stream block next size (next i) rest = input.drop size := by
      rw [hrest]
      refine ih _ ?_ (next i) (input.drop size) rfl
      rw [List.length_drop]
      omega
    have hcut : (first ++ rest).take size = first ∧ (first ++ rest).drop size = rest := by
      by_cases hlong : size ≤ input.length
      · have hfull : first.length = size := by omega
        exact ⟨List.take_left' hfull, List.drop_left' hfull⟩
      · have hnone : rest = [] := by
          rw [hrest, List.drop_eq_nil_of_le (by omega), stream, if_pos rfl]
        have hshort : first.length ≤ size := by omega
        rw [hnone, List.append_nil]
        exact ⟨List.take_of_length_le hshort, List.drop_eq_nil_of_le hshort⟩
    have hne : first ++ rest ≠ [] := by
      intro hnil
      have hzero := congrArg List.length hnil
      rw [List.length_append, hlen, List.length_nil] at hzero
      omega
    rw [hover, stream, if_neg hne, hcut.1, hcut.2, hback, hih, List.take_append_drop]

end Protheus.XorStream
