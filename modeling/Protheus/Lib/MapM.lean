import Mathlib.Data.List.Forall2
import Mathlib.Data.List.Perm.Basic
import Mathlib.Data.Option.Basic

/-!
`List.mapM` with steps that may give nothing.

The list is mapped exactly where each of its members is (`isSome_mapM_iff`), and then it is
mapped as `List.map` would do it (`mapM_eq_some_iff`): members are mapped one by one, and in
another order to another order.
-/

namespace Protheus.MapM

variable {α β : Type*} {f : α → Option β} {rows rows' : List α} {out out' : List β}

theorem mapM_eq_some_iff : rows.mapM f = some out ↔ rows.map f = out.map some := by
  induction rows generalizing out with
  | nil =>
    cases out with
    | nil => simp
    | cons a out => simp
  | cons row rows ih =>
    rw [List.mapM_cons]
    cases hrow : f row with
    | none => cases out <;> simp [hrow]
    | some a =>
      cases out with
      | nil => cases rows.mapM f <;> simp
      | cons b out =>
        rw [List.map_cons, List.map_cons, hrow, List.cons.injEq, ← ih]
        cases rows.mapM f <;> simp

theorem isSome_mapM_iff : (rows.mapM f).isSome = true ↔ ∀ row ∈ rows, (f row).isSome = true := by
  induction rows with
  | nil => simp
  | cons row rows ih =>
    rw [List.mapM_cons, List.forall_mem_cons, ← ih]
    cases f row <;> cases rows.mapM f <;> simp

theorem mapM_perm (h : rows.Perm rows') (hout : rows.mapM f = some out) :
    ∃ out', rows'.mapM f = some out' ∧ out.Perm out' := by
  have hall := isSome_mapM_iff.mp (Option.isSome_of_eq_some hout)
  obtain ⟨out', hout'⟩ := Option.isSome_iff_exists.mp
    (isSome_mapM_iff.mpr fun row hrow => hall row (h.mem_iff.mpr hrow))
  have hperm := h.map f
  rw [mapM_eq_some_iff.mp hout, mapM_eq_some_iff.mp hout'] at hperm
  exact ⟨out', hout', (List.map_perm_map_iff (Option.some_injective β)).mp hperm⟩

/-- What is mapped is mapped one by one. -/
theorem forall₂_of_mapM (h : rows.mapM f = some out) :
    List.Forall₂ (fun row a => f row = some a) rows out := by
  rw [mapM_eq_some_iff] at h
  induction rows generalizing out with
  | nil =>
    obtain rfl := List.map_eq_nil_iff.mp h.symm
    exact .nil
  | cons row rows ih =>
    cases out with
    | nil => cases h
    | cons a out =>
      obtain ⟨hhead, htail⟩ := List.cons.inj h
      exact .cons hhead (ih htail)

theorem mem_of_mapM (h : rows.mapM f = some out) {a : β} :
    a ∈ out ↔ ∃ row ∈ rows, f row = some a := by
  have hmem : a ∈ out ↔ some a ∈ out.map some :=
    (List.mem_map_of_injective (Option.some_injective β)).symm
  rw [hmem, ← mapM_eq_some_iff.mp h, List.mem_map]

theorem mapM_singleton {row : α} {a : β} (h : f row = some a) : [row].mapM f = some [a] := by
  rw [mapM_eq_some_iff, List.map_singleton, List.map_singleton, h]

theorem mapM_append (h : rows.mapM f = some out) (h' : rows'.mapM f = some out') :
    (rows ++ rows').mapM f = some (out ++ out') := by
  rw [mapM_eq_some_iff, List.map_append, List.map_append, mapM_eq_some_iff.mp h,
    mapM_eq_some_iff.mp h']

/-- Lists whose members have the same image one by one have the same image. -/
theorem map_congr_of_forall₂ {α β : Type*} {R : α → α → Prop} {f : α → β} {l l' : List α}
    (h : List.Forall₂ R l l') (hf : ∀ a ∈ l, ∀ b, R a b → f a = f b) : l.map f = l'.map f := by
  induction h with
  | nil => rfl
  | cons hab _ ih =>
    rw [List.map_cons, List.map_cons, hf _ List.mem_cons_self _ hab,
      ih fun a ha => hf a (List.mem_cons_of_mem _ ha)]

end Protheus.MapM
