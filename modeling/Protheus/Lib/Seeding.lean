import Mathlib.Data.Finset.Insert

/-!
Filling a stock slot by slot, up to a target for each kind.

A slot has a kind, a key, and an id that the key determines.  It is taken where its kind
is below the target and neither its key nor its id is known; then both are known and the
kind counts one more.  A run takes the slots of a list in turn.

What a run takes has new keys and ids, each once, and brings no kind above the target; a
second run takes nothing.  A slot can be blocked, by an id that another key has left: a run
leaves no kind without stock exactly where each blocked slot has a fellow that is taken
(`covers_iff`).
-/

namespace Protheus.Seeding

variable {σ κ K I : Type*}

/-- The ids and keys that are known, and how many there are of each kind. -/
@[ext] structure Stock (κ K I : Type*) where
  ids : Finset I
  keys : Finset K
  counts : κ → ℕ

/-- A stock holds what another does, and more. -/
structure Within (stock stock' : Stock κ K I) : Prop where
  ids : stock.ids ⊆ stock'.ids
  keys : stock.keys ⊆ stock'.keys
  counts : ∀ kind, stock.counts kind ≤ stock'.counts kind

theorem Within.refl (stock : Stock κ K I) : Within stock stock :=
  ⟨Finset.Subset.refl _, Finset.Subset.refl _, fun _ => le_rfl⟩

theorem Within.trans {a b c : Stock κ K I} (h : Within a b) (h' : Within b c) : Within a c :=
  ⟨h.ids.trans h'.ids, h.keys.trans h'.keys, fun kind => (h.counts kind).trans (h'.counts kind)⟩

structure Asks (σ κ K I : Type*) where
  kind : σ → κ
  key : σ → K
  idOf : K → I
  target : ℕ

variable [DecidableEq κ] [DecidableEq K] [DecidableEq I] (asks : Asks σ κ K I)

/-- The slot's kind is below the target, and its key and id are new. -/
def Takes (stock : Stock κ K I) (slot : σ) : Prop :=
  stock.counts (asks.kind slot) < asks.target ∧ asks.key slot ∉ stock.keys ∧
    asks.idOf (asks.key slot) ∉ stock.ids

instance (stock : Stock κ K I) (slot : σ) : Decidable (Takes asks stock slot) :=
  inferInstanceAs (Decidable (_ ∧ _ ∧ _))

/-- The stock with a slot taken. -/
def Stock.put (stock : Stock κ K I) (slot : σ) : Stock κ K I where
  ids := insert (asks.idOf (asks.key slot)) stock.ids
  keys := insert (asks.key slot) stock.keys
  counts := Function.update stock.counts (asks.kind slot) (stock.counts (asks.kind slot) + 1)

/-- What a run of slots takes. -/
def taken : Stock κ K I → List σ → List σ
  | _, [] => []
  | stock, slot :: slots =>
    if Takes asks stock slot then slot :: taken (stock.put asks slot) slots
    else taken stock slots

/-- What a run that stops at a limit takes, when it has taken some already. -/
def takenUpTo (limit : ℕ) : ℕ → Stock κ K I → List σ → List σ
  | _, _, [] => []
  | count, stock, slot :: slots =>
    if limit ≤ count then []
    else if Takes asks stock slot then
      slot :: takenUpTo limit (count + 1) (stock.put asks slot) slots
    else takenUpTo limit count stock slots

/-- The stock with all of the slots taken. -/
def Stock.putAll (stock : Stock κ K I) (slots : List σ) : Stock κ K I :=
  slots.foldl (fun stock slot => stock.put asks slot) stock

/-- The stock after a run. -/
def after (stock : Stock κ K I) (slots : List σ) : Stock κ K I :=
  stock.putAll asks (taken asks stock slots)

/-- The slot's kind has no stock and its key is new, but its id is known. -/
def Blocked (stock : Stock κ K I) (slot : σ) : Prop :=
  stock.counts (asks.kind slot) = 0 ∧ asks.key slot ∉ stock.keys ∧
    asks.idOf (asks.key slot) ∈ stock.ids

/-- Each slot that is blocked at its turn has a fellow of its kind that is taken at its own. -/
def Unblocked (stock : Stock κ K I) (slots : List σ) : Prop :=
  ∀ front slot back, slots = front ++ slot :: back → Blocked asks (after asks stock front) slot →
    ∃ front' slot' back', slots = front' ++ slot' :: back' ∧
      asks.kind slot' = asks.kind slot ∧ Takes asks (after asks stock front') slot'

variable {asks} {stock : Stock κ K I} {slot : σ} {slots slots' : List σ}

/-! ## One slot -/

@[simp] theorem put_counts_same :
    (stock.put asks slot).counts (asks.kind slot) = stock.counts (asks.kind slot) + 1 :=
  Function.update_self _ _ _

theorem counts_le_put (kind : κ) : stock.counts kind ≤ (stock.put asks slot).counts kind := by
  by_cases h : kind = asks.kind slot
  · rw [h, put_counts_same]
    exact Nat.le_succ _
  · exact (Function.update_of_ne h _ _).ge

theorem within_put : Within stock (stock.put asks slot) :=
  ⟨Finset.subset_insert _ _, Finset.subset_insert _ _, counts_le_put⟩

/-! ## A run -/

theorem after_cons : after asks stock (slot :: slots) =
    after asks (if Takes asks stock slot then stock.put asks slot else stock) slots := by
  rw [after, taken]
  split
  · rfl
  · rfl

theorem after_append : after asks stock (slots ++ slots') =
    after asks (after asks stock slots) slots' := by
  induction slots generalizing stock with
  | nil => rfl
  | cons slot slots ih => rw [List.cons_append, after_cons, after_cons, ih]

theorem within_after : Within stock (after asks stock slots) := by
  induction slots generalizing stock with
  | nil => exact .refl stock
  | cons slot slots ih =>
    rw [after_cons]
    split
    · exact within_put.trans ih
    · exact ih

theorem taken_sublist : (taken asks stock slots).Sublist slots := by
  induction slots generalizing stock with
  | nil => exact List.Sublist.refl []
  | cons slot slots ih =>
    rw [taken]
    split
    · exact ih.cons_cons slot
    · exact ih.cons slot

/-- What a run makes known, it makes known by a slot that it takes. -/
theorem mem_keys_after {key : K} (h : key ∈ (after asks stock slots).keys) (hnew : key ∉ stock.keys) :
    ∃ front slot back, slots = front ++ slot :: back ∧ asks.key slot = key ∧
      Takes asks (after asks stock front) slot := by
  induction slots generalizing stock with
  | nil => exact absurd h hnew
  | cons slot slots ih =>
    rw [after_cons] at h
    by_cases htakes : Takes asks stock slot
    · rw [if_pos htakes] at h
      by_cases hkey : asks.key slot = key
      · exact ⟨[], slot, slots, rfl, hkey, htakes⟩
      · obtain ⟨front, slot', back, rfl, hkey', htakes'⟩ :=
          ih h (by rw [Stock.put, Finset.mem_insert]; exact not_or.mpr ⟨Ne.symm hkey, hnew⟩)
        refine ⟨slot :: front, slot', back, rfl, hkey', ?_⟩
        rwa [after_cons, if_pos htakes]
    · rw [if_neg htakes] at h
      obtain ⟨front, slot', back, rfl, hkey', htakes'⟩ := ih h hnew
      refine ⟨slot :: front, slot', back, rfl, hkey', ?_⟩
      rwa [after_cons, if_neg htakes]

/-- A kind comes to count more by a slot that is taken. -/
theorem exists_takes_of_counts {kind : κ} (h : stock.counts kind < (after asks stock slots).counts kind) :
    ∃ front slot back, slots = front ++ slot :: back ∧ asks.kind slot = kind ∧
      Takes asks (after asks stock front) slot := by
  induction slots generalizing stock with
  | nil => exact absurd h (lt_irrefl _)
  | cons slot slots ih =>
    rw [after_cons] at h
    by_cases htakes : Takes asks stock slot
    · rw [if_pos htakes] at h
      by_cases hkind : asks.kind slot = kind
      · exact ⟨[], slot, slots, rfl, hkind, htakes⟩
      · have hsame : (stock.put asks slot).counts kind = stock.counts kind :=
          Function.update_of_ne (Ne.symm hkind) _ _
        obtain ⟨front, slot', back, rfl, hkind', htakes'⟩ := ih (hsame ▸ h)
        refine ⟨slot :: front, slot', back, rfl, hkind', ?_⟩
        rwa [after_cons, if_pos htakes]
    · rw [if_neg htakes] at h
      obtain ⟨front, slot', back, rfl, hkind', htakes'⟩ := ih h
      refine ⟨slot :: front, slot', back, rfl, hkind', ?_⟩
      rwa [after_cons, if_neg htakes]

/-- A slot that is taken leaves its kind with stock. -/
theorem counts_pos_of_takes {front back : List σ} (h : Takes asks (after asks stock front) slot) :
    0 < (after asks stock (front ++ slot :: back)).counts (asks.kind slot) := by
  rw [after_append, after_cons, if_pos h]
  refine Nat.lt_of_lt_of_le ?_ (within_after.counts _)
  rw [put_counts_same]
  exact Nat.succ_pos _

/-- **A run leaves no kind without stock** and no key to be known, unless a slot is blocked and has
no fellow that is taken. -/
theorem covers_iff (htarget : 0 < asks.target) :
    (∀ slot ∈ slots, 0 < (after asks stock slots).counts (asks.kind slot) ∨
      asks.key slot ∈ (after asks stock slots).keys) ↔ Unblocked asks stock slots := by
  constructor
  · rintro h front slot back rfl ⟨hnone, hnew, hknown⟩
    have hbefore : Within (after asks stock front) (after asks stock (front ++ slot :: back)) := by
      rw [after_append]
      exact within_after
    cases h slot (by simp) with
    | inl hcount =>
      have hzero : stock.counts (asks.kind slot) = 0 :=
        Nat.le_zero.mp (hnone ▸ within_after.counts (asks.kind slot))
      exact exists_takes_of_counts (hzero ▸ hcount)
    | inr hkey =>
      -- The slot that brings the key brings its id too, which is known already.
      rw [after_append] at hkey
      obtain ⟨front', slot', back', -, hkey', htakes⟩ := mem_keys_after hkey hnew
      refine absurd ?_ htakes.2.2
      rw [hkey']
      exact within_after.ids hknown
  · intro h slot hslot
    obtain ⟨front, back, rfl⟩ := List.append_of_mem hslot
    have hbefore : Within (after asks stock front) (after asks stock (front ++ slot :: back)) := by
      rw [after_append]
      exact within_after
    by_cases hcount : (after asks stock front).counts (asks.kind slot) = 0
    · by_cases hkey : asks.key slot ∈ (after asks stock front).keys
      · exact .inr (hbefore.keys hkey)
      · by_cases hid : asks.idOf (asks.key slot) ∈ (after asks stock front).ids
        · obtain ⟨front', slot', back', heq, hkind, htakes⟩ := h front slot back rfl ⟨hcount, hkey, hid⟩
          rw [heq, ← hkind]
          exact .inl (counts_pos_of_takes htakes)
        · exact .inl (counts_pos_of_takes ⟨hcount ▸ htarget, hkey, hid⟩)
    · exact .inl ((Nat.pos_of_ne_zero hcount).trans_le (hbefore.counts _))

/-- An id that a run makes known belongs to a key that it makes known. -/
theorem mem_ids_after {id : I} (h : id ∈ (after asks stock slots).ids) : id ∈ stock.ids ∨
    ∃ slot ∈ slots, asks.idOf (asks.key slot) = id ∧ asks.key slot ∈ (after asks stock slots).keys := by
  induction slots generalizing stock with
  | nil => exact .inl h
  | cons slot slots ih =>
    rw [after_cons] at h ⊢
    split at h
    · rename_i htakes
      rw [if_pos htakes]
      cases ih h with
      | inl hbefore =>
        obtain rfl | hbefore := Finset.mem_insert.mp hbefore
        · exact .inr ⟨slot, List.mem_cons_self, rfl, within_after.keys (Finset.mem_insert_self _ _)⟩
        · exact .inl hbefore
      | inr hlater =>
        obtain ⟨other, hother, hid, hkey⟩ := hlater
        exact .inr ⟨other, List.mem_cons_of_mem slot hother, hid, hkey⟩
    · rename_i hnot
      rw [if_neg hnot]
      refine (ih h).imp_right ?_
      rintro ⟨other, hother, hid, hkey⟩
      exact ⟨other, List.mem_cons_of_mem slot hother, hid, hkey⟩

/-- Ids that tell the keys apart block no slot. -/
theorem unblocked_of_injective
    (hnew : ∀ slot ∈ slots, asks.idOf (asks.key slot) ∈ stock.ids → asks.key slot ∈ stock.keys)
    (hinj : ∀ a ∈ slots, ∀ b ∈ slots,
      asks.idOf (asks.key a) = asks.idOf (asks.key b) → asks.key a = asks.key b) :
    Unblocked asks stock slots := by
  rintro front slot back rfl ⟨-, hkey, hid⟩
  refine absurd ?_ hkey
  cases mem_ids_after hid with
  | inl hbefore => exact within_after.keys (hnew slot (by simp) hbefore)
  | inr htaken =>
    obtain ⟨other, hother, heq, hknown⟩ := htaken
    rwa [← hinj other (List.mem_append_left _ hother) slot (by simp) heq]

/-- **No kind is brought above the target.** -/
theorem counts_after_le (kind : κ) :
    (after asks stock slots).counts kind ≤ max (stock.counts kind) asks.target := by
  induction slots generalizing stock with
  | nil => exact le_max_left _ _
  | cons slot slots ih =>
    rw [after_cons]
    split
    · rename_i htakes
      refine ih.trans (max_le ?_ (le_max_right _ _))
      by_cases hkind : kind = asks.kind slot
      · rw [hkind, put_counts_same]
        exact (Nat.succ_le_of_lt htakes.1).trans (le_max_right _ _)
      · exact (Function.update_of_ne hkind _ _).le.trans (le_max_left _ _)
    · exact ih

/-- **A second run takes nothing.** -/
theorem taken_after (slots : List σ) : taken asks (after asks stock slots) slots = [] := by
  have hall : ∀ slot ∈ slots, ¬Takes asks (after asks stock slots) slot := by
    intro slot hslot htakes
    obtain ⟨front, back, rfl⟩ := List.append_of_mem hslot
    rw [after_append, after_cons] at htakes
    split at htakes
    · refine htakes.2.1 (within_after.keys ?_)
      exact Finset.mem_insert_self _ _
    · rename_i hnot
      obtain ⟨hcount, hkey, hid⟩ := htakes
      exact hnot ⟨(within_after.counts _).trans_lt hcount, fun hmem => hkey (within_after.keys hmem),
        fun hmem => hid (within_after.ids hmem)⟩
  generalize after asks stock slots = last at hall
  induction slots with
  | nil => rfl
  | cons slot slots ih =>
    rw [taken, if_neg (hall slot List.mem_cons_self)]
    exact ih fun other hother => hall other (List.mem_cons_of_mem slot hother)

/-- **What is taken has keys that are new**, each once, and ids that are. -/
theorem taken_new : ((taken asks stock slots).map asks.key).Nodup ∧
    ((taken asks stock slots).map fun slot => asks.idOf (asks.key slot)).Nodup ∧
      ∀ slot ∈ taken asks stock slots,
        asks.key slot ∉ stock.keys ∧ asks.idOf (asks.key slot) ∉ stock.ids := by
  induction slots generalizing stock with
  | nil => exact ⟨List.nodup_nil, List.nodup_nil, by simp [taken]⟩
  | cons slot slots ih =>
    rw [taken]
    split
    · rename_i htakes
      obtain ⟨hkeys, hids, hnew⟩ := @ih (stock.put asks slot)
      have hother : ∀ other ∈ taken asks (stock.put asks slot) slots,
          asks.key other ≠ asks.key slot ∧ asks.key other ∉ stock.keys ∧
            asks.idOf (asks.key other) ≠ asks.idOf (asks.key slot) ∧
              asks.idOf (asks.key other) ∉ stock.ids := by
        intro other hmem
        obtain ⟨hkey, hid⟩ := hnew other hmem
        rw [Stock.put, Finset.mem_insert, not_or] at hkey hid
        exact ⟨hkey.1, hkey.2, hid.1, hid.2⟩
      refine ⟨?_, ?_, ?_⟩
      · rw [List.map_cons, List.nodup_cons, List.mem_map]
        exact ⟨fun ⟨other, hmem, heq⟩ => (hother other hmem).1 heq, hkeys⟩
      · rw [List.map_cons, List.nodup_cons, List.mem_map]
        exact ⟨fun ⟨other, hmem, heq⟩ => (hother other hmem).2.2.1 heq, hids⟩
      · rw [List.forall_mem_cons]
        exact ⟨htakes.2, fun other hmem => ⟨(hother other hmem).2.1, (hother other hmem).2.2.2⟩⟩
    · exact ih

/-! ## Limits -/

/-- A limit that is not reached changes nothing. -/
theorem takenUpTo_eq {limit count : ℕ}
    (h : count + (takenUpTo asks limit count stock slots).length < limit) :
    takenUpTo asks limit count stock slots = taken asks stock slots := by
  induction slots generalizing stock count with
  | nil => rfl
  | cons slot slots ih =>
    rw [takenUpTo] at h ⊢
    split at h
    · rename_i hlimit
      rw [List.length_nil] at h
      omega
    · rename_i hbelow
      rw [taken, if_neg hbelow]
      split at h
      · rename_i htakes
        rw [List.length_cons] at h
        rw [if_pos htakes, if_pos htakes, ih (by omega)]
      · rename_i htakes
        rw [if_neg htakes, if_neg htakes, ih h]

/-- What a limit leaves is a beginning of what is taken. -/
theorem takenUpTo_initial (limit count : ℕ) :
    takenUpTo asks limit count stock slots <+: taken asks stock slots := by
  induction slots generalizing stock count with
  | nil => exact List.prefix_refl []
  | cons slot slots ih =>
    rw [takenUpTo, taken]
    split
    · exact List.nil_prefix
    · split
      · exact List.cons_prefix_cons.mpr ⟨rfl, ih (count + 1)⟩
      · exact ih count

end Protheus.Seeding
