import Mathlib

/-!
Chains of entries, each naming the one before it by a key.

`Linked g xs` says that the entries `xs`, oldest first, hang together: the first
names the root `g`, every other one the key of its predecessor.  When a key
determines what it is the key of, the entries of one chain that turn up in another
are a prefix of it (`Linked.map_initial`): who cannot make new keys can only cut a
chain short.  `walk` follows the names from the newest entry back to the root; it
finds exactly the chains (`walk_eq_of_linked`, `Linked.of_walk`).
-/

namespace Protheus.Chain

variable {α κ π : Type*} (key prev : α → κ)

/-- The entries hang together from the root on. -/
def Linked : κ → List α → Prop
  | _, [] => True
  | g, a :: rest => prev a = g ∧ Linked (key a) rest

/-- The key of the newest entry; the root of an empty chain. -/
def tip : κ → List α → κ
  | g, [] => g
  | _, a :: rest => tip (key a) rest

variable {key prev} {g : κ} {xs ys : List α}

@[simp] theorem tip_nil : tip key g [] = g := rfl

@[simp] theorem tip_append_singleton (x : α) : tip key g (xs ++ [x]) = key x := by
  induction xs generalizing g with
  | nil => rfl
  | cons a xs ih => exact ih

theorem Linked.append_iff : Linked key prev g (xs ++ ys) ↔
    Linked key prev g xs ∧ Linked key prev (tip key g xs) ys := by
  induction xs generalizing g with
  | nil => simp [Linked]
  | cons a xs ih => simp [Linked, tip, ih, and_assoc]

/-- A chain grows by an entry that names its tip. -/
theorem Linked.concat_iff {x : α} :
    Linked key prev g (xs ++ [x]) ↔ Linked key prev g xs ∧ prev x = tip key g xs := by
  simp [Linked.append_iff, Linked]

theorem tip_append : tip key g (xs ++ ys) = tip key (tip key g xs) ys := by
  induction xs generalizing g with
  | nil => rfl
  | cons a xs ih => exact ih

theorem tip_congr {key' : α → κ} (h : ∀ x ∈ xs, key x = key' x) : tip key g xs = tip key' g xs := by
  induction xs generalizing g with
  | nil => rfl
  | cons a xs ih =>
    rw [tip, tip, h a List.mem_cons_self]
    exact ih fun x hx => h x (List.mem_cons_of_mem _ hx)

theorem Linked.congr {key' : α → κ} (h : ∀ x ∈ xs, key x = key' x) (hxs : Linked key prev g xs) :
    Linked key' prev g xs := by
  induction xs generalizing g with
  | nil => trivial
  | cons a xs ih =>
    refine ⟨hxs.1, ih (fun x hx => h x (List.mem_cons_of_mem _ hx)) ?_⟩
    rw [← h a List.mem_cons_self]
    exact hxs.2

/-- Entries may change beside their keys and the names they give. -/
theorem tip_map {f : α → α} (hkey : ∀ x, key (f x) = key x) : tip key g (xs.map f) = tip key g xs := by
  induction xs generalizing g with
  | nil => rfl
  | cons a xs ih => rw [List.map_cons, tip, tip, hkey, ih]

theorem Linked.map_iff {f : α → α} (hkey : ∀ x, key (f x) = key x) (hprev : ∀ x, prev (f x) = prev x) :
    Linked key prev g (xs.map f) ↔ Linked key prev g xs := by
  induction xs generalizing g with
  | nil => rfl
  | cons a xs ih => rw [List.map_cons, Linked, Linked, hkey, hprev, ih]

/-- The tip of a chain is its root or the key of an entry. -/
theorem tip_eq : tip key g xs = g ∨ ∃ a ∈ xs, tip key g xs = key a := by
  cases xs using List.reverseRecOn with
  | nil => exact .inl rfl
  | append_singleton xs x => exact .inr ⟨x, by simp, tip_append_singleton x⟩

/-- **A tip determines its chain**, where keys determine entries and none is the root. -/
theorem Linked.eq_of_tip (hxs : Linked key prev g xs) (hys : Linked key prev g ys)
    (hx : g ∉ xs.map key) (hy : g ∉ ys.map key)
    (hinj : ∀ x ∈ xs, ∀ y ∈ ys, key x = key y → x = y) (htip : tip key g xs = tip key g ys) :
    xs = ys := by
  induction xs using List.reverseRecOn generalizing ys with
  | nil =>
    cases ys using List.reverseRecOn with
    | nil => rfl
    | append_singleton ys y =>
      rw [tip_append_singleton] at htip
      exact absurd (by simp [← htip]) hy
  | append_singleton xs x ih =>
    cases ys using List.reverseRecOn with
    | nil =>
      rw [tip_append_singleton] at htip
      exact absurd (by simp [htip]) hx
    | append_singleton ys y =>
      rw [tip_append_singleton, tip_append_singleton] at htip
      obtain rfl := hinj x (by simp) y (by simp) htip
      obtain ⟨hxs, hprevx⟩ := Linked.concat_iff.mp hxs
      obtain ⟨hys, hprevy⟩ := Linked.concat_iff.mp hys
      rw [ih hxs hys (fun h => hx (by rw [List.map_append]; exact List.mem_append_left _ h))
        (fun h => hy (by rw [List.map_append]; exact List.mem_append_left _ h))
        (fun a ha b hb => hinj a (by simp [ha]) b (by simp [hb])) (hprevx.symm.trans hprevy)]

/-- What an entry names is the root or the key of an entry. -/
theorem Linked.prev_eq (h : Linked key prev g xs) {x : α} (hx : x ∈ xs) :
    prev x = g ∨ ∃ a ∈ xs, prev x = key a := by
  induction xs generalizing g with
  | nil => cases hx
  | cons a xs ih =>
    cases hx with
    | head => exact .inl h.1
    | tail _ hx =>
      obtain hroot | ⟨b, hb, hkey⟩ := ih h.2 hx
      · exact .inr ⟨a, List.mem_cons_self, hroot⟩
      · exact .inr ⟨b, List.mem_cons_of_mem _ hb, hkey⟩

/-- Where a key determines what its entry names, a chain has no key twice. -/
theorem Linked.nodup (h : Linked key prev g xs) (hroot : g ∉ xs.map key)
    (hinj : ∀ a ∈ xs, ∀ b ∈ xs, key a = key b → prev a = prev b) : (g :: xs.map key).Nodup := by
  refine List.nodup_cons.mpr ⟨hroot, ?_⟩
  induction xs generalizing g with
  | nil => exact List.nodup_nil
  | cons x xs ih =>
    have hfresh : key x ∉ xs.map key := by
      intro hx
      obtain ⟨a, ha, hkey⟩ := List.mem_map.mp hx
      have hprev : prev a = g :=
        (hinj a (List.mem_cons_of_mem _ ha) x List.mem_cons_self hkey).trans h.1
      obtain hx | ⟨b, hb, hb'⟩ := h.2.prev_eq ha
      · exact hroot (by simp [← hprev, hx])
      · refine hroot (List.mem_map.mpr ⟨b, List.mem_cons_of_mem _ hb, ?_⟩)
        rw [← hb', hprev]
    refine List.nodup_cons.mpr ⟨hfresh, ih h.2 hfresh fun a ha b hb => ?_⟩
    exact hinj a (List.mem_cons_of_mem _ ha) b (List.mem_cons_of_mem _ hb)

/-- **A chain made of another's entries is a prefix of it.**  Entries are compared by
their payloads, which hold the names: where every payload of `xs` turns up in `ys` and
keys determine payloads, `xs` repeats `ys` from the root on. -/
theorem Linked.map_initial {pay : α → π} (hpay : ∀ {a b}, pay a = pay b → prev a = prev b)
    (hxs : Linked key prev g xs) (hys : Linked key prev g ys) (hx : (g :: xs.map key).Nodup)
    (hy : (g :: ys.map key).Nodup)
    (hinj : ∀ x ∈ xs, ∀ y ∈ ys, key x = key y → pay x = pay y)
    (hmem : ∀ x ∈ xs, ∃ y ∈ ys, pay x = pay y) : xs.map pay <+: ys.map pay := by
  induction xs generalizing g ys with
  | nil => exact List.nil_prefix
  | cons x xs ih =>
    obtain ⟨y, hymem, hxy⟩ := hmem x List.mem_cons_self
    have hprevy : prev y = g := (hpay hxy).symm.trans hxs.1
    cases ys with
    | nil => cases hymem
    | cons y₀ ys =>
      obtain ⟨hroot, hnodup⟩ := List.nodup_cons.mp hy
      obtain ⟨hrootx, hnodupx⟩ := List.nodup_cons.mp hx
      -- only the oldest entry names the root
      have honly {b : α} (hb : b ∈ ys) : prev b ≠ g := by
        intro hbg
        obtain h | ⟨c, hc, h⟩ := hys.2.prev_eq hb
        · exact hroot (by simp [← hbg, h])
        · exact hroot (List.mem_map.mpr ⟨c, List.mem_cons_of_mem _ hc, by rw [← h, hbg]⟩)
      have hhead : pay x = pay y₀ := by
        cases hymem with
        | head => exact hxy
        | tail _ hb => exact absurd hprevy (honly hb)
      have hrest {x' : α} (hx' : x' ∈ xs) : ∃ y' ∈ ys, pay x' = pay y' := by
        obtain ⟨y', hy', heq⟩ := hmem x' (List.mem_cons_of_mem _ hx')
        cases hy' with
        | tail _ hy' => exact ⟨y', hy', heq⟩
        | head =>
          have hg : prev x' = g := (hpay heq).trans hys.1
          obtain h | ⟨c, hc, h⟩ := hxs.2.prev_eq hx'
          · exact absurd (by simp [← hg, h]) hrootx
          · exact absurd (List.mem_map.mpr ⟨c, List.mem_cons_of_mem _ hc, by rw [← h, hg]⟩) hrootx
      rw [List.map_cons, List.map_cons, hhead, List.cons_prefix_cons]
      refine ⟨rfl, ?_⟩
      cases xs with
      | nil => exact List.nil_prefix
      | cons x' xs =>
        -- the second entry names the first by the same key in both chains
        have hkey : key x = key y₀ := by
          obtain ⟨y', hy', heq⟩ := hrest List.mem_cons_self
          have hnames : prev y' = key x := (hpay heq).symm.trans hxs.2.1
          obtain h | ⟨c, hc, h⟩ := hys.2.prev_eq hy'
          · rw [← hnames, h]
          · have hxc : key x = key c := by rw [← hnames, h]
            have hcg := hpay (hinj x List.mem_cons_self c (List.mem_cons_of_mem _ hc) hxc)
            exact absurd (hcg.symm.trans hxs.1) (honly hc)
        refine ih (hkey ▸ hxs.2) hys.2 (hkey ▸ hnodupx) hnodup ?_ fun _ hx' => hrest hx'
        exact fun a ha b hb => hinj a (List.mem_cons_of_mem _ ha) b (List.mem_cons_of_mem _ hb)

/-! ## Walking a chain back -/

/-- How a walk ends: at the root, at a key it has seen, at a key nothing is found
under. -/
inductive WalkEnd (κ : Type*) where
  | root
  | cycle
  | missing (cursor : κ)
  deriving DecidableEq

variable [DecidableEq κ] (find : κ → Option α) (prev g)

/-- Follows the names from a key back to the root, for at most so many entries; the
entries come newest first. -/
def walk : ℕ → List κ → κ → List α × WalkEnd κ
  | 0, _, _ => ([], .cycle)
  | fuel + 1, visited, cursor =>
    if cursor = g then ([], .root)
    else if cursor ∈ visited then ([], .cycle)
    else
      match find cursor with
      | none => ([], .missing cursor)
      | some a =>
        let rest := walk fuel (cursor :: visited) (prev a)
        (a :: rest.1, rest.2)

variable {find prev g}

/-- **Fuel for every key is enough**: more changes nothing. -/
theorem walk_fuel {keys visited : List κ} (hkeys : ∀ k a, find k = some a → k ∈ keys)
    (hvisited : visited.Nodup) (hsub : visited ⊆ keys) {fuel fuel' : ℕ} {cursor : κ}
    (hfuel : keys.length < fuel + visited.length) (hfuel' : keys.length < fuel' + visited.length) :
    walk prev g find fuel visited cursor = walk prev g find fuel' visited cursor := by
  have hle := (hvisited.subperm hsub).length_le
  induction fuel generalizing fuel' visited cursor with
  | zero => omega
  | succ fuel ih =>
    cases fuel' with
    | zero => omega
    | succ fuel' =>
      rw [walk, walk]
      split
      · rfl
      · split
        · rfl
        · cases hfind : find cursor with
          | none => rfl
          | some a =>
            have hnodup : (cursor :: visited).Nodup := List.nodup_cons.mpr ⟨‹_›, hvisited⟩
            have hsub' : cursor :: visited ⊆ keys :=
              List.cons_subset.mpr ⟨hkeys cursor a hfind, hsub⟩
            have hrest : walk prev g find fuel (cursor :: visited) (prev a) =
                walk prev g find fuel' (cursor :: visited) (prev a) := by
              refine ih hnodup hsub' ?_ ?_ (hnodup.subperm hsub').length_le
              · rw [List.length_cons]
                omega
              · rw [List.length_cons]
                omega
            simp only [hrest]

/-- A chain is found by a walk from its tip. -/
theorem walk_eq_of_linked {visited : List κ} (h : Linked key prev g xs)
    (hnodup : (g :: xs.map key).Nodup) (hfind : ∀ x ∈ xs, find (key x) = some x)
    (hvisited : ∀ x ∈ xs, key x ∉ visited) {fuel : ℕ} (hfuel : xs.length < fuel) :
    walk prev g find fuel visited (tip key g xs) = (xs.reverse, .root) := by
  induction xs using List.reverseRecOn generalizing visited fuel with
  | nil =>
    obtain ⟨fuel, rfl⟩ := Nat.exists_eq_succ_of_ne_zero (by omega : fuel ≠ 0)
    simp [walk]
  | append_singleton xs x ih =>
    rw [List.length_append, List.length_singleton] at hfuel
    obtain ⟨fuel, rfl⟩ := Nat.exists_eq_succ_of_ne_zero (by omega : fuel ≠ 0)
    obtain ⟨hxs, hprev⟩ := Linked.concat_iff.mp h
    rw [List.map_append, List.map_singleton] at hnodup
    obtain ⟨hg, hnodup⟩ := List.nodup_cons.mp hnodup
    have hx : x ∈ xs ++ [x] := by simp
    have hne : key x ≠ g := by
      rintro rfl
      exact hg (by simp)
    have hfresh (a : α) (ha : a ∈ xs) : key a ≠ key x := fun he =>
      (List.nodup_append.mp hnodup).2.2 _ (List.mem_map_of_mem ha) _ (List.mem_singleton.mpr rfl) he
    have hrest : walk prev g find fuel (key x :: visited) (tip key g xs) = (xs.reverse, .root) := by
      refine ih hxs ?_ (fun a ha => hfind a (List.mem_append_left _ ha)) ?_ (by omega)
      · exact List.nodup_cons.mpr
          ⟨fun hmem => hg (List.mem_append_left _ hmem), (List.nodup_append.mp hnodup).1⟩
      · intro a ha hmem
        obtain hmem | hmem := List.mem_cons.mp hmem
        · exact hfresh a ha hmem
        · exact hvisited a (List.mem_append_left _ ha) hmem
    rw [tip_append_singleton, walk, if_neg hne, if_neg (hvisited x hx), hfind x hx]
    simp [hprev, hrest]

/-- A walk that reaches the root has found a chain, whose tip is where it started. -/
theorem Linked.of_walk (hkey : ∀ k a, find k = some a → key a = k) {visited : List κ} {fuel : ℕ}
    {cursor : κ} (h : (walk prev g find fuel visited cursor).2 = .root) :
    Linked key prev g (walk prev g find fuel visited cursor).1.reverse ∧
      tip key g (walk prev g find fuel visited cursor).1.reverse = cursor := by
  induction fuel generalizing visited cursor with
  | zero => cases h
  | succ fuel ih =>
    rw [walk] at h ⊢
    split at h
    · rename_i hg
      simp [hg, Linked]
    · rename_i hg
      split at h
      · cases h
      · rename_i hvisited
        rw [if_neg hg, if_neg hvisited]
        cases hfind : find cursor with
        | none =>
          rw [hfind] at h
          cases h
        | some a =>
          rw [hfind] at h
          obtain ⟨hlinked, htip⟩ := ih h
          simp only [List.reverse_cons]
          rw [tip_append_singleton, Linked.concat_iff]
          exact ⟨⟨hlinked, htip.symm⟩, hkey cursor a hfind⟩

/-- A walk finds entries, each under its own key, and none of them twice. -/
theorem walk_nodup (hkey : ∀ k a, find k = some a → key a = k) {visited : List κ} {fuel : ℕ}
    {cursor : κ} :
    (((walk prev g find fuel visited cursor).1.map key).Nodup ∧
      ∀ a ∈ (walk prev g find fuel visited cursor).1,
        find (key a) = some a ∧ key a ≠ g ∧ key a ∉ visited) := by
  induction fuel generalizing visited cursor with
  | zero => simp [walk]
  | succ fuel ih =>
    rw [walk]
    split
    · simp
    · split
      · simp
      · cases hfind : find cursor with
        | none => simp
        | some a =>
          obtain ⟨hnodup, hall⟩ := @ih (cursor :: visited) (prev a)
          have hcursor := hkey cursor a hfind
          simp only [List.map_cons, List.nodup_cons]
          refine ⟨⟨fun hmem => ?_, hnodup⟩, fun b hb => ?_⟩
          · obtain ⟨b, hb, hbkey⟩ := List.mem_map.mp hmem
            exact (hall b hb).2.2 (by simp [hbkey, hcursor])
          · cases hb with
            | head => exact hcursor ▸ ⟨hfind, ‹_›, ‹_›⟩
            | tail _ hb =>
              obtain ⟨hfound, hne, hnot⟩ := hall b hb
              exact ⟨hfound, hne, fun h => hnot (List.mem_cons_of_mem _ h)⟩

end Protheus.Chain
