import Mathlib.Data.List.Nodup
import Mathlib.Data.Nat.Log
import Mathlib.Logic.Function.Iterate

/-!
Merkle trees over a list, level by level, where an odd level pairs its last element
with itself.

Nodes are any injective pairing that no leaf comes from.  A level without repetition
can be read off the one above it (`pairUp_inj`): a self-paired last element shows, as
no other pair has two equal sides.  The height of an element is determined as well, so
equal tops come from equal levels (`climb_inj`).  `path` is the audit path of a
position and `foldPath` takes its element back to the top (`foldPath_path`).
-/

namespace Protheus.Merkle

variable {α : Type*} (node : α → α → α)

/-- The level above. -/
def pairUp : List α → List α
  | [] => []
  | [left] => [node left left]
  | left :: right :: rest => node left right :: pairUp rest

/-- So many levels up, or to the top. -/
def climb : ℕ → List α → List α
  | 0, level => level
  | rounds + 1, level => if level.length ≤ 1 then level else climb rounds (pairUp node level)

/-- The position an element is paired with. -/
def siblingIndex (index : ℕ) : ℕ := if index % 2 = 0 then index + 1 else index - 1

/-- The sibling of `x` at a position; of one that has none, itself. -/
def siblingOf (level : List α) (index : ℕ) (x : α) : α := level[siblingIndex index]?.getD x

/-- An element and its sibling, joined in the order of their positions. -/
def join (index : ℕ) (x sibling : α) : α := if index % 2 = 0 then node x sibling else node sibling x

/-- The positions and siblings on the way up from `x` at a position. -/
def path : ℕ → List α → ℕ → α → List (ℕ × α)
  | 0, _, _, _ => []
  | rounds + 1, level, index, x =>
    if level.length ≤ 1 then []
    else
      let sibling := siblingOf level index x
      (index, sibling) :: path rounds (pairUp node level) (index / 2) (join node index x sibling)

def foldPath (x : α) (steps : List (ℕ × α)) : α :=
  steps.foldl (fun x step => join node step.1 x step.2) x

section Levels

variable {node} {level level' : List α}

@[simp] theorem length_pairUp : ∀ level : List α,
    (pairUp node level).length = (level.length + 1) / 2
  | [] => by simp [pairUp]
  | [_] => by simp [pairUp]
  | _ :: _ :: rest => by
    simp only [pairUp, List.length_cons, length_pairUp rest]
    omega

/-- What stands at a position of the level above. -/
theorem getElem?_pairUp : ∀ (level : List α) (index : ℕ) {x : α}, level[index]? = some x →
    (pairUp node level)[index / 2]? = some (join node index x (siblingOf level index x))
  | [], index, x, h => by simp at h
  | [left], index, x, h => by
    obtain ⟨hindex, rfl⟩ := List.getElem?_eq_some_iff.mp h
    have hzero : index = 0 := by simpa using hindex
    subst hzero
    simp [pairUp, join, siblingOf, siblingIndex]
  | left :: right :: rest, 0, x, h => by
    cases h
    simp [pairUp, join, siblingOf, siblingIndex]
  | left :: right :: rest, 1, x, h => by
    cases h
    simp [pairUp, join, siblingOf, siblingIndex]
  | left :: right :: rest, index + 2, x, h => by
    have hrest := getElem?_pairUp rest index h
    have hhalf : (index + 2) / 2 = index / 2 + 1 := by omega
    have hparity : (index + 2) % 2 = index % 2 := by omega
    have hsibling : siblingOf (left :: right :: rest) (index + 2) x = siblingOf rest index x := by
      unfold siblingOf siblingIndex
      rw [hparity]
      split
      · rfl
      · have hodd : index + 2 - 1 = index - 1 + 2 := by omega
        rw [hodd]
        rfl
    rw [pairUp, hhalf, List.getElem?_cons_succ, hrest, hsibling]
    simp only [join, hparity]

/-- **An audit path leads to the top.** -/
theorem foldPath_path {rounds : ℕ} : ∀ {level : List α} {index : ℕ} {x : α},
    level[index]? = some x → level.length ≤ rounds + 1 →
    climb node rounds level = [foldPath node x (path node rounds level index x)] := by
  induction rounds with
  | zero =>
    intro level index x hx h
    obtain ⟨hindex, rfl⟩ := List.getElem?_eq_some_iff.mp hx
    obtain ⟨y, rfl⟩ := List.length_eq_one_iff.mp (show level.length = 1 by omega)
    simp [climb, path, foldPath]
  | succ rounds ih =>
    intro level index x hx h
    obtain ⟨hindex, hget⟩ := List.getElem?_eq_some_iff.mp hx
    rw [climb, path]
    split
    case isTrue hone =>
      obtain ⟨y, rfl⟩ := List.length_eq_one_iff.mp (show level.length = 1 by omega)
      have hy : y = x := by simpa using hget
      rw [hy]
      rfl
    case isFalse =>
      have hlength := @length_pairUp _ node level
      exact ih (getElem?_pairUp level index hx) (by omega)

/-- An audit path has a step for every halving. -/
theorem length_path {rounds : ℕ} : ∀ {level : List α} {index : ℕ} {x : α},
    level.length ≤ rounds + 1 →
    (path node rounds level index x).length = Nat.clog 2 level.length := by
  induction rounds with
  | zero =>
    intro level index x h
    rw [path, Nat.clog_of_right_le_one (by omega)]
    rfl
  | succ rounds ih =>
    intro level index x h
    rw [path]
    split
    case isTrue hone =>
      rw [Nat.clog_of_right_le_one hone]
      rfl
    case isFalse hmany =>
      have hlength := @length_pairUp _ node level
      have hhalf : (level.length + 2 - 1) / 2 = (level.length + 1) / 2 := by omega
      rw [@Nat.clog_of_two_le 2 level.length (by omega) (by omega), hhalf, List.length_cons,
        ih (by omega), hlength]

end Levels

/-! ## Trees along a map -/

section Maps

variable {β : Type*} {node' : β → β → β} {node} {f : β → α}
  (hf : ∀ a b, f (node' a b) = node (f a) (f b))
include hf

theorem pairUp_map : ∀ level : List β, pairUp node (level.map f) = (pairUp node' level).map f
  | [] => rfl
  | [left] => by simp [pairUp, hf]
  | left :: right :: rest => by simp [pairUp, hf, pairUp_map rest]

theorem climb_map (rounds : ℕ) :
    ∀ level : List β, climb node rounds (level.map f) = (climb node' rounds level).map f := by
  induction rounds with
  | zero => exact fun _ => rfl
  | succ rounds ih =>
    intro level
    rw [climb, climb, List.length_map, pairUp_map hf, ih]
    split <;> rfl

theorem join_map (index : ℕ) (x sibling : β) :
    join node index (f x) (f sibling) = f (join node' index x sibling) := by
  unfold join
  split <;> rw [hf]

theorem path_map (rounds : ℕ) : ∀ (level : List β) (index : ℕ) (x : β),
    path node rounds (level.map f) index (f x) =
      (path node' rounds level index x).map (Prod.map id f) := by
  induction rounds with
  | zero => exact fun _ _ _ => rfl
  | succ rounds ih =>
    intro level index x
    have hsibling : siblingOf (level.map f) index (f x) = f (siblingOf level index x) := by
      unfold siblingOf
      rw [List.getElem?_map]
      cases level[siblingIndex index]? <;> rfl
    simp only [path, List.length_map, hsibling, join_map hf, pairUp_map hf, ih]
    split <;> rfl

theorem foldPath_map (steps : List (ℕ × β)) : ∀ x : β,
    foldPath node (f x) (steps.map (Prod.map id f)) = f (foldPath node' x steps) := by
  induction steps with
  | nil => exact fun _ => rfl
  | cons step steps ih =>
    intro x
    have hstep := ih (join node' step.1 x step.2)
    rw [← join_map hf] at hstep
    exact hstep

end Maps

/-! ## Binding -/

section Binding

variable {node} (hnode : ∀ {a b c d}, node a b = node c d → a = c ∧ b = d)
include hnode

/-- A fold determines the element it starts from. -/
theorem foldPath_inj (steps : List (ℕ × α)) :
    ∀ {x y : α}, foldPath node x steps = foldPath node y steps → x = y := by
  induction steps with
  | nil => exact fun h => h
  | cons step steps ih =>
    intro x y h
    have hjoin : join node step.1 x step.2 = join node step.1 y step.2 := ih h
    unfold join at hjoin
    split at hjoin
    · exact (hnode hjoin).1
    · exact (hnode hjoin).2

omit hnode in
theorem mem_pairUp : ∀ {level : List α} {x : α}, x ∈ pairUp node level →
    ∃ left ∈ level, ∃ right ∈ level, x = node left right
  | [left], x, h => ⟨left, by simp, left, by simp, by simpa [pairUp] using h⟩
  | left :: right :: rest, x, h => by
    rw [pairUp, List.mem_cons] at h
    obtain rfl | h := h
    · exact ⟨left, by simp, right, by simp, rfl⟩
    · obtain ⟨left', hl, right', hr, hx⟩ := mem_pairUp h
      exact ⟨left', by simp [hl], right', by simp [hr], hx⟩

/-- Without repetition below, none above. -/
theorem nodup_pairUp : ∀ {level : List α}, level.Nodup → (pairUp node level).Nodup
  | [], _ => List.nodup_nil
  | [left], _ => List.nodup_singleton _
  | left :: right :: rest, h => by
    rw [List.nodup_cons, List.nodup_cons] at h
    obtain ⟨hleft, -, hrest⟩ := h
    rw [pairUp, List.nodup_cons]
    refine ⟨fun hmem => ?_, nodup_pairUp hrest⟩
    obtain ⟨left', hmem', right', -, heq⟩ := mem_pairUp hmem
    rw [(hnode heq).1] at hleft
    exact hleft (by simp [hmem'])

/-- **A level without repetition is determined by the one above it.** -/
theorem pairUp_inj : ∀ {xs ys : List α}, xs.Nodup → ys.Nodup →
    pairUp node xs = pairUp node ys → xs = ys
  | [], [], _, _, _ => rfl
  | [], [_], _, _, h | [], _ :: _ :: _, _, _, h | [_], [], _, _, h | _ :: _ :: _, [], _, _, h => by
    simp [pairUp] at h
  | [x], [y], _, _, h => by rw [(hnode (List.cons.inj h).1).1]
  | [x], y :: y' :: ys, _, hys, h => by
    -- the last pair of an odd level has equal sides, which no pair of `ys` has
    obtain ⟨hy, hy'⟩ := hnode (List.cons.inj h).1
    rw [List.nodup_cons] at hys
    exact absurd (by simp [← hy, ← hy']) hys.1
  | x :: x' :: xs, [y], hxs, _, h => by
    obtain ⟨hx, hx'⟩ := hnode (List.cons.inj h).1
    rw [List.nodup_cons] at hxs
    exact absurd (by simp [hx, hx']) hxs.1
  | x :: x' :: xs, y :: y' :: ys, hxs, hys, h => by
    obtain ⟨hhead, htail⟩ := List.cons.inj h
    obtain ⟨rfl, rfl⟩ := hnode hhead
    rw [List.nodup_cons, List.nodup_cons] at hxs hys
    rw [pairUp_inj hxs.2.2 hys.2.2 htail]

/-- The elements of a tree, by their height above the leaves. -/
inductive Height (Leaf : α → Prop) (node : α → α → α) : ℕ → α → Prop where
  | leaf {x : α} (h : Leaf x) : Height Leaf node 0 x
  | node {n : ℕ} {left : α} (right : α) (h : Height Leaf node n left) :
      Height Leaf node (n + 1) (node left right)

variable {Leaf : α → Prop} (hleaf : ∀ {a b}, ¬Leaf (node a b))
include hleaf

theorem Height.unique {n m : ℕ} {x : α} (hn : Height Leaf node n x) :
    Height Leaf node m x → n = m := by
  induction hn generalizing m with
  | @leaf x h =>
    intro hm
    cases hm with
    | leaf => rfl
    | node => exact absurd h hleaf
  | @node n left right _ ih =>
    intro hm
    generalize hx : node left right = x at hm
    cases hm with
    | leaf h => exact absurd (hx ▸ h) hleaf
    | node right' h =>
      rw [← (hnode hx).1] at h
      rw [ih h]

omit hnode hleaf in
theorem height_pairUp {n : ℕ} : ∀ {level : List α}, (∀ x ∈ level, Height Leaf node n x) →
    ∀ x ∈ pairUp node level, Height Leaf node (n + 1) x
  | [], _, x, hx => by simp [pairUp] at hx
  | [left], h, x, hx => by
    have hx : x = node left left := by simpa [pairUp] using hx
    rw [hx]
    exact .node left (h left (by simp))
  | left :: right :: rest, h, x, hx => by
    rw [pairUp, List.mem_cons] at hx
    obtain rfl | hx := hx
    · exact .node right (h left (by simp))
    · exact height_pairUp (fun y hy => h y (by simp [hy])) x hx

omit hnode hleaf in
/-- A climb is some number of levels. -/
theorem exists_iterate (rounds : ℕ) :
    ∀ level : List α, ∃ n, climb node rounds level = (pairUp node)^[n] level := by
  induction rounds with
  | zero => exact fun _ => ⟨0, rfl⟩
  | succ rounds ih =>
    intro level
    rw [climb]
    split
    · exact ⟨0, rfl⟩
    · obtain ⟨n, hn⟩ := ih (pairUp node level)
      exact ⟨n + 1, hn⟩

omit hnode hleaf in
theorem height_iterate (n : ℕ) : ∀ {m : ℕ} {level : List α}, (∀ x ∈ level, Height Leaf node m x) →
    ∀ x ∈ (pairUp node)^[n] level, Height Leaf node (m + n) x := by
  induction n with
  | zero => exact fun h => h
  | succ n ih =>
    intro m level h
    have hnext := ih (height_pairUp h)
    rwa [Nat.add_right_comm] at hnext

omit hnode hleaf in
/-- The top of leaves has some height. -/
theorem exists_height {rounds : ℕ} {level : List α} {top : α} (h : ∀ x ∈ level, Leaf x)
    (htop : climb node rounds level = [top]) : ∃ n, Height Leaf node n top := by
  obtain ⟨n, hn⟩ := @exists_iterate _ node rounds level
  rw [hn] at htop
  exact ⟨0 + n, height_iterate n (fun x hx => .leaf (h x hx)) top
    (by rw [htop]; exact List.mem_singleton_self top)⟩

omit hleaf in
theorem iterate_inj (n : ℕ) : ∀ {xs ys : List α}, xs.Nodup → ys.Nodup →
    (pairUp node)^[n] xs = (pairUp node)^[n] ys → xs = ys := by
  induction n with
  | zero => exact fun _ _ h => h
  | succ n ih =>
    intro xs ys hxs hys h
    exact pairUp_inj hnode hxs hys (ih (nodup_pairUp hnode hxs) (nodup_pairUp hnode hys) h)

/-- **Lists of leaves without repetition that climb to one top are equal.** -/
theorem climb_inj {rounds rounds' : ℕ} {xs ys : List α} {top : α} (hxs : xs.Nodup) (hys : ys.Nodup)
    (hleaves : ∀ x ∈ xs, Leaf x) (hleaves' : ∀ y ∈ ys, Leaf y)
    (h : climb node rounds xs = [top]) (h' : climb node rounds' ys = [top]) : xs = ys := by
  obtain ⟨n, hn⟩ := @exists_iterate _ node rounds xs
  obtain ⟨m, hm⟩ := @exists_iterate _ node rounds' ys
  rw [hn] at h
  rw [hm] at h'
  have htop : Height Leaf node (0 + n) top :=
    height_iterate n (fun x hx => .leaf (hleaves x hx)) top (by rw [h]; exact List.mem_singleton_self top)
  have htop' : Height Leaf node (0 + m) top :=
    height_iterate m (fun y hy => .leaf (hleaves' y hy)) top (by rw [h']; exact List.mem_singleton_self top)
  have heq : n = m := by simpa using htop.unique hnode hleaf htop'
  rw [← heq] at h'
  exact iterate_inj hnode n hxs hys (h.trans h'.symm)

end Binding

/-! ## Forged paths -/

section Forged

variable {node} {Leaf Digest : α → Prop} (hdigest : ∀ a b, Digest (node a b))
  (hleft : ∀ {a b c d}, Digest a → Digest c → node a b = node c d → a = c)
  (hright : ∀ {a b c d}, Digest b → Digest d → node a b = node c d → b = d)
  (hleaf : ∀ {a b}, ¬Leaf (node a b))

include hdigest hleft hright hleaf

/-- **A fold that arrives in the tree started from a leaf of it**, whatever siblings it took:
each of them may be anything, so a node has to tell only digests apart. -/
theorem mem_of_foldPath {level : List α} {x : α} (hlevel : ∀ y ∈ level, Leaf y ∧ Digest y)
    (hx : Leaf x ∧ Digest x) : ∀ {n : ℕ} {steps : List (ℕ × α)},
      foldPath node x steps ∈ (pairUp node)^[n] level → x ∈ level := by
  have hjoin (index : ℕ) (a b : α) : ∃ c d, join node index a b = node c d := by
    unfold join
    split
    · exact ⟨a, b, rfl⟩
    · exact ⟨b, a, rfl⟩
  have hconcat (steps : List (ℕ × α)) (step : ℕ × α) : foldPath node x (steps ++ [step]) =
      join node step.1 (foldPath node x steps) step.2 := List.foldl_append
  have hfold (steps : List (ℕ × α)) : Digest (foldPath node x steps) := by
    obtain rfl | ⟨steps, step, rfl⟩ := steps.eq_nil_or_concat'
    · exact hx.2
    · obtain ⟨c, d, hcd⟩ := hjoin step.1 (foldPath node x steps) step.2
      rw [hconcat, hcd]
      exact hdigest c d
  have hlevels (n : ℕ) : ∀ y ∈ (pairUp node)^[n] level, Digest y := by
    cases n with
    | zero => exact fun y hy => (hlevel y hy).2
    | succ n =>
      intro y hy
      rw [Function.iterate_succ_apply'] at hy
      obtain ⟨left, -, right, -, rfl⟩ := mem_pairUp hy
      exact hdigest left right
  intro n
  induction n with
  | zero =>
    intro steps h
    obtain rfl | ⟨steps, step, rfl⟩ := steps.eq_nil_or_concat'
    · exact h
    · obtain ⟨c, d, hcd⟩ := hjoin step.1 (foldPath node x steps) step.2
      rw [hconcat, hcd] at h
      exact absurd (hlevel _ h).1 hleaf
  | succ n ih =>
    intro steps h
    rw [Function.iterate_succ_apply'] at h
    obtain ⟨left, hl, right, hr, heq⟩ := mem_pairUp h
    obtain rfl | ⟨steps, step, rfl⟩ := steps.eq_nil_or_concat'
    · have hx' : x = node left right := heq
      exact absurd (hx' ▸ hx.1) hleaf
    rw [hconcat, join] at heq
    split at heq
    · rw [← hleft (hfold steps) (hlevels n _ hl) heq] at hl
      exact ih hl
    · rw [← hright (hfold steps) (hlevels n _ hr) heq] at hr
      exact ih hr

end Forged

end Protheus.Merkle
