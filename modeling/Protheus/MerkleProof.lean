import Protheus.Lib.Merkle
import Protheus.V8Kernel

/-!
What the Merkle functions of `v8_kernel.rs` are worth.

A root binds its leaves as long as no leaf is repeated (`deterministicMerkleRoot_inj`),
and the proof of a leaf leads back to the root (`foldProof_merkleProof`), from that
leaf only (`foldProof_inj`).
-/

namespace Protheus.V8Kernel

variable (host : Host)

def leafHash (leaf : String) : String := host.sha256HexStr ("leaf:" ++ leaf)

/-- The hash of two nodes. -/
def nodeHash (left right : String) : String :=
  host.sha256HexStr ("node:" ++ left ++ ":" ++ right)

/-! ## Proofs -/

/-- A row of the proof `merkle_proof` gives. -/
structure ProofRow where
  levelSize : ℕ
  index : ℕ
  siblingIndex : ℕ
  siblingHash : String

/-- The loop of `merkle_proof`, for at most so many rounds. -/
def proofRows : ℕ → List String → ℕ → List ProofRow
  | 0, _, _ => []
  | rounds + 1, level, index =>
    if level.length ≤ 1 then []
    else
      let siblingIndex := if index % 2 = 0 then index + 1 else index - 1
      { levelSize := level.length
        index
        siblingIndex := min siblingIndex (level.length - 1)
        siblingHash := level[siblingIndex]?.getD (level[index]?.getD "") } ::
        proofRows rounds (pairUp host level) (index / 2)

/-- `merkle_proof`. -/
def merkleProof (leaves : List String) (index : ℕ) : List ProofRow :=
  if leaves.isEmpty || decide (leaves.length ≤ index) then []
  else proofRows host leaves.length (leaves.map (leafHash host)) index

/-- The fold of a proof from a leaf: the side of a sibling is the parity of the index. -/
def foldProof (leaf : String) (proof : List ProofRow) : String :=
  proof.foldl (fun hash row =>
    if row.index % 2 = 0 then nodeHash host hash row.siblingHash
    else nodeHash host row.siblingHash hash) (leafHash host leaf)

/-! ## The tree -/

theorem pairUp_eq : ∀ level : List String, pairUp host level = Merkle.pairUp (nodeHash host) level
  | [] => rfl
  | [_] => rfl
  | left :: right :: rest => by
    rw [pairUp, pairUp_eq rest]
    rfl

theorem climb_eq (rounds : ℕ) :
    ∀ level : List String, climb host rounds level = Merkle.climb (nodeHash host) rounds level := by
  induction rounds with
  | zero => exact fun _ => rfl
  | succ rounds ih =>
    intro level
    rw [climb, Merkle.climb, pairUp_eq, ih]

/-- What the fold needs of a row. -/
def ProofRow.step (row : ProofRow) : ℕ × String := (row.index, row.siblingHash)

theorem proofRows_eq (rounds : ℕ) : ∀ {level : List String} {index : ℕ} {x : String},
    level[index]? = some x →
    (proofRows host rounds level index).map ProofRow.step =
      Merkle.path (nodeHash host) rounds level index x := by
  induction rounds with
  | zero => exact fun _ => rfl
  | succ rounds ih =>
    intro level index x hx
    rw [proofRows, Merkle.path]
    split
    · rfl
    · have hnext := @Merkle.getElem?_pairUp _ (nodeHash host) level index _ hx
      rw [← pairUp_eq] at hnext
      rw [List.map_cons, ih hnext, ← pairUp_eq, hx, Option.getD_some]
      rfl

theorem foldProof_eq (leaf : String) (proof : List ProofRow) :
    foldProof host leaf proof =
      Merkle.foldPath (nodeHash host) (leafHash host leaf) (proof.map ProofRow.step) := by
  rw [foldProof, Merkle.foldPath, List.foldl_map]
  rfl

/-- The top of a tree with leaves. -/
theorem climb_leaves {leaves : List String} (hne : leaves ≠ []) :
    climb host leaves.length (leaves.map (leafHash host)) = [deterministicMerkleRoot host leaves] := by
  have hlength : (climb host leaves.length (leaves.map (leafHash host))).length = 1 :=
    length_climb host (by simpa using hne) (by simp)
  obtain ⟨top, htop⟩ := List.length_eq_one_iff.mp hlength
  have hempty : leaves.isEmpty = false := by simpa using hne
  have hsame : (leaves.map fun leaf => host.sha256HexStr ("leaf:" ++ leaf)) =
      leaves.map (leafHash host) := rfl
  rw [deterministicMerkleRoot, hempty, if_neg (by simp), hsame, htop]
  rfl

/-- **The proof of a leaf leads to the root.** -/
theorem foldProof_merkleProof {leaves : List String} {index : ℕ} {leaf : String}
    (h : leaves[index]? = some leaf) :
    foldProof host leaf (merkleProof host leaves index) = deterministicMerkleRoot host leaves := by
  obtain ⟨hindex, -⟩ := List.getElem?_eq_some_iff.mp h
  have hne : leaves ≠ [] := by
    rintro rfl
    simp at hindex
  have hleaf : (leaves.map (leafHash host))[index]? = some (leafHash host leaf) := by simp [h]
  have htop := climb_leaves host hne
  rw [climb_eq, Merkle.foldPath_path hleaf (by simp)] at htop
  rw [merkleProof, if_neg (by simpa using ⟨hne, hindex⟩), foldProof_eq, proofRows_eq host _ hleaf]
  exact (List.cons.inj htop).1

/-- **Every leaf has a proof, with a step for each level below the root.** -/
theorem merkleProof_complete {leaves : List String} {index : ℕ} (hindex : index < leaves.length) :
    foldProof host leaves[index] (merkleProof host leaves index) =
        deterministicMerkleRoot host leaves ∧
      (merkleProof host leaves index).length = Nat.clog 2 leaves.length := by
  have hleaf : leaves[index]? = some leaves[index] := List.getElem?_eq_getElem hindex
  refine ⟨foldProof_merkleProof host hleaf, ?_⟩
  have hne : leaves ≠ [] := List.length_pos_iff.mp (Nat.zero_lt_of_lt hindex)
  have hhash : (leaves.map (leafHash host))[index]? = some (leafHash host leaves[index]) := by
    rw [List.getElem?_map, hleaf, Option.map_some]
  have hrows := congrArg List.length (proofRows_eq host leaves.length hhash)
  rw [List.length_map, Merkle.length_path (by simp), List.length_map] at hrows
  rw [merkleProof, if_neg (by simpa using ⟨hne, hindex⟩), hrows]

/-- The proof of the last of three leaves, which is its own sibling once. -/
theorem merkleProof_complete_odd :
    foldProof plainHost "c" (merkleProof plainHost ["a", "b", "c"] 2) =
        deterministicMerkleRoot plainHost ["a", "b", "c"] ∧
      (merkleProof plainHost ["a", "b", "c"] 2).length = Nat.clog 2 3 :=
  @merkleProof_complete plainHost ["a", "b", "c"] 2 (by decide)

/-! ## Binding -/

section Binding

variable {host} (hinj : Function.Injective host.sha256HexStr) (hhex : ∀ s, IsHex (host.sha256HexStr s))
include hinj

theorem leafHash_injective : Function.Injective (leafHash host) :=
  fun _ _ h => String.append_right_inj _ |>.mp (hinj h)

omit hinj in
theorem IsHex.colon_notMem {s : String} (hs : IsHex s) : ':' ∉ s.toList := by
  intro hmem
  have := hs.2 ':' hmem
  simp [isHexDigit] at this

/-- Hashes of words without a colon tell the two apart. -/
theorem nodeHash_inj {a b c d : String} (ha : IsHex a) (hc : IsHex c)
    (h : nodeHash host a b = nodeHash host c d) : a = c ∧ b = d := by
  have htext := congrArg String.toList (hinj h)
  simp only [String.toList_append, List.append_assoc, List.append_cancel_left_eq] at htext
  have hcut := RustStd.append_cons_inj ha.colon_notMem hc.colon_notMem htext
  exact ⟨String.toList_injective hcut.1, String.toList_injective hcut.2⟩

theorem leafHash_ne_nodeHash (leaf left right : String) : leafHash host leaf ≠ nodeHash host left right := by
  intro h
  have htext := congrArg String.toList (hinj h)
  simp at htext

/-- A digest. -/
abbrev Hex := { s : String // IsHex s }

omit hinj

/-- A leaf's hash, as a digest. -/
def hexLeaf (leaf : String) : Hex := ⟨leafHash host leaf, hhex _⟩

/-- The hash of two digests. -/
def hexNode (left right : Hex) : Hex := ⟨nodeHash host left.1 right.1, hhex _⟩

/-- What leaves hash to. -/
def IsLeaf (x : Hex) : Prop := ∃ leaf, x = hexLeaf hhex leaf

include hinj

theorem hexNode_inj {a b c d : Hex} (h : hexNode hhex a b = hexNode hhex c d) : a = c ∧ b = d := by
  obtain ⟨hac, hbd⟩ := nodeHash_inj hinj a.2 c.2 (congrArg Subtype.val h)
  exact ⟨Subtype.ext hac, Subtype.ext hbd⟩

theorem not_isLeaf_hexNode {a b : Hex} : ¬IsLeaf hhex (hexNode hhex a b) := by
  rintro ⟨leaf, h⟩
  exact leafHash_ne_nodeHash hinj leaf a.1 b.1 (congrArg Subtype.val h).symm

omit hinj in
theorem map_leafHash (leaves : List String) :
    leaves.map (leafHash host) = (leaves.map (hexLeaf hhex)).map Subtype.val := by
  rw [List.map_map]
  rfl

omit hinj in
theorem hexNode_val (a b : Hex) : (hexNode hhex a b).1 = nodeHash host a.1 b.1 := rfl

omit hinj in
theorem isLeaf_of_mem {leaves : List String} : ∀ x ∈ leaves.map (hexLeaf hhex), IsLeaf hhex x := by
  intro x hx
  obtain ⟨leaf, -, rfl⟩ := List.mem_map.mp hx
  exact ⟨leaf, rfl⟩

omit hinj in
/-- The root is the top of the tree over the digests of the leaves. -/
theorem exists_top {leaves : List String} (hne : leaves ≠ []) : ∃ top : Hex,
    Merkle.climb (hexNode hhex) leaves.length (leaves.map (hexLeaf hhex)) = [top] ∧
      deterministicMerkleRoot host leaves = top.1 := by
  have hclimb := climb_leaves host hne
  rw [climb_eq, map_leafHash hhex, Merkle.climb_map (hexNode_val hhex)] at hclimb
  obtain ⟨top, htop, hroot⟩ := List.map_eq_singleton_iff.mp hclimb
  exact ⟨top, htop, hroot.symm⟩

include hhex

theorem deterministicMerkleRoot_ne_empty {leaves : List String} (hne : leaves ≠ []) :
    deterministicMerkleRoot host leaves ≠ deterministicMerkleRoot host [] := by
  obtain ⟨top, htop, hroot⟩ := exists_top hhex hne
  obtain ⟨n, hheight⟩ := Merkle.exists_height (isLeaf_of_mem hhex) htop
  rw [hroot]
  intro h
  cases hheight with
  | leaf hleaf =>
    obtain ⟨leaf, rfl⟩ := hleaf
    have htext := congrArg String.toList (hinj h)
    simp at htext
  | node right hleft =>
    have htext := congrArg String.toList (hinj h)
    simp at htext

/-- **The root binds the leaves.** -/
theorem deterministicMerkleRoot_inj {leaves leaves' : List String} (h : leaves.Nodup)
    (h' : leaves'.Nodup)
    (hroot : deterministicMerkleRoot host leaves = deterministicMerkleRoot host leaves') :
    leaves = leaves' := by
  have hdigests : Function.Injective (hexLeaf hhex) := fun _ _ heq =>
    leafHash_injective hinj (congrArg Subtype.val heq)
  by_cases hne : leaves = []
  · by_cases hne' : leaves' = []
    · rw [hne, hne']
    · rw [hne] at hroot
      exact absurd hroot.symm (deterministicMerkleRoot_ne_empty hinj hhex hne')
  · by_cases hne' : leaves' = []
    · rw [hne'] at hroot
      exact absurd hroot (deterministicMerkleRoot_ne_empty hinj hhex hne)
    · obtain ⟨top, htop, hroot₁⟩ := exists_top hhex hne
      obtain ⟨top', htop', hroot₂⟩ := exists_top hhex hne'
      have heq : top = top' := Subtype.ext (hroot₁.symm.trans (hroot.trans hroot₂))
      rw [← heq] at htop'
      have hmap := Merkle.climb_inj (hexNode_inj hinj hhex) (not_isLeaf_hexNode hinj hhex)
        (h.map hdigests) (h'.map hdigests) (isLeaf_of_mem hhex) (isLeaf_of_mem hhex) htop htop'
      exact (List.map_injective_iff.mpr hdigests) hmap

/-- A proof leads to the root from one leaf only. -/
theorem foldProof_inj {leaves : List String} {index : ℕ} (hindex : index < leaves.length)
    {leaf leaf' : String}
    (h : foldProof host leaf (merkleProof host leaves index) =
      foldProof host leaf' (merkleProof host leaves index)) : leaf = leaf' := by
  have hne : leaves ≠ [] := by
    rintro rfl
    simp at hindex
  have hat : (leaves.map (leafHash host))[index]? = some (leafHash host leaves[index]) := by
    simp [hindex]
  have hfold (leaf : String) : foldProof host leaf (merkleProof host leaves index) =
      (Merkle.foldPath (hexNode hhex) (hexLeaf hhex leaf) (Merkle.path (hexNode hhex) leaves.length
        (leaves.map (hexLeaf hhex)) index (hexLeaf hhex leaves[index]))).1 := by
    rw [← Merkle.foldPath_map (hexNode_val hhex), ← Merkle.path_map (hexNode_val hhex),
      ← map_leafHash, foldProof_eq, merkleProof, if_neg (by simpa using ⟨hne, hindex⟩),
      proofRows_eq host _ hat]
    rfl
  rw [hfold, hfold] at h
  have hstart := Merkle.foldPath_inj (hexNode_inj hinj hhex) _ (Subtype.ext h)
  exact leafHash_injective hinj (congrArg Subtype.val hstart)

/-- Where an entry that is not there falls back to the first leaf, the proof leads to the
root from a leaf and from nothing else. -/
theorem foldProof_findIdx_iff {leaves : List String} (hne : leaves ≠ []) (entry : String) :
    foldProof host entry (merkleProof host leaves ((leaves.findIdx? (· == entry)).getD 0)) =
      deterministicMerkleRoot host leaves ↔ entry ∈ leaves := by
  constructor
  · intro hfold
    by_contra hmem
    have hnone : leaves.findIdx? (· == entry) = none := by
      rw [List.findIdx?_eq_none_iff]
      intro leaf hleaf
      exact beq_eq_false_iff_ne.mpr fun heq => hmem (heq ▸ hleaf)
    have hpos := List.length_pos_iff.mpr hne
    have hfirst := foldProof_merkleProof host (List.getElem?_eq_getElem hpos)
    rw [hnone, Option.getD_none, ← hfirst] at hfold
    exact hmem (foldProof_inj hinj hhex hpos hfold ▸ List.getElem_mem hpos)
  · intro hmem
    have hsome : (leaves.findIdx? (· == entry)).isSome = true := by
      rw [List.findIdx?_isSome, List.any_eq_true]
      exact ⟨entry, hmem, beq_self_eq_true entry⟩
    obtain ⟨index, hindex⟩ := Option.isSome_iff_exists.mp hsome
    obtain ⟨hlt, hfound, -⟩ := List.findIdx?_eq_some_iff_getElem.mp hindex
    refine foldProof_merkleProof host ?_
    rw [hindex, Option.getD_some, List.getElem?_eq_getElem hlt, eq_of_beq hfound]

omit hhex in
theorem nodeHash_inj_right {a b c d : String} (hb : IsHex b) (hd : IsHex d)
    (h : nodeHash host a b = nodeHash host c d) : b = d := by
  have htext := congrArg String.toList (hinj h)
  simp only [String.toList_append, List.append_assoc, List.append_cancel_left_eq] at htext
  exact String.toList_injective (RustStd.append_cons_inj_last hb.colon_notMem hd.colon_notMem htext).2

/-- **There is a proof of a leaf exactly where it is one of the leaves**: from no other text do any
rows lead to the root. -/
theorem exists_foldProof_iff (leaves : List String) (leaf : String) :
    (∃ proof, foldProof host leaf proof = deterministicMerkleRoot host leaves) ↔ leaf ∈ leaves := by
  constructor
  · rintro ⟨proof, hproof⟩
    rw [foldProof_eq] at hproof
    by_cases hne : leaves = []
    · rw [hne] at hproof
      obtain hnil | ⟨steps, step, hsteps⟩ := (proof.map ProofRow.step).eq_nil_or_concat'
      · rw [hnil] at hproof
        have htext := congrArg String.toList (hinj hproof)
        simp at htext
      · rw [hsteps, Merkle.foldPath, List.foldl_append, List.foldl_cons, List.foldl_nil, Merkle.join] at hproof
        split at hproof
        all_goals
          have htext := congrArg String.toList (hinj hproof)
          simp at htext
    · obtain ⟨n, hn⟩ := @Merkle.exists_iterate _ (nodeHash host) leaves.length (leaves.map (leafHash host))
      have htop := climb_leaves host hne
      rw [climb_eq, hn] at htop
      have hlevel : ∀ y ∈ leaves.map (leafHash host), (∃ leaf, y = leafHash host leaf) ∧ IsHex y := by
        intro y hy
        obtain ⟨leaf, -, rfl⟩ := List.mem_map.mp hy
        exact ⟨⟨leaf, rfl⟩, hhex _⟩
      have hmem := @Merkle.mem_of_foldPath _ (nodeHash host) _ IsHex (fun _ _ => hhex _)
        (fun ha hc h => (nodeHash_inj hinj ha hc h).1) (nodeHash_inj_right hinj)
        (by rintro _ _ ⟨leaf, h⟩; exact leafHash_ne_nodeHash hinj leaf _ _ h.symm) _ _ hlevel ⟨⟨leaf, rfl⟩, hhex _⟩ n
        (proof.map ProofRow.step) (by rw [htop, hproof]; exact List.mem_singleton_self _)
      obtain ⟨other, hother, hsame⟩ := List.mem_map.mp hmem
      exact leafHash_injective hinj hsame ▸ hother
  · intro hmem
    obtain ⟨index, hindex⟩ := List.mem_iff_getElem?.mp hmem
    exact ⟨_, foldProof_merkleProof host hindex⟩

end Binding

theorem exists_foldProof_iff_plain :
    ¬∃ proof, foldProof plainHost "d" proof = deterministicMerkleRoot plainHost ["a", "b", "c"] :=
  fun h => absurd ((exists_foldProof_iff hexText_injective isHex_hexText ["a", "b", "c"] "d").mp h) (by decide)

theorem deterministicMerkleRoot_inj_plain : ["a", "b", "c"] = ["a", "b"] ++ ["c"] :=
  @deterministicMerkleRoot_inj plainHost hexText_injective isHex_hexText _ _ (by decide) (by decide) rfl

end Protheus.V8Kernel
