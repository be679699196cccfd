import Protheus.MerkleProof
import Protheus.Network.TokenLedger

/-!
The `merkle-root` command of `network_protocol_run.rs`: the root over the ledger, and a
proof that an account's balance is in it.

The proof is good for the accounts the ledger has.  For any other account the command
makes up the leaf of a zero balance, does not find it among the leaves, and answers
with the proof of the first one (`inclusion_valid_iff`).
-/

namespace Protheus.Network.TokenLedger

open V8Kernel

structure MerkleFlags where
  account : Option String := none
  proof : Option String := none

structure MerkleAnswer where
  globalMerkleRoot : String
  policyHash : String
  leafCount : ℕ
  inclusionLeaf : Option String
  inclusionProof : List ProofRow
  rootProgressionHead : Json

/-- The leaf of an account, of a zero balance if the ledger does not have it. -/
def balanceLeaf (host : Host) (ledger : Map) (account : String) : String :=
  "balance:" ++ account ++ ":" ++
    host.fixed 8 (.finite ((((mapMut ledger "balances").lookup account).bind Json.asF64).getD 0))

/-- The command, behind its gate; `none` is the answer of a closed one. -/
def merkleRoot (host : Host) (gateOk : Bool) (ledger : Map) (policyHash : String)
    (flags : MerkleFlags) : Option MerkleAnswer :=
  if !gateOk then none
  else
    let account := clean (flags.account.getD "") 120
    let proofRequested := parseBool flags.proof true
    let leaves := leavesForRoot host ledger policyHash
    let entry := balanceLeaf host ledger account
    let index := (leaves.findIdx? (· == entry)).getD 0
    let asked := proofRequested && !account.isEmpty
    some
      { globalMerkleRoot := deterministicMerkleRoot host.toHost leaves
        policyHash
        leafCount := leaves.length
        inclusionLeaf := if asked then some entry else none
        inclusionProof := if asked then merkleProof host.toHost leaves index else []
        rootProgressionHead := (ledger.lookup "root_head").getD .null }

section Leaves

variable {host : Host} {ledger : Map} {policyHash account : String}

theorem leavesForRoot_ne_nil : leavesForRoot host ledger policyHash ≠ [] := by
  intro h
  have hlength := congrArg List.length h
  simp [leavesForRoot] at hlength

/-- The leaves are those of the balances, of the stakes, and three more. -/
theorem mem_leavesForRoot {leaf : String} : leaf ∈ leavesForRoot host ledger policyHash ↔
    leaf ∈ amountLeaves host "balance" (mapMut ledger "balances") ∨
      leaf ∈ amountLeaves host "staked" (mapMut ledger "staked") ∨
      leaf = "event_head:" ++ headOf ledger "event_head" ∨
      leaf = "height:" ++ toString (heightOf ledger).toNat ∨ leaf = "policy:" ++ policyHash := by
  simp only [leavesForRoot, List.mem_insertionSort, List.mem_append, List.mem_cons,
    List.not_mem_nil, or_false, or_assoc]

theorem balanceLeaf_mem_iff (hfixed : ∀ x, ':' ∉ (host.fixed 8 x).toList) :
    balanceLeaf host ledger account ∈ leavesForRoot host ledger policyHash ↔
      ((mapMut ledger "balances").lookup account).isSome = true := by
  rw [mem_leavesForRoot, List.lookup_isSome_iff]
  -- the other leaves start with other letters
  have hother {leaf : String} (hfirst : leaf.toList.head? ≠ some 'b') :
      leaf ≠ balanceLeaf host ledger account := by
    rintro rfl
    simp [balanceLeaf] at hfirst
  constructor
  · rintro (hmem | hmem | hleaf | hleaf | hleaf)
    · obtain ⟨entry, hentry, hleaf⟩ := List.mem_map.mp hmem
      have htext := congrArg String.toList hleaf
      have hlabel : "balance:".toList = "balance".toList ++ ":".toList := rfl
      simp only [balanceLeaf, String.toList_append, List.append_assoc, hlabel,
        List.append_cancel_left_eq] at htext
      have hcut := RustStd.append_cons_inj_last (hfixed _) (hfixed _) htext
      exact ⟨entry, hentry, by simp [String.toList_injective hcut.1]⟩
    · obtain ⟨entry, -, hleaf⟩ := List.mem_map.mp hmem
      exact absurd hleaf (hother (by simp))
    · exact absurd hleaf.symm (hother (by simp))
    · exact absurd hleaf.symm (hother (by simp))
    · exact absurd hleaf.symm (hother (by simp))
  · rintro ⟨entry, hentry, hname⟩
    have hsome : ((mapMut ledger "balances").lookup account).isSome = true :=
      List.lookup_isSome_iff.mpr ⟨entry, hentry, hname⟩
    obtain ⟨value, hvalue⟩ := Option.isSome_iff_exists.mp hsome
    obtain ⟨before, after, hsplit, -⟩ := List.lookup_eq_some_iff.mp hvalue
    refine .inl (List.mem_map.mpr ⟨(account, value), by simp [hsplit], ?_⟩)
    simp only [balanceLeaf, hvalue, Option.bind_some]
    rfl

end Leaves

/-- **A proof is good exactly when the ledger has the account.** -/
theorem inclusion_valid_iff (host : Host) (hinj : Function.Injective host.sha256HexStr)
    (hhex : ∀ s, IsHex (host.sha256HexStr s)) (hfixed : ∀ x, ':' ∉ (host.fixed 8 x).toList)
    (gateOk : Bool) (ledger : Map) (policyHash : String) (flags : MerkleFlags)
    {answer : MerkleAnswer} (h : merkleRoot host gateOk ledger policyHash flags = some answer)
    {leaf : String} (hleaf : answer.inclusionLeaf = some leaf) :
    foldProof host.toHost leaf answer.inclusionProof = answer.globalMerkleRoot ↔
      ((mapMut ledger "balances").lookup (clean (flags.account.getD "") 120)).isSome = true := by
  unfold merkleRoot at h
  split at h
  · cases h
  · dsimp only at h
    cases h
    dsimp only at hleaf ⊢
    split at hleaf
    case isFalse => cases hleaf
    case isTrue hasked =>
      cases hleaf
      rw [if_pos hasked, ← @balanceLeaf_mem_iff host ledger policyHash _ hfixed]
      exact foldProof_findIdx_iff hinj hhex leavesForRoot_ne_nil _

/-! ### A ledger with one account -/

def zeroHost : Host := { plainHost with
  fixed := fun digits _ => String.ofList ('0' :: '.' :: List.replicate digits '0') }

def aliceLedger : Map := [("balances", .obj [("alice", Json.ofNat 0)])]

theorem zeroHost_fixed (x : F64) : ':' ∉ (zeroHost.fixed 8 x).toList := by
  have htext : zeroHost.fixed 8 x = "0.00000000" := rfl
  rw [htext]
  decide

theorem inclusion_valid_alice : ∃ answer leaf,
    merkleRoot zeroHost true aliceLedger "p" { account := some "alice" } = some answer ∧
      answer.inclusionLeaf = some leaf ∧
      (foldProof zeroHost.toHost leaf answer.inclusionProof = answer.globalMerkleRoot ↔
        ((mapMut aliceLedger "balances").lookup (clean "alice" 120)).isSome = true) :=
  ⟨_, _, rfl, rfl, inclusion_valid_iff zeroHost hexText_injective isHex_hexText zeroHost_fixed true
    aliceLedger "p" { account := some "alice" } rfl rfl⟩

/-- An account that the ledger does not have gets the proof of another leaf. -/
theorem inclusion_invalid_bob : ∃ answer leaf,
    merkleRoot zeroHost true aliceLedger "p" { account := some "bob" } = some answer ∧
      answer.inclusionLeaf = some leaf ∧
      foldProof zeroHost.toHost leaf answer.inclusionProof ≠ answer.globalMerkleRoot := by
  refine ⟨_, balanceLeaf zeroHost aliceLedger "bob", rfl, by decide, fun hfold => ?_⟩
  have hmem := (@foldProof_findIdx_iff zeroHost.toHost hexText_injective isHex_hexText _
    (@leavesForRoot_ne_nil zeroHost aliceLedger "p") (balanceLeaf zeroHost aliceLedger "bob")).mp hfold
  rw [balanceLeaf_mem_iff zeroHost_fixed] at hmem
  revert hmem
  decide

end Protheus.Network.TokenLedger
