import Mathlib

/-!
When merging replica states is a join, for any states and any merge.

1. **Joins on a set of states.**  `JoinOn merge S` is commutativity,
   associativity and idempotence for the states of `S`; `absorb` is the state a
   replica reaches from its own state by merging what it receives, in order.
   `absorb_eq_of_mem_iff`: under a join, what is absorbed depends only on which
   states were received.

2. **Selective choices.**  A merge of two values that always returns one of
   them is a tournament.  `joinOn_iff_of_selective`: it is a join exactly when
   it has no tie that the argument order decides and no cycle of three.

3. **Pointwise merges of maps.**  A merge that combines the two values of each
   key is a join on a set of maps exactly when the combination is one on the
   values the maps hold at each key (`joinOn_iff_values`), and then replicas
   converge (`converges_iff_values`).
-/

namespace Protheus.Join

variable {α : Type*} {merge : α → α → α} {S T : Set α}

/-! ## Joins on a set of states -/

/-- `merge` is a join as far as the states of `S` can tell. -/
structure JoinOn (merge : α → α → α) (S : Set α) : Prop where
  /-- The order of two states does not matter. -/
  comm : ∀ a ∈ S, ∀ b ∈ S, merge a b = merge b a
  /-- The grouping of three states does not matter. -/
  assoc : ∀ a ∈ S, ∀ b ∈ S, ∀ c ∈ S, merge (merge a b) c = merge a (merge b c)
  /-- A repeated state does not matter. -/
  idem : ∀ a ∈ S, merge a a = a

theorem JoinOn.mono (h : JoinOn merge T) (hST : S ⊆ T) : JoinOn merge S where
  comm a ha b hb := h.comm a (hST ha) b (hST hb)
  assoc a ha b hb c hc := h.assoc a (hST ha) b (hST hb) c (hST hc)
  idem a ha := h.idem a (hST ha)

/-- Merging two states of `S` stays in `S`. -/
def Closed (merge : α → α → α) (S : Set α) : Prop := ∀ a ∈ S, ∀ b ∈ S, merge a b ∈ S

/-- The state a replica reaches from `own` by merging `received` in order. -/
def absorb (merge : α → α → α) (own : α) (received : List α) : α := received.foldl merge own

/-- A closed set of states under a join is a semilattice. -/
abbrev JoinOn.semilattice (h : JoinOn merge S) (hc : Closed merge S) : SemilatticeSup S :=
  letI : Max S := ⟨fun a b => ⟨merge a b, hc a a.2 b b.2⟩⟩
  SemilatticeSup.mk'
    (fun a b => Subtype.ext (h.comm a a.2 b b.2))
    (fun a b c => Subtype.ext (h.assoc a a.2 b b.2 c c.2))
    (fun a => Subtype.ext (h.idem a a.2))

/-- A fold of `⊔` is the least bound of what it folds. -/
theorem foldl_sup_le_iff {β : Type*} [SemilatticeSup β] (l : List β) (a c : β) :
    l.foldl (· ⊔ ·) a ≤ c ↔ ∀ x ∈ a :: l, x ≤ c := by
  induction l generalizing a with
  | nil => simp
  | cons b l ih =>
    rw [List.foldl_cons, ih]
    simp only [List.forall_mem_cons, sup_le_iff, and_assoc]

theorem foldl_sup_eq_of_mem_iff {β : Type*} [SemilatticeSup β] {l l' : List β} {a b : β}
    (h : ∀ x, x ∈ a :: l ↔ x ∈ b :: l') : l.foldl (· ⊔ ·) a = l'.foldl (· ⊔ ·) b := by
  refine eq_of_forall_ge_iff fun c => ?_
  rw [foldl_sup_le_iff, foldl_sup_le_iff]
  exact ⟨fun hc x hx => hc x ((h x).mpr hx), fun hc x hx => hc x ((h x).mp hx)⟩

/-- **Convergence under a join.**  Two replicas that hold and received the same
states, in any order and any number of times, end in the same state. -/
theorem absorb_eq_of_mem_iff (h : JoinOn merge S) (hc : Closed merge S)
    {own own' : α} {received received' : List α}
    (hS : ∀ x ∈ own :: received, x ∈ S)
    (hsame : ∀ x, x ∈ own :: received ↔ x ∈ own' :: received') :
    absorb merge own received = absorb merge own' received' := by
  let _ := h.semilattice hc
  have hS' : ∀ x ∈ own' :: received', x ∈ S := fun x hx => hS x ((hsame x).mpr hx)
  -- Over the subtype the merge is `⊔`, and the fold maps down to the plain one.
  have lift : ∀ (l : List α) (a : α) (ha : a ∈ S) (hl : ∀ x ∈ l, x ∈ S),
      absorb merge a l = ((l.attachWith (· ∈ S) hl).foldl (· ⊔ ·) (⟨a, ha⟩ : S)).1 := by
    intro l
    induction l with
    | nil => intro a ha hl; rfl
    | cons b l ih =>
      intro a ha hl
      have hb : b ∈ S := hl b List.mem_cons_self
      exact ih (merge a b) (hc a ha b hb) fun x hx => hl x (List.mem_cons_of_mem _ hx)
  rw [List.forall_mem_cons] at hS hS'
  rw [lift received own hS.1 hS.2, lift received' own' hS'.1 hS'.2]
  refine congrArg Subtype.val (foldl_sup_eq_of_mem_iff fun x => ?_)
  have := hsame x.1
  simpa [Subtype.ext_iff] using this

/-- `merge` is a join on `S`, and replicas that exchange states of `S` converge. -/
structure Converges (merge : α → α → α) (S : Set α) : Prop extends JoinOn merge S where
  /-- What a replica ends with depends only on which states it holds and received. -/
  absorbs : ∀ own received own' received', (∀ x ∈ own :: received, x ∈ S) →
    (∀ x, x ∈ own :: received ↔ x ∈ own' :: received') →
    absorb merge own received = absorb merge own' received'

/-! ## Selective choices -/

section Selective

variable {ν : Type*} {pick : ν → ν → ν} {V : Set ν} {a b c : ν}

/-- The choice always returns one of its two arguments. -/
def Selective (pick : ν → ν → ν) : Prop := ∀ a b, pick a b = a ∨ pick a b = b

/-- Three values, each chosen over the next. -/
structure Cycle (pick : ν → ν → ν) (a b c : ν) : Prop where
  /-- The first is chosen over the second. -/
  fst : pick a b = a
  /-- The second is chosen over the third. -/
  snd : pick b c = b
  /-- The third is chosen over the first. -/
  thd : pick c a = c
  /-- The three are not one value. -/
  ne : a ≠ c

theorem Selective.idem (hs : Selective pick) (a : ν) : pick a a = a := (hs a a).elim id id

theorem JoinOn.not_cycle (h : JoinOn pick V) (ha : a ∈ V) (hb : b ∈ V) (hc : c ∈ V) :
    ¬ Cycle pick a b c := by
  rintro ⟨hab, hbc, hca, hne⟩
  have hac : pick a c = a := by
    have := h.assoc a ha b hb c hc
    rwa [hbc, hab] at this
  exact hne (by rw [← hac, h.comm a ha c hc, hca])

/-- A selective choice is a join exactly when it has neither a tie decided by the
argument order nor a cycle. -/
theorem joinOn_iff_of_selective (hs : Selective pick) :
    JoinOn pick V ↔ (∀ a ∈ V, ∀ b ∈ V, pick a b = pick b a) ∧
      ∀ a ∈ V, ∀ b ∈ V, ∀ c ∈ V, ¬ Cycle pick a b c := by
  refine ⟨fun h => ⟨h.comm, fun a ha b hb c hc => h.not_cycle ha hb hc⟩, ?_⟩
  rintro ⟨comm, acyclic⟩
  refine ⟨comm, fun a ha b hb c hc => ?_, fun a _ => hs.idem a⟩
  rcases hs a b with hab | hab <;> rcases hs b c with hbc | hbc <;> rw [hab, hbc]
  · -- `a` over `b` over `c`: without a cycle `a` is chosen over `c`.
    rcases hs a c with hac | hac
    · rw [hac, hab]
    · by_contra hne
      rw [hac, hab] at hne
      exact acyclic a ha b hb c hc ⟨hab, hbc, by rw [comm c hc a ha, hac], fun e => hne e.symm⟩
  · exact hab.symm
  · -- `c` over `b` over `a`: the mirror image.
    rcases hs a c with hac | hac
    · by_contra hne
      rw [hac] at hne
      exact acyclic c hc b hb a ha
        ⟨by rw [comm c hc b hb, hbc], by rw [comm b hb a ha, hab], hac, hne⟩
    · exact hac.symm

/-- The later of two values by their stamp, the first one on a tie. -/
def newer {τ : Type*} [LinearOrder τ] (stamp : ν → τ) (a b : ν) : ν :=
  if stamp a < stamp b then b else a

variable {τ : Type*} [LinearOrder τ] {stamp : ν → τ}

theorem newer_selective : Selective (newer stamp) := by
  intro a b
  unfold newer
  split
  · exact .inr rfl
  · exact .inl rfl

theorem le_of_newer_eq_left (h : newer stamp a b = a) : stamp b ≤ stamp a := by
  unfold newer at h
  split at h
  · rw [h]
  · exact not_lt.mp ‹_›

/-- Choosing the later stamp is a join exactly when a stamp names one value. -/
theorem joinOn_newer_iff :
    JoinOn (newer stamp) V ↔ ∀ a ∈ V, ∀ b ∈ V, stamp a = stamp b → a = b := by
  rw [joinOn_iff_of_selective newer_selective]
  constructor
  · rintro ⟨comm, -⟩ a ha b hb heq
    simpa [newer, heq] using comm a ha b hb
  · intro inj
    refine ⟨fun a ha b hb => ?_, fun a ha b hb c hc hcyc => ?_⟩
    · rcases lt_trichotomy (stamp a) (stamp b) with h | h | h
      · simp [newer, h, h.not_gt]
      · rw [inj a ha b hb h]
      · simp [newer, h, h.not_gt]
    · have hba := le_of_newer_eq_left hcyc.fst
      have hcb := le_of_newer_eq_left hcyc.snd
      have hac := le_of_newer_eq_left hcyc.thd
      exact hcyc.ne (inj a ha c hc (le_antisymm hac (hcb.trans hba)))

end Selective

/-! ## Pointwise merges of maps -/

section Maps

open Std (ExtTreeMap)

variable {κ ν : Type*} [Ord κ] [Std.TransOrd κ]
  {merge : ExtTreeMap κ ν → ExtTreeMap κ ν → ExtTreeMap κ ν} {pick : κ → ν → ν → ν}
  {S : Set (ExtTreeMap κ ν)}

/-- The merge of two maps combines the two values of a key with `pick` and keeps
a value that only one of them holds. -/
def Pointwise (merge : ExtTreeMap κ ν → ExtTreeMap κ ν → ExtTreeMap κ ν)
    (pick : κ → ν → ν → ν) : Prop :=
  ∀ a b k, (merge a b)[k]? = Option.merge (pick k) a[k]? b[k]?

/-- The values some map of `S` holds at `k`. -/
def valuesAt (S : Set (ExtTreeMap κ ν)) (k : κ) : Set ν := {v | ∃ m ∈ S, m[k]? = some v}

/-- The maps every value of which some map of `S` holds at the same key. -/
def spanned (S : Set (ExtTreeMap κ ν)) : Set (ExtTreeMap κ ν) :=
  {m | ∀ k v, m[k]? = some v → v ∈ valuesAt S k}

theorem subset_spanned : S ⊆ spanned S := fun m hm _ _ hv => ⟨m, hm, hv⟩

theorem valuesAt_spanned_subset (k : κ) : valuesAt (spanned S) k ⊆ valuesAt S k := by
  rintro v ⟨m, hm, hv⟩
  exact hm k v hv

/-- A selective merge invents no value. -/
theorem closed_spanned (hp : Pointwise merge pick) (hs : ∀ k, Selective (pick k)) :
    Closed merge (spanned S) := by
  intro m hm n hn k v hv
  rw [hp m n] at hv
  cases hmk : m[k]? with
  | none => exact hn k v (by simpa [hmk] using hv)
  | some a =>
    cases hnk : n[k]? with
    | none => exact hm k v (by simpa [hmk, hnk] using hv)
    | some b =>
      have hpick : pick k a b = v := by simpa [hmk, hnk] using hv
      rcases hs k a b with h | h
      · exact hm k v (by rw [hmk, ← hpick, h])
      · exact hn k v (by rw [hnk, ← hpick, h])

variable [Std.LawfulEqOrd κ]

theorem joinOn_iff_values (hp : Pointwise merge pick) :
    JoinOn merge S ↔ ∀ k, JoinOn (pick k) (valuesAt S k) := by
  constructor
  · intro h k
    refine ⟨?_, ?_, ?_⟩
    · rintro a ⟨m, hm, ha⟩ b ⟨n, hn, hb⟩
      have := congrArg (·[k]?) (h.comm m hm n hn)
      simpa [hp m n, hp n m, ha, hb] using this
    · rintro a ⟨m, hm, ha⟩ b ⟨n, hn, hb⟩ c ⟨o, ho, hc⟩
      have := congrArg (·[k]?) (h.assoc m hm n hn o ho)
      simpa [hp _ o, hp m _, hp n o, ha, hb, hc] using this
    · rintro a ⟨m, hm, ha⟩
      have := congrArg (·[k]?) (h.idem m hm)
      simpa [hp m m, ha] using this
  · intro h
    refine ⟨fun m hm n hn => ?_, fun m hm n hn o ho => ?_, fun m hm => ?_⟩
    · refine ExtTreeMap.ext_getElem? fun {k} => ?_
      rw [hp m n, hp n m]
      cases hmk : m[k]? with
      | none => simp
      | some a =>
        cases hnk : n[k]? with
        | none => simp
        | some b => simpa using (h k).comm a ⟨m, hm, hmk⟩ b ⟨n, hn, hnk⟩
    · refine ExtTreeMap.ext_getElem? fun {k} => ?_
      rw [hp _ o, hp m n, hp m _, hp n o]
      cases hmk : m[k]? with
      | none => simp
      | some a =>
        cases hnk : n[k]? with
        | none => simp
        | some b =>
          cases hok : o[k]? with
          | none => simp
          | some c => simpa using (h k).assoc a ⟨m, hm, hmk⟩ b ⟨n, hn, hnk⟩ c ⟨o, ho, hok⟩
    · refine ExtTreeMap.ext_getElem? fun {k} => ?_
      rw [hp m m]
      cases hmk : m[k]? with
      | none => rfl
      | some a => simpa using (h k).idem a ⟨m, hm, hmk⟩

/-- **Convergence, key by key.**  Replicas merging maps pointwise and selectively
converge on `S` exactly when the choice is a join on the values at every key. -/
theorem converges_iff_values (hp : Pointwise merge pick) (hs : ∀ k, Selective (pick k)) :
    Converges merge S ↔ ∀ k, JoinOn (pick k) (valuesAt S k) := by
  refine ⟨fun h => (joinOn_iff_values hp).mp h.toJoinOn, fun h => ?_⟩
  have hspan : JoinOn merge (spanned S) :=
    (joinOn_iff_values hp).mpr fun k => (h k).mono (valuesAt_spanned_subset k)
  refine ⟨hspan.mono subset_spanned, fun own received own' received' hS hsame => ?_⟩
  exact absorb_eq_of_mem_iff hspan (closed_spanned hp hs)
    (fun x hx => subset_spanned (hS x hx)) hsame

end Maps

/-! ## Loops that touch each key once -/

section Loops

variable {σ ε κ β : Type*} {step : σ → ε → σ} (look : σ → κ → β) (keyOf : ε → κ)

/-- A loop leaves every key alone that none of its entries names. -/
theorem look_foldl_of_not_mem (hother : ∀ s e k, keyOf e ≠ k → look (step s e) k = look s k)
    {k : κ} : ∀ (entries : List ε) (s : σ), (∀ e ∈ entries, keyOf e ≠ k) →
      look (entries.foldl step s) k = look s k
  | [], _, _ => rfl
  | e :: entries, s, hk => by
    rw [List.foldl_cons, look_foldl_of_not_mem hother entries _ fun x hx => hk x (.tail _ hx),
      hother s e k (hk e List.mem_cons_self)]

/-- Where the keys of the entries are distinct, each entry acts on what stood at
its key before the loop. -/
theorem look_foldl_of_mem {g : β → ε → β}
    (hsame : ∀ s e, look (step s e) (keyOf e) = g (look s (keyOf e)) e)
    (hother : ∀ s e k, keyOf e ≠ k → look (step s e) k = look s k) :
    ∀ (entries : List ε) (s : σ), entries.Pairwise (fun x y => keyOf x ≠ keyOf y) →
      ∀ e ∈ entries, look (entries.foldl step s) (keyOf e) = g (look s (keyOf e)) e
  | [], _, _, _, he => absurd he List.not_mem_nil
  | x :: entries, s, hd, e, he => by
    obtain ⟨hx, htail⟩ := List.pairwise_cons.mp hd
    rw [List.foldl_cons]
    rcases List.mem_cons.mp he with rfl | he'
    · rw [look_foldl_of_not_mem look keyOf hother entries _ fun y hy => (hx y hy).symm, hsame]
    · rw [look_foldl_of_mem hsame hother entries _ htail e he', hother s x _ (hx e he')]

open Std (ExtTreeMap)

variable [Ord κ] [Std.TransOrd κ] [Std.LawfulEqOrd κ] {ν : Type*}

/-- A loop over the entries of a map, each of which rewrites its own key only. -/
theorem getElem?_foldl {f : ExtTreeMap κ ν → κ → ν → ExtTreeMap κ ν} {g : Option ν → ν → Option ν}
    (hsame : ∀ out k v, (f out k v)[k]? = g out[k]? v)
    (hother : ∀ out k v k', k ≠ k' → (f out k v)[k']? = out[k']?)
    (left right : ExtTreeMap κ ν) (k : κ) :
    (right.foldl f left)[k]? = match right[k]? with
      | none => left[k]?
      | some v => g left[k]? v := by
  rw [ExtTreeMap.foldl_eq_foldl_toList]
  cases hr : right[k]? with
  | none =>
    refine look_foldl_of_not_mem (fun (m : ExtTreeMap κ ν) k => m[k]?) Prod.fst
      (fun s e k' => hother s e.1 e.2 k') _ left ?_
    rintro ⟨k', v⟩ he rfl
    rw [ExtTreeMap.mem_toList_iff_getElem?_eq_some, hr] at he
    cases he
  | some v =>
    have hdistinct : right.toList.Pairwise (fun x y => x.1 ≠ y.1) :=
      ExtTreeMap.distinct_keys_toList.imp fun h e => h (Std.LawfulEqOrd.compare_eq_iff_eq.mpr e)
    exact look_foldl_of_mem (fun (m : ExtTreeMap κ ν) k => m[k]?) Prod.fst
      (g := fun old e => g old e.2) (fun s e => hsame s e.1 e.2) (fun s e k' => hother s e.1 e.2 k') _ left hdistinct (k, v)
      (ExtTreeMap.mem_toList_iff_getElem?_eq_some.mpr hr)

end Loops

end Protheus.Join
