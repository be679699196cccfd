import Mathlib
import Protheus.Lib.Runs

/-!
A ledger of allowances that parties spend from and reserve for one another.

A party may have an account with a limit.  It spends from the account, noting what it
spent on, and it backs dependants: a dependant's whole allowance is reserved in the account of its
backer, in one entry under the dependant's name, until the dependant is settled;
then the entry goes and what the dependant spent is charged to the backer.

`Balanced` is what makes such a ledger add up: no account promises more than its
limit, its reserved total is the sum of its entries, and the entries are exactly
the stakes of its unsettled dependants.  `Allowed` says which actions a balanced
ledger stands; each keeps it balanced (`Balanced.act`).  Settling is final when
nothing moves on a settled account any more and nothing is noted that is not spent
(`Careful`): then every charge is what its dependant spent (`Squared`), and a party
and all its dependants together never spend more than its limit (`familyUsage_le`).  `Reaches` collects the actions that one
operation of a program amounts to.
-/

namespace Protheus.Ledger

open Std (ExtTreeMap)
open Function (update)

/-! ## Entries -/

section Entries

variable {κ : Type} [Ord κ] [Std.TransOrd κ]

/-- The sum of the entries. -/
def total (holds : ExtTreeMap κ ℕ) : ℕ := (holds.toList.map Prod.snd).sum

@[simp] theorem total_empty : total (∅ : ExtTreeMap κ ℕ) = 0 := by
  rw [total, ExtTreeMap.toList_eq_nil_iff.mpr rfl]
  rfl

variable [Std.LawfulEqOrd κ]

theorem toList_nodup (holds : ExtTreeMap κ ℕ) : holds.toList.Nodup :=
  ExtTreeMap.distinct_keys_toList.imp fun h e =>
    h (Std.LawfulEqOrd.compare_eq_iff_eq.mpr (congrArg Prod.fst e))

/-- An entry taken out lowers the total by its amount. -/
theorem total_erase {holds : ExtTreeMap κ ℕ} {c : κ} {n : ℕ} (h : holds[c]? = some n) :
    total (holds.erase c) + n = total holds := by
  have hnot : (c, n) ∉ (holds.erase c).toList := by
    simp [ExtTreeMap.mem_toList_iff_getElem?_eq_some]
  have hperm : holds.toList.Perm ((c, n) :: (holds.erase c).toList) := by
    refine (List.perm_ext_iff_of_nodup (toList_nodup _)
      (List.nodup_cons.mpr ⟨hnot, toList_nodup _⟩)).mpr fun e => ?_
    obtain ⟨d, m⟩ := e
    simp only [List.mem_cons, Prod.mk.injEq, ExtTreeMap.mem_toList_iff_getElem?_eq_some,
      ExtTreeMap.getElem?_erase, Std.LawfulEqOrd.compare_eq_iff_eq]
    by_cases hd : c = d
    · subst hd
      simp [h, eq_comm]
    · simp [hd, Ne.symm hd]
  have hsum := (hperm.map Prod.snd).sum_eq
  simp only [List.map_cons, List.sum_cons] at hsum
  simp only [total]
  omega

theorem erase_insert (holds : ExtTreeMap κ ℕ) (c : κ) (n : ℕ) :
    (holds.insert c n).erase c = holds.erase c := by
  refine ExtTreeMap.ext_getElem? fun d => ?_
  rw [ExtTreeMap.getElem?_erase, ExtTreeMap.getElem?_erase, ExtTreeMap.getElem?_insert]
  by_cases hd : compare c d = .eq
  · rw [if_pos hd, if_pos hd]
  · rw [if_neg hd, if_neg hd, if_neg hd]

/-- An entry written over another replaces its amount. -/
theorem total_insert (holds : ExtTreeMap κ ℕ) (c : κ) (n : ℕ) :
    total (holds.insert c n) + holds[c]?.getD 0 = total holds + n := by
  have hnew : total ((holds.insert c n).erase c) + n = total (holds.insert c n) :=
    total_erase (by simp)
  rw [erase_insert] at hnew
  cases hold : holds[c]? with
  | none =>
    have herase : holds.erase c = holds := by
      refine ExtTreeMap.ext_getElem? fun d => ?_
      rw [ExtTreeMap.getElem?_erase]
      by_cases hd : compare c d = .eq
      · rw [if_pos hd, ← Std.LawfulEqOrd.compare_eq_iff_eq.mp hd, hold]
      · rw [if_neg hd]
    rw [herase] at hnew
    simpa using hnew.symm
  | some m =>
    have := total_erase hold
    simp only [Option.getD_some]
    omega

theorem le_total {holds : ExtTreeMap κ ℕ} {c : κ} {n : ℕ} (h : holds[c]? = some n) :
    n ≤ total holds := by
  have := total_erase h
  omega

/-- Different entries fit into the total together. -/
theorem sum_le_total [DecidableEq κ] (holds : ExtTreeMap κ ℕ) (s : Finset κ) :
    ∑ c ∈ s, holds[c]?.getD 0 ≤ total holds := by
  induction s using Finset.induction_on generalizing holds with
  | empty => simp
  | insert c s hc ih =>
    rw [Finset.sum_insert hc]
    cases hentry : holds[c]? with
    | none =>
      have := ih holds
      simpa using this
    | some n =>
      have hrest : ∑ d ∈ s, (holds.erase c)[d]?.getD 0 = ∑ d ∈ s, holds[d]?.getD 0 := by
        refine Finset.sum_congr rfl fun d hd => ?_
        have hne : c ≠ d := by
          rintro rfl
          exact hc hd
        rw [ExtTreeMap.getElem?_erase, if_neg (by simpa using hne)]
      have := ih (holds.erase c)
      have := total_erase hentry
      simp only [Option.getD_some]
      omega

/-! ### Some of the entries -/

/-- The entries under the names that `keep` holds of. -/
def kept (keep : κ → Bool) (holds : ExtTreeMap κ ℕ) : ExtTreeMap κ ℕ := holds.filter fun k _ => keep k

theorem getElem?_kept (holds : ExtTreeMap κ ℕ) {keep : κ → Bool} {c : κ} (h : keep c = true) :
    (kept keep holds)[c]? = holds[c]? := by
  rw [kept, ExtTreeMap.getElem?_filter']
  cases holds[c]? <;> simp [h]

/-- An entry written among those that are kept. -/
theorem kept_insert (holds : ExtTreeMap κ ℕ) {keep : κ → Bool} {c : κ} (h : keep c = true) (n : ℕ) :
    kept keep (holds.insert c n) = (kept keep holds).insert c n := by
  refine ExtTreeMap.ext_getElem? fun d => ?_
  rw [kept, kept, ExtTreeMap.getElem?_filter', ExtTreeMap.getElem?_insert,
    ExtTreeMap.getElem?_insert, ExtTreeMap.getElem?_filter']
  by_cases hd : compare c d = .eq
  · rw [if_pos hd, if_pos hd, ← Std.LawfulEqOrd.compare_eq_iff_eq.mp hd]
    simp [h]
  · rw [if_neg hd, if_neg hd]

/-- An entry written among those that are not. -/
theorem kept_insert_of_not (holds : ExtTreeMap κ ℕ) {keep : κ → Bool} {c : κ} (h : keep c = false)
    (n : ℕ) : kept keep (holds.insert c n) = kept keep holds := by
  refine ExtTreeMap.ext_getElem? fun d => ?_
  rw [kept, kept, ExtTreeMap.getElem?_filter', ExtTreeMap.getElem?_insert,
    ExtTreeMap.getElem?_filter']
  by_cases hd : compare c d = .eq
  · rw [if_pos hd, ← Std.LawfulEqOrd.compare_eq_iff_eq.mp hd]
    cases holds[c]? <;> simp [h]
  · rw [if_neg hd]

end Entries

/-! ## Parties -/

variable {κ : Type} [Ord κ]

/-- What a party may spend, what it noted as spent on itself and what it was charged for
each dependant, what it has spent in all, and what it reserves for dependants. -/
structure Account (κ : Type) [Ord κ] where
  limit : ℕ
  own : ℕ
  charges : κ → ℕ
  spent : ℕ
  reserved : ℕ
  holds : ExtTreeMap κ ℕ

namespace Account

/-- What is neither spent nor reserved. -/
def free (a : Account κ) : ℕ := a.limit - (a.spent + a.reserved)

/-- Another `n` spent; `own` is what the party then notes as its own. -/
@[simps] def spend (a : Account κ) (n own : ℕ) : Account κ := { a with own, spent := a.spent + n }

/-- A reservation of `n` for `c`. -/
@[simps] def hold [Std.TransOrd κ] (a : Account κ) (c : κ) (n : ℕ) : Account κ :=
  { a with reserved := a.reserved + n, holds := a.holds.insert c n }

/-- The reservation of `n` for `c` given back, and what `c` used charged instead. -/
@[simps] def release [Std.TransOrd κ] [DecidableEq κ] (a : Account κ) (c : κ) (n used : ℕ) :
    Account κ :=
  { a with
    reserved := a.reserved - n
    holds := a.holds.erase c
    charges := update a.charges c (a.charges c + used)
    spent := a.spent + used }

attribute [grind =] spend_limit spend_charges spend_spent spend_reserved spend_holds hold_limit
  hold_charges hold_spent hold_reserved hold_holds release_limit release_charges release_spent
  release_reserved release_holds

theorem spend_spend (a : Account κ) (n m own own' : ℕ) :
    (a.spend n own).spend m own' = a.spend (n + m) own' := by
  simp only [spend, Nat.add_assoc]

/-- What is noted and charged is part of what is spent. -/
def Adds (a : Account κ) : Prop := ∀ s : Finset κ, a.own + ∑ c ∈ s, a.charges c ≤ a.spent

/-- An account nobody else has touched, with a limit up to a cap. -/
structure Fresh (cap : ℕ) (a : Account κ) : Prop where
  within : a.spent ≤ a.limit
  capped : a.limit ≤ cap
  own : a.own ≤ a.spent
  charges : a.charges = fun _ => 0
  reserved : a.reserved = 0
  holds : a.holds = ∅

theorem Adds.spend {a : Account κ} (h : a.Adds) {n own : ℕ} (hown : own ≤ a.own + n) :
    (a.spend n own).Adds := by
  intro s
  have := h s
  simp only [Account.spend]
  omega

theorem Adds.hold [Std.TransOrd κ] {a : Account κ} (h : a.Adds) (c : κ) (n : ℕ) :
    (a.hold c n).Adds := h

theorem Adds.release [Std.TransOrd κ] [DecidableEq κ] {a : Account κ} (h : a.Adds) (c : κ)
    (n used : ℕ) : (a.release c n used).Adds := by
  intro s
  have hall := h s
  simp only [Account.release]
  by_cases hc : c ∈ s
  · have hsplit := Finset.sum_sdiff (f := a.charges) (Finset.singleton_subset_iff.mpr hc)
    rw [Finset.sum_singleton] at hsplit
    rw [Finset.sum_update_of_mem hc]
    omega
  · rw [Finset.sum_update_of_notMem hc]
    omega

theorem Fresh.adds {cap : ℕ} {a : Account κ} (h : a.Fresh cap) : a.Adds := by
  intro s
  simpa [h.charges] using h.own

end Account

/-- A member of the ledger: its account if it has one, who backs it and with how
much, and whether that has been settled. -/
structure Party (κ : Type) [Ord κ] where
  account : Option (Account κ)
  backer : Option κ
  stake : ℕ
  settled : Bool

def Party.used (p : Party κ) : ℕ := (p.account.map Account.spent).getD 0

/-- A ledger. -/
abbrev Book (κ : Type) [Ord κ] := κ → Option (Party κ)

def Book.account (b : Book κ) (k : κ) : Option (Account κ) := (b k).bind Party.account

/-- What `k` has spent itself. -/
def Book.own (b : Book κ) (k : κ) : ℕ := ((b.account k).map Account.own).getD 0

theorem Book.account_eq_some {b : Book κ} {k : κ} {a : Account κ} :
    b.account k = some a ↔ ∃ p, b k = some p ∧ p.account = some a := by
  simp [Book.account, Option.bind_eq_some_iff]

theorem Book.account_update [DecidableEq κ] (b : Book κ) (k : κ) (p : Party κ) (x : κ) :
    Book.account (update b k (some p)) x = if x = k then p.account else b.account x := by
  by_cases h : x = k
  · subst h
    simp [Book.account]
  · simp [Book.account, h]

/-- `c` has been settled with its backer `k`. -/
def Book.Settled (b : Book κ) (k c : κ) : Prop :=
  ∃ p, b c = some p ∧ p.backer = some k ∧ p.settled = true

theorem Book.settled_update [DecidableEq κ] (b : Book κ) (x : κ) (p : Party κ) (k c : κ) :
    Book.Settled (update b x (some p)) k c ↔
      if c = x then p.backer = some k ∧ p.settled = true else b.Settled k c := by
  by_cases h : c = x
  · subst h
    simp [Book.Settled]
  · simp [Book.Settled, h]

theorem Book.settled_iff {b : Book κ} {k c : κ} {p : Party κ} (h : b c = some p) :
    b.Settled k c ↔ p.backer = some k ∧ p.settled = true := by
  simp [Book.Settled, h]

/-- **A ledger that adds up.** -/
structure Balanced [Std.TransOrd κ] (cap : ℕ) (b : Book κ) : Prop where
  within : ∀ {k a}, b.account k = some a → a.spent + a.reserved ≤ a.limit
  capped : ∀ {k a}, b.account k = some a → a.limit ≤ cap
  summed : ∀ {k a}, b.account k = some a → a.reserved = total a.holds
  backed : ∀ {k a c n}, b.account k = some a → a.holds[c]? = some n →
    ∃ p, b c = some p ∧ p.backer = some k ∧ p.stake = n ∧ p.settled = false
  held : ∀ {c p k}, b c = some p → p.backer = some k → p.settled = false →
    ∃ a, b.account k = some a ∧ a.holds[c]? = some p.stake
  funded : ∀ {c p k}, b c = some p → p.backer = some k →
    ∃ a, p.account = some a ∧ a.limit = p.stake
  apart : ∀ {c p}, b c = some p → p.backer ≠ some c
  pending : ∀ {k a} c, b.account k = some a → a.charges c = 0 ∨ b.Settled k c

/-- **Charges that are what dependants spent.** -/
structure Squared (b : Book κ) : Prop where
  adds : ∀ {k a}, b.account k = some a → a.Adds
  charged : ∀ {c p k}, b c = some p → p.backer = some k → p.settled = true →
    ∃ a, b.account k = some a ∧ a.charges c = p.used
  closed : ∀ {c p a}, b c = some p → p.settled = true → p.account = some a → a.reserved = 0

/-- What a dependant has spent is within its stake. -/
theorem Balanced.used_le [Std.TransOrd κ] {cap : ℕ} {b : Book κ} {k c : κ} {p : Party κ}
    (hb : Balanced cap b) (hc : b c = some p) (hback : p.backer = some k) :
    p.used ≤ p.stake := by
  obtain ⟨ac, hac, hlimit⟩ := hb.funded hc hback
  have := hb.within (Book.account_eq_some.mpr ⟨p, hc, hac⟩)
  rw [Party.used, hac, Option.map_some, Option.getD_some]
  omega

theorem balanced_empty [Std.TransOrd κ] (cap : ℕ) : Balanced cap (fun _ => none : Book κ) := by
  constructor <;> simp [Book.account]

theorem squared_empty : Squared (fun _ => none : Book κ) := by
  constructor <;> simp [Book.account]

/-! ## Actions -/

variable [DecidableEq κ]

/-- What may happen to a ledger: a party spends from its account; one enters
without a backer; one enters on a backer's allowance; a dependant is settled. -/
inductive Action (κ : Type) [Ord κ] where
  | spend (k : κ) (n own : ℕ)
  | enter (c : κ) (p : Party κ)
  | back (k c : κ) (p : Party κ)
  | settle (c : κ)

/-- A change of one party's account. -/
def Book.change (b : Book κ) (k : κ) (f : Account κ → Account κ) : Book κ :=
  update b k ((b k).map fun p => { p with account := p.account.map f })

/-- The ledger after an action. -/
def act [Std.TransOrd κ] (b : Book κ) : Action κ → Book κ
  | .spend k n own => b.change k (·.spend n own)
  | .enter c p => update b c (some p)
  | .back k c p => update (b.change k (·.hold c p.stake)) c (some p)
  | .settle c =>
    match b c with
    | none => b
    | some p =>
      match p.backer with
      | none => b
      | some k =>
        update (b.change k (·.release c p.stake p.used)) c (some { p with settled := true })

/-- The actions a ledger stands. -/
def Allowed (cap : ℕ) (b : Book κ) : Action κ → Prop
  | .spend k n _ => ∃ a, b.account k = some a ∧ n ≤ a.free
  | .enter c p => b c = none ∧ p.backer = none ∧ ∀ a, p.account = some a → a.Fresh cap
  | .back k c p => b c = none ∧ (∃ a, b.account k = some a ∧ p.stake ≤ a.free) ∧
      p.backer = some k ∧ p.settled = false ∧
      ∃ a, p.account = some a ∧ a.limit = p.stake ∧ a.Fresh cap
  | .settle c => ∃ p k, b c = some p ∧ p.backer = some k ∧ p.settled = false

/-- The actions that leave settled accounts alone and note no more than is spent. -/
def Careful (b : Book κ) : Action κ → Prop
  | .spend k n own => (∀ a, b.account k = some a → own ≤ a.own + n) ∧
      (n = 0 ∨ ∀ p, b k = some p → p.settled = false)
  | .enter _ _ => True
  | .back k _ p => p.stake = 0 ∨ ∀ pk, b k = some pk → pk.settled = false
  | .settle c => ∀ a, b.account c = some a → a.reserved = 0

theorem Book.change_eq {b : Book κ} {k : κ} {p : Party κ} {a : Account κ} (hk : b k = some p)
    (ha : p.account = some a) (f : Account κ → Account κ) :
    b.change k f = update b k (some { p with account := some (f a) }) := by
  rw [Book.change, hk, Option.map_some, ha, Option.map_some]

section Balance

variable [Std.TransOrd κ] {cap : ℕ} {b : Book κ} {k c : κ} {p pk : Party κ} {a : Account κ}

theorem Balanced.spend (hb : Balanced cap b) {n : ℕ} (own : ℕ) (hk : b k = some p)
    (ha : p.account = some a) (hn : n ≤ a.free) :
    Balanced cap (update b k (some { p with account := some (a.spend n own) })) := by
  have hacc : b.account k = some a := Book.account_eq_some.mpr ⟨p, hk, ha⟩
  have hfit := hb.within hacc
  have hsettled (x : κ) := @Book.settled_iff _ _ b x k p hk
  obtain ⟨hwithin, hcapped, hsummed, hbacked, hheld, hfunded, hapart, hpending⟩ := hb
  constructor
  all_goals simp only [Book.account_update, Function.update_apply, Book.settled_update]
  all_goals grind [Account.free]

theorem Balanced.enter (hb : Balanced cap b) (hc : b c = none) (hback : p.backer = none)
    (hnew : ∀ a, p.account = some a → a.Fresh cap) : Balanced cap (update b c (some p)) := by
  have hacc : b.account c = none := by simp [Book.account, hc]
  have hnone (x : κ) : ¬b.Settled x c := by simp [Book.Settled, hc]
  obtain ⟨hwithin, hcapped, hsummed, hbacked, hheld, hfunded, hapart, hpending⟩ := hb
  constructor
  all_goals simp only [Book.account_update, Function.update_apply, Book.settled_update]
  all_goals grind [Account.Fresh, total_empty]

variable [Std.LawfulEqOrd κ]

theorem Balanced.back (hb : Balanced cap b) {ac : Account κ} (hc : b c = none) (hk : b k = some pk)
    (ha : pk.account = some a) (hn : p.stake ≤ a.free) (hback : p.backer = some k)
    (hopen : p.settled = false) (hac : p.account = some ac) (hlimit : ac.limit = p.stake)
    (hnew : ac.Fresh cap) :
    Balanced cap (update (update b k (some { pk with account := some (a.hold c p.stake) })) c
      (some p)) := by
  have hacc : b.account k = some a := Book.account_eq_some.mpr ⟨pk, hk, ha⟩
  have haccc : b.account c = none := by simp [Book.account, hc]
  have hfit := hb.within hacc
  have hkc : k ≠ c := by
    rintro rfl
    simp [hk] at hc
  -- an entry under the new name would belong to a party that is already there
  have hnone : a.holds[c]? = none := by
    cases h : a.holds[c]? with
    | none => rfl
    | some n =>
      obtain ⟨q, hq, -⟩ := hb.backed hacc h
      rw [hc] at hq
      cases hq
  have hsum := total_insert a.holds c p.stake
  rw [hnone, Option.getD_none, Nat.add_zero] at hsum
  have hsettled (x : κ) := @Book.settled_iff _ _ b x k pk hk
  have hfirst (x : κ) : ¬b.Settled x c := by simp [Book.Settled, hc]
  obtain ⟨hwithin, hcapped, hsummed, hbacked, hheld, hfunded, hapart, hpending⟩ := hb
  constructor
  all_goals simp only [Book.account_update, Function.update_apply, Book.settled_update]
  all_goals grind [Account.Fresh, Account.free, total_empty]

/-- The entry a dependant leaves covers what it spent, so the backer's account still
fits when the one is swapped for the other. -/
theorem Balanced.settle (hb : Balanced cap b) (hc : b c = some p) (hk : b k = some pk)
    (ha : pk.account = some a) (hback : p.backer = some k) (hopen : p.settled = false) :
    Balanced cap (update (update b k (some { pk with
      account := some (a.release c p.stake p.used) })) c (some { p with settled := true })) := by
  have hacc : b.account k = some a := Book.account_eq_some.mpr ⟨pk, hk, ha⟩
  have haccc : b.account c = p.account := by simp [Book.account, hc]
  have hfit := hb.within hacc
  have hkc : k ≠ c := by
    rintro rfl
    exact hb.apart hc hback
  have hentry : a.holds[c]? = some p.stake := by
    obtain ⟨a', ha', h⟩ := hb.held hc hback hopen
    rw [hacc] at ha'
    cases ha'
    exact h
  have hused := hb.used_le hc hback
  have hsum := total_erase hentry
  have hreserved := hb.summed hacc
  have hsettled (x : κ) := @Book.settled_iff _ _ b x k pk hk
  have hfirst (x : κ) : ¬b.Settled x c := by simp [Book.Settled, hc, hopen]
  obtain ⟨hwithin, hcapped, hsummed, hbacked, hheld, hfunded, hapart, hpending⟩ := hb
  constructor
  all_goals simp only [Book.account_update, Function.update_apply, Book.settled_update]
  all_goals grind [Function.update_apply]

omit [DecidableEq κ] [Std.LawfulEqOrd κ] in
/-- The backer of a dependant that is not settled has an account. -/
theorem Balanced.exists_backer (hb : Balanced cap b) (hc : b c = some p) (hback : p.backer = some k)
    (hopen : p.settled = false) : ∃ pk a, b k = some pk ∧ pk.account = some a := by
  obtain ⟨a, ha, -⟩ := hb.held hc hback hopen
  obtain ⟨pk, hk, ha⟩ := Book.account_eq_some.mp ha
  exact ⟨pk, a, hk, ha⟩

omit [Std.LawfulEqOrd κ] in
theorem act_settle (hc : b c = some p) (hback : p.backer = some k) (hk : b k = some pk)
    (ha : pk.account = some a) : act b (.settle c) =
      update (update b k (some { pk with account := some (a.release c p.stake p.used) })) c
        (some { p with settled := true }) := by
  simp only [act, hc, hback, Book.change_eq hk ha]

/-- **Every allowed action keeps the ledger balanced.** -/
theorem Balanced.act {action : Action κ} (hb : Balanced cap b) (h : Allowed cap b action) :
    Balanced cap (act b action) := by
  cases action with
  | spend k n own =>
    obtain ⟨a, ha, hn⟩ := h
    obtain ⟨p, hk, ha⟩ := Book.account_eq_some.mp ha
    rw [Ledger.act, Book.change_eq hk ha]
    exact hb.spend own hk ha hn
  | enter c p => exact hb.enter h.1 h.2.1 h.2.2
  | back k c p =>
    obtain ⟨hc, ⟨a, ha, hn⟩, hback, hopen, ac, hac, hlimit, hnew⟩ := h
    obtain ⟨pk, hk, ha⟩ := Book.account_eq_some.mp ha
    rw [Ledger.act, Book.change_eq hk ha]
    exact hb.back hc hk ha hn hback hopen hac hlimit hnew
  | settle c =>
    obtain ⟨p, k, hc, hback, hopen⟩ := h
    obtain ⟨pk, a, hk, ha⟩ := hb.exists_backer hc hback hopen
    rw [act_settle hc hback hk ha]
    exact hb.settle hc hk ha hback hopen

/-! ### Settling is final -/

omit [Std.TransOrd κ] [Std.LawfulEqOrd κ] in
/-- Spending nothing is no news to a backer; an account that is not settled is no
charge yet. -/
theorem Squared.spend (hs : Squared b) {n own : ℕ} (hk : b k = some p) (ha : p.account = some a)
    (hown : own ≤ a.own + n) (hcare : n = 0 ∨ p.settled = false) :
    Squared (update b k (some { p with account := some (a.spend n own) })) := by
  have hacc : b.account k = some a := Book.account_eq_some.mpr ⟨p, hk, ha⟩
  have hadds' : (a.spend n own).Adds := (hs.adds hacc).spend hown
  have hsame (hn : n = 0) : (a.spend n own).spent = a.spent := by simp [Account.spend, hn]
  obtain ⟨hadds, hcharged, hclosed⟩ := hs
  constructor
  all_goals simp only [Book.account_update, Function.update_apply]
  all_goals grind [Party.used, Function.update_apply]

omit [Std.TransOrd κ] [Std.LawfulEqOrd κ] in
theorem Squared.enter (hs : Squared b) (hc : b c = none) (hback : p.backer = none)
    (hnew : ∀ a, p.account = some a → a.Fresh cap) : Squared (update b c (some p)) := by
  have hacc : b.account c = none := by simp [Book.account, hc]
  have hadds' (a : Account κ) (ha : p.account = some a) : a.Adds := (hnew a ha).adds
  obtain ⟨hadds, hcharged, hclosed⟩ := hs
  constructor
  all_goals simp only [Book.account_update, Function.update_apply]
  all_goals grind [Account.Fresh]

omit [Std.LawfulEqOrd κ] in
theorem Squared.back (hs : Squared b) {ac : Account κ} (hc : b c = none) (hk : b k = some pk)
    (ha : pk.account = some a) (hopen : p.settled = false)
    (hac : p.account = some ac) (hfresh : ac.Fresh cap)
    (hcare : p.stake = 0 ∨ pk.settled = false) :
    Squared (update (update b k (some { pk with account := some (a.hold c p.stake) })) c (some p)) := by
  have hacc : b.account k = some a := Book.account_eq_some.mpr ⟨pk, hk, ha⟩
  have haccc : b.account c = none := by simp [Book.account, hc]
  have hkc : k ≠ c := by
    rintro rfl
    simp [hk] at hc
  have hnew : ac.Adds := hfresh.adds
  have hadds' : (a.hold c p.stake).Adds := (hs.adds hacc).hold c p.stake
  obtain ⟨hadds, hcharged, hclosed⟩ := hs
  constructor
  all_goals simp only [Book.account_update, Function.update_apply]
  all_goals grind [Account.Fresh, Party.used]

/-- A settled backer reserves nothing, so what is settled into it has used nothing. -/
theorem Squared.settle (hb : Balanced cap b) (hs : Squared b) (hc : b c = some p)
    (hk : b k = some pk) (ha : pk.account = some a) (hback : p.backer = some k)
    (hopen : p.settled = false) (hcare : ∀ ac, p.account = some ac → ac.reserved = 0) :
    Squared (update (update b k (some { pk with
      account := some (a.release c p.stake p.used) })) c (some { p with settled := true })) := by
  have hacc : b.account k = some a := Book.account_eq_some.mpr ⟨pk, hk, ha⟩
  have haccc : b.account c = p.account := by simp [Book.account, hc]
  have hkc : k ≠ c := by
    rintro rfl
    exact hb.apart hc hback
  have hused := hb.used_le hc hback
  have hzero : a.charges c = 0 := by
    simpa [Book.Settled, hc, hopen] using hb.pending c hacc
  have hadds' : (a.release c p.stake p.used).Adds := (hs.adds hacc).release c _ _
  have hfinal (hsettled : pk.settled = true) : p.used = 0 := by
    have hnone := hs.closed hk hsettled ha
    obtain ⟨a', ha', hentry⟩ := hb.held hc hback hopen
    rw [hacc] at ha'
    cases ha'
    have := le_total hentry
    have := hb.summed hacc
    omega
  obtain ⟨hadds, hcharged, hclosed⟩ := hs
  constructor
  all_goals simp only [Book.account_update, Function.update_apply]
  all_goals grind [Party.used, Function.update_apply]

/-- **Careful actions keep every charge what its dependant spent.** -/
theorem Squared.act {action : Action κ} (hb : Balanced cap b) (hs : Squared b)
    (h : Allowed cap b action) (hcare : Careful b action) : Squared (act b action) := by
  cases action with
  | spend k n own =>
    obtain ⟨a, hacc, hn⟩ := h
    obtain ⟨p, hk, ha⟩ := Book.account_eq_some.mp hacc
    rw [Ledger.act, Book.change_eq hk ha]
    exact hs.spend hk ha (hcare.1 a hacc) (hcare.2.imp_right fun hall => hall p hk)
  | enter c p => exact hs.enter h.1 h.2.1 h.2.2
  | back k c p =>
    obtain ⟨hc, ⟨a, ha, hn⟩, hback, hopen, ac, hac, hlimit, hnew⟩ := h
    obtain ⟨pk, hk, ha⟩ := Book.account_eq_some.mp ha
    rw [Ledger.act, Book.change_eq hk ha]
    exact hs.back hc hk ha hopen hac hnew (hcare.imp_right fun hall => hall pk hk)
  | settle c =>
    obtain ⟨p, k, hc, hback, hopen⟩ := h
    obtain ⟨pk, a, hk, ha⟩ := hb.exists_backer hc hback hopen
    rw [act_settle hc hback hk ha]
    exact hs.settle hb hc hk ha hback hopen fun ac hac =>
      hcare ac (Book.account_eq_some.mpr ⟨p, hc, hac⟩)

/-! ### Several actions -/

variable (cap) in
/-- Allowed actions lead from one ledger to the other; they are careful where `care`
says so. -/
def Reaches (care : Prop) (b b' : Book κ) : Prop :=
  ∃ actions, Runs.Meets act (fun b action => Allowed cap b action ∧ (care → Careful b action)) b
    actions ∧ b' = Runs.run act b actions

variable {care : Prop} {b' b'' : Book κ}

omit [Std.LawfulEqOrd κ] in
theorem Reaches.refl (b : Book κ) : Reaches cap care b b := ⟨[], trivial, rfl⟩

omit [Std.LawfulEqOrd κ] in
theorem Reaches.single {action : Action κ} (h : Allowed cap b action)
    (hcare : care → Careful b action) : Reaches cap care b (act b action) :=
  ⟨[action], ⟨⟨h, hcare⟩, trivial⟩, rfl⟩

omit [Std.LawfulEqOrd κ] in
theorem Reaches.trans (h : Reaches cap care b b') (h' : Reaches cap care b' b'') :
    Reaches cap care b b'' := by
  obtain ⟨actions, hmeets, rfl⟩ := h
  obtain ⟨actions', hmeets', rfl⟩ := h'
  exact ⟨actions ++ actions', Runs.Meets.append_iff.mpr ⟨hmeets, hmeets'⟩,
    (Runs.run_append ..).symm⟩

theorem Balanced.reaches (hb : Balanced cap b) (h : Reaches cap care b b') : Balanced cap b' := by
  obtain ⟨actions, hmeets, rfl⟩ := h
  have hstep (b : Book κ) (action : Action κ) (hb : Balanced cap b)
      (h : Allowed cap b action ∧ (care → Careful b action)) : Balanced cap (Ledger.act b action) :=
    hb.act h.1
  exact Runs.Meets.invariant hstep hb hmeets

theorem Squared.reaches (hb : Balanced cap b) (hs : Squared b) (hcare : care)
    (h : Reaches cap care b b') : Squared b' := by
  obtain ⟨actions, hmeets, rfl⟩ := h
  have hstep (b : Book κ) (action : Action κ) (hinv : Balanced cap b ∧ Squared b)
      (h : Allowed cap b action ∧ (care → Careful b action)) :
      Balanced cap (Ledger.act b action) ∧ Squared (Ledger.act b action) :=
    ⟨hinv.1.act h.1, hinv.2.act hinv.1 h.1 (h.2 hcare)⟩
  exact (Runs.Meets.invariant hstep ⟨hb, hs⟩ hmeets).2

end Balance

/-! ## Families -/

section Families

omit [DecidableEq κ] in
/-- What a member and the children under it, down to the `n`-th generation, have spent
themselves. -/
def familyUsage (own : κ → ℕ) (children : κ → Finset κ) : ℕ → κ → ℕ
  | 0, k => own k
  | n + 1, k => own k + ∑ c ∈ children k, familyUsage own children n c

/-- A child that has nothing to spend and no children of its own. -/
def Barren (own : κ → ℕ) (children : κ → Finset κ) (c : κ) : Prop := own c = 0 ∧ children c = ∅

omit [Ord κ] [DecidableEq κ] in
theorem Barren.familyUsage {own : κ → ℕ} {children : κ → Finset κ} {c : κ}
    (h : Barren own children c) (n : ℕ) : familyUsage own children n c = 0 := by
  cases n with
  | zero => exact h.1
  | succ n => simp [Ledger.familyUsage, h.1, h.2]

/-- **A family stays within the limit of its head.**  Whatever its children, theirs and
so on have spent themselves is part of what it has spent or reserves. -/
theorem Squared.familyUsage_le [Std.TransOrd κ] [Std.LawfulEqOrd κ] {cap : ℕ} {b : Book κ}
    {children : κ → Finset κ} (hb : Balanced cap b) (hs : Squared b)
    (hfamily : ∀ {k a c}, b.account k = some a → c ∈ children k →
      (∃ p, b c = some p ∧ p.backer = some k) ∨ Barren b.own children c)
    (n : ℕ) : ∀ {k a}, b.account k = some a → familyUsage b.own children n k ≤ a.spent + a.reserved := by
  induction n with
  | zero =>
    intro k a ha
    have := hs.adds ha ∅
    simp only [familyUsage, Book.own, ha, Option.map_some, Option.getD_some]
    omega
  | succ n ih =>
    intro k a ha
    -- a settled child is covered by its charge, one that is not by its entry
    have hchild (c : κ) (hc : c ∈ children k) :
        familyUsage b.own children n c ≤ a.charges c + a.holds[c]?.getD 0 := by
      obtain ⟨p, hbc, hback⟩ | hbarren := hfamily ha hc
      · obtain ⟨ac, hac, hlimit⟩ := hb.funded hbc hback
        have haccc : b.account c = some ac := Book.account_eq_some.mpr ⟨p, hbc, hac⟩
        have hle := ih haccc
        cases hsettled : p.settled with
        | true =>
          obtain ⟨a', ha', hcharge⟩ := hs.charged hbc hback hsettled
          have hclosed := hs.closed hbc hsettled hac
          rw [ha] at ha'
          cases ha'
          rw [hcharge, Party.used, hac, Option.map_some, Option.getD_some]
          omega
        | false =>
          obtain ⟨a', ha', hentry⟩ := hb.held hbc hback hsettled
          have hwithin := hb.within haccc
          rw [ha] at ha'
          cases ha'
          rw [hentry, Option.getD_some]
          omega
      · rw [hbarren.familyUsage]
        exact Nat.zero_le _
    have hsum := (Finset.sum_le_sum hchild).trans_eq Finset.sum_add_distrib
    have hcharges := hs.adds ha (children k)
    have hentries := sum_le_total a.holds (children k)
    have hreserved := hb.summed ha
    simp only [familyUsage, Book.own, ha, Option.map_some, Option.getD_some]
    omega

end Families

end Protheus.Ledger
