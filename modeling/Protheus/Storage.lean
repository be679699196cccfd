import Protheus.Lib.Runs
import Protheus.RustStd

/-!
The versioned record store of `storage/src/lib.rs`.

`put` compares the expected version with the stored one (zero when there is
none) and numbers the new record one above it; `delete` removes the record and
with it the number, so a key that is written again starts over at one.  The
counter is a `u64` that wraps in a release build.

Compare-and-set is then safe between two writes of a key exactly as long as the
key is not removed in between and the counter does not come round
(`cas_overwrites_own_record_iff`).
-/

namespace Protheus.Storage

open Std (ExtTreeMap)
open Protheus.Runs

/-- `StorageRecord`. -/
structure StorageRecord where
  key : String
  value : String
  /-- One above the version it replaced. -/
  version : UInt64
  updatedMs : UInt64
  deriving DecidableEq, Repr

/-- `StorageError`. -/
inductive StorageError where
  | invalidKey
  | notFound
  | versionConflict
  deriving DecidableEq, Repr

/-- `StorageEngine`. -/
structure StorageEngine where
  records : ExtTreeMap String StorageRecord := ∅

/-- `valid_key`. -/
def validKey (key : String) : Bool :=
  if (RustStd.trim key).isEmpty then false
  else key.toList.all fun ch => ch.isAlphanum || ch == '_' || ch == '-' || ch == '.' || ch == '/'

/-- `StorageEngine::get`. -/
def StorageEngine.get (engine : StorageEngine) (key : String) : Except StorageError StorageRecord :=
  match engine.records[key]? with
  | some record => .ok record
  | none => .error .notFound

/-- The version `put` compares with: zero when the key holds no record. -/
def currentVersion : Option StorageRecord → UInt64
  | some row => row.version
  | none => 0

/-- The version `put` gives a new record. -/
def nextVersion : Option StorageRecord → UInt64
  | some row => row.version + 1
  | none => 1

/-- Whether the expected version, if any, is not the current one. -/
def versionConflict (previous : Option StorageRecord) : Option UInt64 → Bool
  | some expected => expected != currentVersion previous
  | none => false

/-- `StorageEngine::put`. -/
def StorageEngine.put (engine : StorageEngine) (key value : String)
    (expectedVersion : Option UInt64) (nowMs : UInt64) :
    StorageEngine × Except StorageError StorageRecord :=
  if !validKey key then (engine, .error .invalidKey)
  else
    let previous := engine.records[key]?
    if versionConflict previous expectedVersion then (engine, .error .versionConflict)
    else
      let record : StorageRecord :=
        { key, value, version := nextVersion previous, updatedMs := nowMs }
      ({ records := engine.records.insert key record }, .ok record)

/-- `StorageEngine::delete`. -/
def StorageEngine.delete (engine : StorageEngine) (key : String) :
    StorageEngine × Except StorageError StorageRecord :=
  match engine.records[key]? with
  | some record => ({ records := engine.records.erase key }, .ok record)
  | none => (engine, .error .notFound)

/-- A call that may change the store. -/
inductive Call where
  /-- `put(key, value, expected_version, now_ms)`. -/
  | put (key value : String) (expectedVersion : Option UInt64) (nowMs : UInt64)
  /-- `delete(key)`. -/
  | delete (key : String)

/-- What one call answers and leaves behind. -/
def StorageEngine.call (engine : StorageEngine) : Call →
    StorageEngine × Except StorageError StorageRecord
  | .put key value expectedVersion nowMs => engine.put key value expectedVersion nowMs
  | .delete key => engine.delete key

/-- What a successful call did. -/
inductive Effect where
  /-- The record was stored, under this expectation. -/
  | stored (expectedVersion : Option UInt64) (record : StorageRecord)
  /-- The record was removed. -/
  | removed (record : StorageRecord)
  deriving DecidableEq

/-- Whether an effect stores a record under `key`. -/
def Effect.stores (key : String) : Effect → Bool
  | .stored _ record => record.key == key
  | .removed _ => false

/-- Whether an effect removes the record of `key`. -/
def Effect.removes (key : String) : Effect → Bool
  | .stored _ _ => false
  | .removed record => record.key == key

/-- The effect of a call, `none` when it fails. -/
def effect (engine : StorageEngine) (call : Call) : Option Effect :=
  match call, (engine.call call).2 with
  | .put _ _ expectedVersion _, .ok record => some (.stored expectedVersion record)
  | .delete _, .ok record => some (.removed record)
  | _, .error _ => none

/-! ## What one call does to a key -/

section Call

variable {engine : StorageEngine} {call : Call} {key : String} {record : StorageRecord}

/-- Every record stands under its own key. -/
def Keyed (engine : StorageEngine) : Prop :=
  ∀ (key : String) (record : StorageRecord), engine.records[key]? = some record → record.key = key

/-- What a call can do: fail and change nothing, store the next version of a key,
or remove a key. -/
theorem call_cases (engine : StorageEngine) (call : Call) :
    (effect engine call = none ∧ (engine.call call).1 = engine) ∨
    (∃ expectedVersion record, effect engine call = some (.stored expectedVersion record) ∧
      versionConflict engine.records[record.key]? expectedVersion = false ∧
      record.version = nextVersion engine.records[record.key]? ∧
      (engine.call call).1 = { records := engine.records.insert record.key record }) ∨
    (∃ key record, effect engine call = some (.removed record) ∧
      engine.records[key]? = some record ∧
      (engine.call call).1 = { records := engine.records.erase key }) := by
  cases call with
  | put key value expectedVersion nowMs =>
    by_cases hvalid : validKey key = true
    · cases hconflict : versionConflict engine.records[key]? expectedVersion with
      | true => left; simp [effect, StorageEngine.call, StorageEngine.put, hvalid, hconflict]
      | false =>
        right; left
        refine ⟨expectedVersion, ⟨key, value, nextVersion engine.records[key]?, nowMs⟩, ?_, hconflict,
          rfl, ?_⟩ <;>
        simp [effect, StorageEngine.call, StorageEngine.put, hvalid, hconflict]
    · left; simp [effect, StorageEngine.call, StorageEngine.put, hvalid]
  | delete key =>
    cases hrec : engine.records[key]? with
    | none => left; simp [effect, StorageEngine.call, StorageEngine.delete, hrec]
    | some record =>
      right; right
      refine ⟨key, record, ?_, hrec, ?_⟩ <;>
      simp [effect, StorageEngine.call, StorageEngine.delete, hrec]

theorem call_keyed (hk : Keyed engine) (call : Call) : Keyed (engine.call call).1 := by
  intro key record hrec
  rcases call_cases engine call with ⟨-, h⟩ | ⟨_, new, -, -, -, h⟩ | ⟨key', _, -, -, h⟩
  · exact hk key record (by rwa [h] at hrec)
  · rw [h, ExtTreeMap.getElem?_insert] at hrec
    split at hrec
    · cases hrec
      exact Std.LawfulEqOrd.eq_of_compare ‹_›
    · exact hk key record hrec
  · rw [h, ExtTreeMap.getElem?_erase] at hrec
    split at hrec
    · cases hrec
    · exact hk key record hrec

/-- A call that neither stores nor removes a key leaves its record alone. -/
theorem call_frame (hk : Keyed engine)
    (h : ∀ e, effect engine call = some e → e.stores key = false ∧ e.removes key = false) :
    (engine.call call).1.records[key]? = engine.records[key]? := by
  rcases call_cases engine call with ⟨-, hs⟩ | ⟨_, new, he, -, -, hs⟩ | ⟨key', old, he, hold, hs⟩
  · rw [hs]
  · have hne : new.key ≠ key := by simpa [Effect.stores] using (h _ he).1
    rw [hs, ExtTreeMap.getElem?_insert, if_neg fun hc => hne (Std.LawfulEqOrd.eq_of_compare hc)]
  · have hne : old.key ≠ key := by simpa [Effect.removes] using (h _ he).2
    rw [hs, ExtTreeMap.getElem?_erase, if_neg]
    intro hc
    exact hne ((hk key' old hold).trans (Std.LawfulEqOrd.eq_of_compare hc))

/-- A call that stores a key leaves the new record there, one version up. -/
theorem call_stored {expectedVersion : Option UInt64}
    (h : effect engine call = some (.stored expectedVersion record)) :
    (engine.call call).1.records[record.key]? = some record ∧
      record.version = nextVersion engine.records[record.key]? ∧
      versionConflict engine.records[record.key]? expectedVersion = false := by
  rcases call_cases engine call with ⟨he, -⟩ | ⟨_, _, he, hv, hn, hs⟩ | ⟨_, _, he, -, -⟩ <;>
    rw [h] at he
  · cases he
  · cases he
    exact ⟨by simp [hs], hn, hv⟩
  · cases he

end Call

/-! ## Runs of calls by many clients -/

section Run

variable {C : Type*}

/-- The store the `n`-th call of a run meets, from an empty store on. -/
def storeBefore (calls : List (C × Call)) (n : ℕ) : StorageEngine :=
  before (fun engine c => (StorageEngine.call engine c.2).1) {} calls n

/-- What the `n`-th call did and who made it, `none` when it failed. -/
def effectAt (calls : List (C × Call)) (n : ℕ) : Option (C × Effect) :=
  calls[n]?.bind fun c => (effect (storeBefore calls n) c.2).map (c.1, ·)

/-- The `n`-th call stored a record under `key`. -/
def storesAt (calls : List (C × Call)) (key : String) (n : ℕ) : Bool :=
  (effectAt calls n).any fun e => e.2.stores key

/-- The `n`-th call removed the record of `key`. -/
def removesAt (calls : List (C × Call)) (key : String) (n : ℕ) : Bool :=
  (effectAt calls n).any fun e => e.2.removes key

/-- How many calls strictly between the `i`-th and the `j`-th stored a record under `key`. -/
def storesBetween (calls : List (C × Call)) (key : String) (i j : ℕ) : ℕ :=
  Nat.count (fun t => storesAt calls key (i + 1 + t)) (j - (i + 1))

variable {calls : List (C × Call)} {client : C} {key : String} {i j n : ℕ}

theorem storeBefore_keyed (calls : List (C × Call)) (n : ℕ) : Keyed (storeBefore calls n) := by
  have hempty : Keyed {} := by
    intro key record h
    simp at h
  have hstep : ∀ (engine : StorageEngine) (c : C × Call), Keyed engine →
      Keyed (engine.call c.2).1 := fun _ c hk => call_keyed hk c.2
  exact run_invariant hstep (calls.take n) {} hempty

theorem effectAt_eq_some {c : C} {e : Effect} (h : effectAt calls n = some (c, e)) :
    ∃ call, calls[n]? = some (c, call) ∧ effect (storeBefore calls n) call = some e := by
  obtain ⟨⟨c', call⟩, hcall, heff⟩ := Option.bind_eq_some_iff.mp h
  obtain ⟨e', he', heq⟩ := Option.map_eq_some_iff.mp heff
  cases heq
  exact ⟨call, hcall, he'⟩

/-- A step that neither stores nor removes a key leaves its record alone. -/
theorem storeBefore_succ_frame (hs : storesAt calls key n = false)
    (hr : removesAt calls key n = false) :
    (storeBefore calls (n + 1)).records[key]? = (storeBefore calls n).records[key]? := by
  unfold storeBefore
  cases hc : calls[n]? with
  | none => rw [before_succ_of_none _ hc]
  | some c =>
    rw [before_succ_of_some _ hc]
    refine call_frame (storeBefore_keyed calls n) fun e he => ?_
    have heff : effectAt calls n = some (c.1, e) := by
      have : effect (storeBefore calls n) c.2 = some e := he
      simp [effectAt, hc, this]
    simpa [storesAt, removesAt, heff] using And.intro hs hr

/-- A step that stores a key leaves its record there, one version up. -/
theorem storeBefore_succ_stored {c : C} {expectedVersion : Option UInt64} {record : StorageRecord}
    (h : effectAt calls n = some (c, .stored expectedVersion record)) :
    (storeBefore calls (n + 1)).records[record.key]? = some record ∧
      record.version = nextVersion (storeBefore calls n).records[record.key]? ∧
      versionConflict (storeBefore calls n).records[record.key]? expectedVersion = false := by
  obtain ⟨call, hc, he⟩ := effectAt_eq_some h
  have := call_stored he
  unfold storeBefore at *
  rwa [before_succ_of_some _ hc]

/-- Without a removal, the version of a key counts the writes since `record` stood there. -/
theorem version_counts {record : StorageRecord} {start : ℕ}
    (hstart : (storeBefore calls start).records[key]? = some record) :
    ∀ m, (∀ t < m, removesAt calls key (start + t) = false) →
      ∃ now, (storeBefore calls (start + m)).records[key]? = some now ∧
        now.version =
          record.version + UInt64.ofNat (Nat.count (fun t => storesAt calls key (start + t)) m) ∧
        (Nat.count (fun t => storesAt calls key (start + t)) m = 0 → now = record)
  | 0, _ => ⟨record, by simpa using hstart, by simp, fun _ => rfl⟩
  | m + 1, hm => by
    obtain ⟨now, hnow, hver, hsame⟩ := version_counts hstart m fun t ht => hm t (by omega)
    have hr := hm m (by omega)
    rw [Nat.count_succ]
    cases hs : storesAt calls key (start + m) with
    | false =>
      refine ⟨now, ?_, by simpa using hver, by simpa using hsame⟩
      rw [← Nat.add_assoc, storeBefore_succ_frame hs hr, hnow]
    | true =>
      obtain ⟨⟨c, e⟩, heff, hstores⟩ := (Option.any_eq_true _ _).mp hs
      cases e with
      | removed old => simp [Effect.stores] at hstores
      | stored expectedVersion new =>
        obtain rfl : new.key = key := by simpa [Effect.stores] using hstores
        obtain ⟨hafter, hnext, -⟩ := storeBefore_succ_stored heff
        refine ⟨new, hafter, ?_, by simp⟩
        rw [hnext, hnow]
        simp only [nextVersion, hver, if_true, UInt64.ofNat_add, UInt64.add_assoc]
        rfl

/-- **When a compare-and-set overwrites its own record.**  In any run of calls by
any clients: a client stored `mine` under a key at step `i`, and its put of that
key at a later step `j` expected `mine`'s version and succeeded.  The record it
overwrote is `mine`, with no other successful call on the key in between, if and
only if the key was not removed in between and was stored fewer than `2 ^ 64`
times. -/
theorem cas_overwrites_own_record_iff {mine new : StorageRecord} {expectedVersion : Option UInt64}
    (hij : i < j) (hi : effectAt calls i = some (client, .stored expectedVersion mine))
    (hj : effectAt calls j = some (client, .stored (some mine.version) new))
    (hkey : new.key = mine.key) :
    ((storeBefore calls j).records[mine.key]? = some mine ∧
        ∀ t, i < t → t < j →
          storesAt calls mine.key t = false ∧ removesAt calls mine.key t = false) ↔
      (∀ t, i < t → t < j → removesAt calls mine.key t = false) ∧
        storesBetween calls mine.key i j < 2 ^ 64 := by
  have hj' : i + 1 + (j - (i + 1)) = j := by omega
  constructor
  · rintro ⟨-, hquiet⟩
    refine ⟨fun t h1 h2 => (hquiet t h1 h2).2, ?_⟩
    have hzero : storesBetween calls mine.key i j = 0 := by
      rw [storesBetween, Nat.count_iff_forall_not]
      intro t ht
      simp [(hquiet (i + 1 + t) (by omega) (by omega)).1]
    omega
  · rintro ⟨hkept, hfew⟩
    obtain ⟨hstart, -, -⟩ := storeBefore_succ_stored hi
    obtain ⟨now, hnow, hver, hsame⟩ := version_counts hstart (j - (i + 1)) fun t ht =>
      hkept (i + 1 + t) (by omega) (by omega)
    rw [hj'] at hnow
    -- The put succeeded, so the version it found is the one it expected.
    have hcas : now.version = mine.version := by
      obtain ⟨-, -, hconflict⟩ := storeBefore_succ_stored hj
      rw [hkey, hnow] at hconflict
      have : mine.version = now.version := by
        simpa [versionConflict, currentVersion] using hconflict
      exact this.symm
    have hzero : storesBetween calls mine.key i j = 0 := by
      rw [hver] at hcas
      have : UInt64.ofNat (storesBetween calls mine.key i j) = 0 := by
        simpa [storesBetween] using hcas
      rw [← UInt64.toNat_inj, UInt64.toNat_ofNat', UInt64.toNat_zero, Nat.mod_eq_of_lt hfew] at this
      exact this
    refine ⟨hsame hzero ▸ hnow, fun t h1 h2 => ⟨?_, hkept t h1 h2⟩⟩
    have := Nat.count_iff_forall_not.mp hzero (t - (i + 1)) (by omega)
    rw [show i + 1 + (t - (i + 1)) = t by omega] at this
    simpa using this

/-! ### Histories -/

/-- What an effect makes of the records stored under a key since its last removal. -/
def Effect.extend (key : String) (rows : List StorageRecord) : Effect → List StorageRecord
  | .stored _ record => if record.key = key then rows ++ [record] else rows
  | .removed record => if record.key = key then [] else rows

/-- The records stored under a key since its last removal, before the `n`-th call. -/
def history (calls : List (C × Call)) (key : String) : ℕ → List StorageRecord
  | 0 => []
  | n + 1 => (effectAt calls n).elim (history calls key n) (·.2.extend key (history calls key n))

/-- A step that removes a key leaves no record there. -/
theorem storeBefore_succ_removed {c : C} {record : StorageRecord}
    (h : effectAt calls n = some (c, .removed record)) :
    (storeBefore calls (n + 1)).records[record.key]? = none := by
  obtain ⟨call, hc, he⟩ := effectAt_eq_some h
  rcases call_cases (storeBefore calls n) call with ⟨he', -⟩ | ⟨_, _, he', -⟩ | ⟨key, old, he', hold, hs⟩ <;>
    cases he'.symm.trans he
  rw [← storeBefore_keyed calls n key record hold] at hs
  unfold storeBefore at hs ⊢
  rw [before_succ_of_some _ hc, hs]
  simp

/-- **The store is its history**: a key holds what was stored there last, and its versions count
the records since it was last removed. -/
theorem get_history (calls : List (C × Call)) (key : String) (n : ℕ) :
    (storeBefore calls n).get key = (history calls key n).getLast?.elim (.error .notFound) .ok ∧
      (history calls key n).map (·.version) =
        (List.range (history calls key n).length).map fun i => UInt64.ofNat (i + 1) := by
  have hholds : (storeBefore calls n).records[key]? = (history calls key n).getLast? ∧
      nextVersion (history calls key n).getLast? = UInt64.ofNat ((history calls key n).length + 1) ∧
      (history calls key n).map (·.version) =
        (List.range (history calls key n).length).map fun i => UInt64.ofNat (i + 1) := by
    induction n with
    | zero => exact ⟨by simp [storeBefore, history], rfl, rfl⟩
    | succ n ih =>
      have hframe (hs : storesAt calls key n = false) (hr : removesAt calls key n = false)
          (hsame : history calls key (n + 1) = history calls key n) := And.intro
        ((storeBefore_succ_frame hs hr).trans (hsame.symm ▸ ih.1)) (hsame.symm ▸ ih.2)
      obtain ⟨hlast, hnext, hversions⟩ := ih
      cases heff : effectAt calls n with
      | none => exact hframe (by simp [storesAt, heff]) (by simp [removesAt, heff]) (by simp [history, heff])
      | some ce =>
        obtain ⟨c, ⟨expectedVersion, record⟩ | record⟩ := ce <;> by_cases hkey : record.key = key
        · subst hkey
          obtain ⟨hafter, hversion, -⟩ := storeBefore_succ_stored heff
          rw [hlast, hnext] at hversion
          simp [history, heff, Effect.extend, hafter, List.range_succ, hversions, hversion, nextVersion]
        · exact hframe (by simp [storesAt, heff, Effect.stores, hkey])
            (by simp [removesAt, heff, Effect.removes]) (by simp [history, heff, Effect.extend, hkey])
        · subst hkey
          simp [history, heff, Effect.extend, storeBefore_succ_removed heff, nextVersion]
        · exact hframe (by simp [storesAt, heff, Effect.stores])
            (by simp [removesAt, heff, Effect.removes, hkey]) (by simp [history, heff, Effect.extend, hkey])
  refine ⟨?_, hholds.2.2⟩
  rw [← hholds.1, StorageEngine.get]
  cases (storeBefore calls n).records[key]? <;> rfl

end Run

/-! ### The two runs -/

/-- Client 0 writes the key twice, expecting its own version the second time;
client 1 only reads in between. -/
def quietRun : List (ℕ × Call) :=
  [(0, .put "k" "a" none 1), (1, .delete "other"), (0, .put "k" "b" (some 1) 2)]

theorem quietRun_overwrites_own :
    (storeBefore quietRun 2).records["k"]? = some ⟨"k", "a", 1, 1⟩ ∧
      ∀ t, 0 < t → t < 2 → storesAt quietRun "k" t = false ∧ removesAt quietRun "k" t = false := by
  have hi : effectAt quietRun 0 = some (0, .stored none ⟨"k", "a", 1, 1⟩) := by decide
  have hj : effectAt quietRun 2 = some (0, .stored (some 1) ⟨"k", "b", 2, 2⟩) := by decide
  refine (cas_overwrites_own_record_iff (by decide) hi hj rfl).mpr ⟨fun t h1 h2 => ?_, by decide⟩
  obtain rfl : t = 1 := by omega
  decide

/-- Client 1 deletes and recreates the key between the two writes of client 0. -/
def abaRun : List (ℕ × Call) :=
  [(0, .put "k" "a" none 1), (1, .delete "k"), (1, .put "k" "other" none 2),
    (0, .put "k" "b" (some 1) 3)]

/-- Client 0 was told version 1 for its record, expects version 1, and silently
overwrites the record of client 1. -/
theorem abaRun_lost_update :
    effectAt abaRun 0 = some (0, .stored none ⟨"k", "a", 1, 1⟩) ∧
      effectAt abaRun 3 = some (0, .stored (some 1) ⟨"k", "b", 2, 3⟩) ∧
      (storeBefore abaRun 3).records["k"]? = some ⟨"k", "other", 1, 2⟩ ∧
      removesAt abaRun "k" 1 = true ∧ storesAt abaRun "k" 2 = true := by
  decide

end Protheus.Storage
