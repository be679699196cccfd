import Mathlib.Data.List.Sort
import Protheus.V8Kernel

/-!
`deterministic_receipt_hash` of `lib.rs`.

Two writers of one text: `stable_json_string` builds it, `stable_json_hash_update`
feeds it to the digest piece by piece.  Both write the entries of an object in the order
of their keys, so the text is that of the value with every object sorted
(`stableJsonString_eq_render`), and it is the same for two values exactly when the
values are the same up to the order of entries (`stableJsonString_eq_iff`).
-/

namespace Protheus

namespace Json

variable (printFloat : ℚ → String)

/-- The keys of an object, in order. -/
def sortedKeys (fields : List (String × Json)) : List String :=
  (fields.map Prod.fst).insertionSort (· ≤ ·)

/-- `join(",")`. -/
def joinComma : List String → String
  | [] => ""
  | [text] => text
  | text :: rest => text ++ "," ++ joinComma rest

/-- The loop of `stable_json_string` over the keys of an object. -/
def stableEntries (texts : List (String × String)) (keys : List String) : String :=
  joinComma (keys.map fun key => renderStr key ++ ":" ++ (texts.lookup key).getD "null")

mutual

/-- `stable_json_string`. -/
def stableJsonString : Json → String
  | .null => "null"
  | .bool b => if b then "true" else "false"
  | .num n => renderNumber printFloat n
  | .str s => renderStr s
  | .arr items => "[" ++ joinComma (stableItems items) ++ "]"
  | .obj fields => "\x7b" ++ stableEntries (stableFields fields) (sortedKeys fields) ++ "\x7d"

def stableItems : List Json → List String
  | [] => []
  | item :: rest => stableJsonString item :: stableItems rest

def stableFields : List (String × Json) → List (String × String)
  | [] => []
  | (key, value) :: rest => (key, stableJsonString value) :: stableFields rest

end

/-- The loop of `stable_json_hash_update` over the keys of an object. -/
def hashEntries (updates : List (String × (String → String))) :
    ℕ → List String → String → String
  | _, [], fed => fed
  | index, key :: rest, fed =>
    let fed := (if 0 < index then fed ++ "," else fed) ++ renderStr key ++ ":"
    hashEntries updates (index + 1) rest ((updates.lookup key).getD (· ++ "null") fed)

mutual

/-- `stable_json_hash_update`: what the digest has been fed before, and with the value. -/
def stableJsonHashUpdate : Json → String → String
  | .null => fun fed => fed ++ "null"
  | .bool b => fun fed => fed ++ if b then "true" else "false"
  | .num n => fun fed => fed ++ renderNumber printFloat n
  | .str s => fun fed => fed ++ renderStr s
  | .arr items => fun fed => hashItems items 0 (fed ++ "[") ++ "]"
  | .obj fields => fun fed =>
    hashEntries (hashFields fields) 0 (sortedKeys fields) (fed ++ "\x7b") ++ "\x7d"

def hashItems : List Json → ℕ → String → String
  | [] => fun _ fed => fed
  | item :: rest => fun index fed =>
    hashItems rest (index + 1) (stableJsonHashUpdate item (if 0 < index then fed ++ "," else fed))

def hashFields : List (String × Json) → List (String × (String → String))
  | [] => []
  | (key, value) :: rest => (key, stableJsonHashUpdate value) :: hashFields rest

end

/-! ## The two writers -/

section Writers

variable {printFloat}

/-- What a loop adds after its first round. -/
def joinTail : List String → String
  | [] => ""
  | text :: rest => "," ++ text ++ joinTail rest

theorem joinComma_cons (text : String) (rest : List String) :
    joinComma (text :: rest) = text ++ joinTail rest := by
  induction rest generalizing text with
  | nil => simp [joinComma, joinTail]
  | cons next rest ih => simp [joinComma, joinTail, ih, String.append_assoc]

theorem hashEntries_eq {updates : List (String × (String → String))}
    {texts : List (String × String)}
    (h : ∀ key fed, (updates.lookup key).getD (· ++ "null") fed =
      fed ++ (texts.lookup key).getD "null") (keys : List String) (fed : String) :
    hashEntries updates 0 keys fed = fed ++ stableEntries texts keys := by
  have htail (keys : List String) : ∀ (index : ℕ) (fed : String),
      hashEntries updates (index + 1) keys fed = fed ++ joinTail (keys.map fun key =>
        renderStr key ++ ":" ++ (texts.lookup key).getD "null") := by
    induction keys with
    | nil => intro index fed; simp [hashEntries, joinTail]
    | cons key rest ih =>
      intro index fed
      rw [hashEntries, ih, h]
      simp [joinTail, String.append_assoc]
  cases keys with
  | nil => simp [hashEntries, stableEntries, joinComma]
  | cons key rest =>
    rw [hashEntries, htail, h, stableEntries, List.map_cons, joinComma_cons]
    simp [String.append_assoc]

mutual

/-- **The digest is fed the text.** -/
theorem stableJsonHashUpdate_eq : ∀ (value : Json) (fed : String),
    stableJsonHashUpdate printFloat value fed = fed ++ stableJsonString printFloat value
  | .null, _ | .bool _, _ | .num _, _ | .str _, _ => rfl
  | .arr items, fed => by
    rw [stableJsonHashUpdate, stableJsonString]
    cases items with
    | nil => simp [hashItems, stableItems, joinComma, String.append_assoc]
    | cons item rest =>
      rw [hashItems]
      dsimp only
      rw [hashItems_eq rest, stableJsonHashUpdate_eq item, stableItems, joinComma_cons]
      simp [String.append_assoc]
  | .obj fields, fed => by
    rw [stableJsonHashUpdate, stableJsonString]
    dsimp only
    rw [hashEntries_eq (hashFields_eq fields)]
    simp [String.append_assoc]

theorem hashItems_eq : ∀ (items : List Json) (index : ℕ) (fed : String),
    hashItems printFloat items (index + 1) fed = fed ++ joinTail (stableItems printFloat items)
  | [], _, _ => by simp [hashItems, stableItems, joinTail]
  | item :: rest, index, fed => by
    rw [hashItems]
    dsimp only
    rw [hashItems_eq rest, stableJsonHashUpdate_eq item, stableItems, joinTail]
    simp [String.append_assoc]

theorem hashFields_eq : ∀ (fields : List (String × Json)) (key fed : String),
    ((hashFields printFloat fields).lookup key).getD (· ++ "null") fed =
      fed ++ ((stableFields printFloat fields).lookup key).getD "null"
  | [], _, _ => rfl
  | (name, value) :: rest, key, fed => by
    rw [hashFields, stableFields, List.lookup_cons, List.lookup_cons]
    split
    · exact stableJsonHashUpdate_eq value fed
    · exact hashFields_eq rest key fed

end

end Writers

/-! ## Values -/

mutual

/-- Every object has each of its keys once, as a map has. -/
def Distinct : Json → Prop
  | .arr items => DistinctItems items
  | .obj fields => (fields.map Prod.fst).Nodup ∧ DistinctFields fields
  | _ => True

def DistinctItems : List Json → Prop
  | [] => True
  | item :: rest => item.Distinct ∧ DistinctItems rest

def DistinctFields : List (String × Json) → Prop
  | [] => True
  | (_, value) :: rest => value.Distinct ∧ DistinctFields rest

end

/-- A value of `serde_json`. -/
abbrev Value := { value : Json // value.Distinct }

mutual

/-- `==` of values: objects are equal when they have as many entries and those of one are
found in the other. -/
def same : Json → Json → Bool
  | .null, .null => true
  | .bool a, .bool b => a == b
  | .num m, .num n => m == n
  | .str s, .str t => s == t
  | .arr xs, .arr ys => sameItems xs ys
  | .obj xs, .obj ys => xs.length == ys.length && sameFields xs ys
  | _, _ => false

def sameItems : List Json → List Json → Bool
  | [], [] => true
  | x :: xs, y :: ys => same x y && sameItems xs ys
  | _, _ => false

def sameFields : List (String × Json) → List (String × Json) → Bool
  | [], _ => true
  | (key, x) :: xs, ys =>
    (match ys.lookup key with
      | some y => same x y
      | none => false) && sameFields xs ys

end

mutual

/-- The value with the entries of every object in the order of their keys. -/
def sorted : Json → Json
  | .arr items => .arr (sortedItems items)
  | .obj fields => .obj ((sortedFields fields).insertionSort fun f g => f.1 ≤ g.1)
  | other => other

def sortedItems : List Json → List Json
  | [] => []
  | item :: rest => item.sorted :: sortedItems rest

def sortedFields : List (String × Json) → List (String × Json)
  | [] => []
  | (key, value) :: rest => (key, value.sorted) :: sortedFields rest

end

section Lookup

variable {α : Type} {fields : List (String × α)} {key : String} {value : α}

/-- In a map an entry is what its key finds. -/
theorem lookup_eq_some_iff_mem (h : (fields.map Prod.fst).Nodup) :
    fields.lookup key = some value ↔ (key, value) ∈ fields := by
  induction fields with
  | nil => simp
  | cons f rest ih =>
    obtain ⟨name, first⟩ := f
    rw [List.map_cons, List.nodup_cons] at h
    rw [List.lookup_cons, List.mem_cons]
    by_cases hname : key = name
    · subst hname
      have hnot : (key, value) ∉ rest := fun hmem => h.1 (List.mem_map.mpr ⟨_, hmem, rfl⟩)
      simp [hnot, eq_comm]
    · have hne : (key == name) = false := by simpa using hname
      rw [hne]
      simp [hname, ih h.2]

end Lookup

theorem sortedFields_eq_map (fields : List (String × Json)) :
    sortedFields fields = fields.map fun f => (f.1, f.2.sorted) := by
  induction fields with
  | nil => rfl
  | cons f rest ih => rw [sortedFields, ih, List.map_cons]

theorem sortedFields_keys (fields : List (String × Json)) :
    (sortedFields fields).map Prod.fst = fields.map Prod.fst := by
  rw [sortedFields_eq_map, List.map_map]
  rfl

theorem sortedFields_length (fields : List (String × Json)) :
    (sortedFields fields).length = fields.length := by
  rw [sortedFields_eq_map, List.length_map]

theorem sortedFields_lookup (key : String) (fields : List (String × Json)) :
    (sortedFields fields).lookup key = (fields.lookup key).map sorted := by
  induction fields with
  | nil => rfl
  | cons f rest ih =>
    rw [sortedFields, List.lookup_cons, List.lookup_cons]
    split
    · rfl
    · exact ih

/-- The sorted entries of an object. -/
def entries (fields : List (String × Json)) : List (String × Json) :=
  (sortedFields fields).insertionSort fun f g => f.1 ≤ g.1

theorem entries_keys (fields : List (String × Json)) :
    (entries fields).map Prod.fst = sortedKeys fields := by
  have hmap := @List.map_insertionSort _ _ (fun f g => f.1 ≤ g.1) (· ≤ ·) _ _ Prod.fst
    (sortedFields fields) fun _ _ _ _ => Iff.rfl
  rw [entries, hmap, sortedFields_keys, sortedKeys]

/-! ### The text of a value -/

section Text

variable {printFloat}

theorem renderItems_eq_join : ∀ items : List Json,
    renderItems printFloat items = joinComma (items.map (render printFloat))
  | [] => rfl
  | [_] => by simp [renderItems, joinComma]
  | _ :: next :: rest => by
    rw [renderItems, renderItems_eq_join (next :: rest)]
    · rfl
    · simp

theorem renderFields_eq_join : ∀ fields : List (String × Json), renderFields printFloat fields =
    joinComma (fields.map fun f => renderStr f.1 ++ ":" ++ render printFloat f.2)
  | [] => rfl
  | [(_, _)] => by simp [renderFields, joinComma]
  | (_, _) :: next :: rest => by
    rw [renderFields, renderFields_eq_join (next :: rest)]
    · rfl
    · simp

mutual

/-- **The text is that of the sorted value.** -/
theorem stableJsonString_eq_render : ∀ {value : Json}, value.Distinct →
    stableJsonString printFloat value = value.sorted.render printFloat
  | .null, _ | .bool _, _ | .num _, _ | .str _, _ => rfl
  | .arr items, h => by
    rw [stableJsonString, sorted, render, renderItems_eq_join, stableItems_eq_render h]
  | .obj fields, h => by
    rw [stableJsonString, sorted, render, renderFields_eq_join, stableEntries, ← entries_keys,
      List.map_map]
    have hentry : ∀ f ∈ entries fields, renderStr f.1 ++ ":" ++
        ((stableFields printFloat fields).lookup f.1).getD "null" =
          renderStr f.1 ++ ":" ++ render printFloat f.2 := by
      intro f hf
      have hmem : f ∈ sortedFields fields := (List.mem_insertionSort _).mp hf
      have htext : (f.1, render printFloat f.2) ∈ stableFields printFloat fields := by
        rw [stableFields_eq_render h.2]
        exact List.mem_map.mpr ⟨f, hmem, rfl⟩
      have hnodup : ((stableFields printFloat fields).map Prod.fst).Nodup := by
        rw [stableFields_eq_render h.2, List.map_map]
        exact (sortedFields_keys fields).symm ▸ h.1
      rw [(lookup_eq_some_iff_mem hnodup).mpr htext, Option.getD_some]
    have htext := congrArg joinComma (List.map_congr_left hentry)
    rw [← entries]
    exact congrArg (fun text => "\x7b" ++ text ++ "\x7d") htext

theorem stableItems_eq_render : ∀ {items : List Json}, DistinctItems items →
    stableItems printFloat items = (sortedItems items).map (render printFloat)
  | [], _ => rfl
  | item :: rest, h => by
    rw [stableItems, stableJsonString_eq_render h.1, stableItems_eq_render h.2]
    rfl

theorem stableFields_eq_render : ∀ {fields : List (String × Json)}, DistinctFields fields →
    stableFields printFloat fields = (sortedFields fields).map fun f => (f.1, render printFloat f.2)
  | [], _ => rfl
  | (key, value) :: rest, h => by
    rw [stableFields, stableJsonString_eq_render h.1, stableFields_eq_render h.2]
    rfl

end

end Text

/-! ### Equal values -/

theorem distinct_of_lookup {key : String} {value : Json} : ∀ {fields : List (String × Json)},
    DistinctFields fields → fields.lookup key = some value → value.Distinct
  | (name, first) :: rest, h, hlookup => by
    rw [List.lookup_cons] at hlookup
    split at hlookup
    · exact Option.some.inj hlookup ▸ h.1
    · exact distinct_of_lookup h.2 hlookup

/-- Entries under distinct keys are determined by their set. -/
theorem entries_eq_iff {xs ys : List (String × Json)} (hx : (xs.map Prod.fst).Nodup)
    (hy : (ys.map Prod.fst).Nodup) : entries xs = entries ys ↔
      xs.length = ys.length ∧ ∀ f ∈ sortedFields xs, f ∈ sortedFields ys := by
  rw [← sortedFields_keys] at hx hy
  rw [← sortedFields_length xs, ← sortedFields_length ys]
  constructor
  · intro h
    have hperm : (sortedFields xs).Perm (sortedFields ys) :=
      ((List.perm_insertionSort _ _).symm.trans (List.Perm.of_eq h)).trans (List.perm_insertionSort _ _)
    exact ⟨hperm.length_eq, fun f hf => hperm.mem_iff.mp hf⟩
  · rintro ⟨hlength, hsubset⟩
    have hperm : (sortedFields xs).Perm (sortedFields ys) :=
      (List.subperm_of_subset hx.of_map hsubset).perm_of_length_le hlength.ge
    have hsorted (zs : List (String × Json)) :
        (entries zs).Pairwise fun f g => f.1 ≤ g.1 := by
      have htotal : Std.Total fun f g : String × Json => f.1 ≤ g.1 := ⟨fun f g => le_total f.1 g.1⟩
      have htrans : IsTrans (String × Json) fun f g => f.1 ≤ g.1 := ⟨fun _ _ _ => le_trans⟩
      exact List.pairwise_insertionSort _ _
    have hentries : (entries xs).Perm (entries ys) :=
      ((List.perm_insertionSort _ _).trans hperm).trans (List.perm_insertionSort _ _).symm
    refine List.Perm.eq_of_pairwise (fun f g hf hg hfg hgf => ?_) (hsorted xs) (hsorted ys) hentries
    have hf : f ∈ sortedFields ys := hsubset f ((List.mem_insertionSort _).mp hf)
    have hg : g ∈ sortedFields ys := (List.mem_insertionSort _).mp hg
    exact List.inj_on_of_nodup_map hy hf hg (le_antisymm hfg hgf)

mutual

theorem same_iff : ∀ {v w : Json}, v.Distinct → w.Distinct → (same v w = true ↔ v.sorted = w.sorted)
  | .null, w, _, _ => by cases w <;> simp [same, sorted]
  | .bool _, w, _, _ => by cases w <;> simp [same, sorted]
  | .num _, w, _, _ => by cases w <;> simp [same, sorted]
  | .str _, w, _, _ => by cases w <;> simp [same, sorted]
  | .arr xs, w, hv, hw => by
    cases w with
    | arr ys => simp only [same, sorted, Json.arr.injEq, sameItems_iff hv hw]
    | _ => simp [same, sorted]
  | .obj xs, w, hv, hw => by
    cases w with
    | obj ys =>
      have hentries := entries_eq_iff hv.1 hw.1
      simp only [entries] at hentries
      simp only [same, sorted, Json.obj.injEq, Bool.and_eq_true, beq_iff_eq,
        sameFields_iff hv.2 hw.1 hw.2, hentries]
    | _ => simp [same, sorted]

theorem sameItems_iff : ∀ {xs ys : List Json}, DistinctItems xs → DistinctItems ys →
    (sameItems xs ys = true ↔ sortedItems xs = sortedItems ys)
  | [], ys, _, _ => by cases ys <;> simp [sameItems, sortedItems]
  | x :: xs, ys, hx, hy => by
    cases ys with
    | nil => simp [sameItems, sortedItems]
    | cons y ys =>
      simp only [sameItems, sortedItems, Bool.and_eq_true, List.cons.injEq, same_iff hx.1 hy.1,
        sameItems_iff hx.2 hy.2]

theorem sameFields_iff : ∀ {xs ys : List (String × Json)}, DistinctFields xs →
    (ys.map Prod.fst).Nodup → DistinctFields ys →
    (sameFields xs ys = true ↔ ∀ f ∈ sortedFields xs, f ∈ sortedFields ys)
  | [], ys, _, _, _ => by simp [sameFields, sortedFields]
  | (key, x) :: xs, ys, hx, hy, hys => by
    have hkeys := hy
    rw [← sortedFields_keys] at hkeys
    simp only [sameFields, sortedFields, Bool.and_eq_true, List.mem_cons, forall_eq_or_imp,
      sameFields_iff hx.2 hy hys, ← lookup_eq_some_iff_mem hkeys, sortedFields_lookup]
    refine and_congr_left fun _ => ?_
    cases hlookup : ys.lookup key with
    | none => simp
    | some y =>
      have hyd := distinct_of_lookup hys hlookup
      simp only [Option.map_some, Option.some.injEq, same_iff hx.1 hyd]
      exact eq_comm

end

/-- The order of the entries makes no difference. -/
theorem same_of_perm {xs ys : List (String × Json)} (h : xs.Perm ys) (hx : (obj xs).Distinct)
    (hy : (obj ys).Distinct) : same (.obj xs) (.obj ys) = true := by
  have hentries : entries xs = entries ys := by
    rw [entries_eq_iff hx.1 hy.1, sortedFields_eq_map, sortedFields_eq_map]
    exact ⟨h.length_eq, fun f hf => (h.map _).mem_iff.mp hf⟩
  rw [same_iff hx hy, sorted, sorted]
  exact congrArg Json.obj hentries

/-! ### What is read from the same values -/

/-- Two values have one text where they are the same. -/
theorem stableJsonString_eq_iff {printFloat : ℚ → String} (hfloats : FloatText printFloat)
    {v w : Json} (hv : v.Distinct) (hw : w.Distinct) :
    stableJsonString printFloat v = stableJsonString printFloat w ↔ same v w = true := by
  rw [stableJsonString_eq_render hv, stableJsonString_eq_render hw, same_iff hv hw]
  exact ⟨render_injective hfloats, fun h => by rw [h]⟩

theorem entries_lookup {fields : List (String × Json)} (hnodup : (fields.map Prod.fst).Nodup)
    (key : String) : (entries fields).lookup key = (fields.lookup key).map sorted := by
  have hperm : (entries fields).Perm (sortedFields fields) := List.perm_insertionSort _ _
  have hsorted : ((sortedFields fields).map Prod.fst).Nodup := by
    rwa [sortedFields_keys]
  have hentries : ((entries fields).map Prod.fst).Nodup := (hperm.map _).nodup_iff.mpr hsorted
  rw [← sortedFields_lookup]
  ext value
  rw [lookup_eq_some_iff_mem hentries, lookup_eq_some_iff_mem hsorted, hperm.mem_iff]

theorem get?_sorted {v : Json} (h : v.Distinct) (key : String) :
    v.sorted.get? key = (v.get? key).map sorted := by
  cases v with
  | obj fields => exact entries_lookup h.1 key
  | _ => rfl

theorem asStr_sorted (v : Json) : v.sorted.asStr = v.asStr := by
  cases v <;> rfl

/-- What is read from the same values is the same. -/
theorem asStr_get?_of_same {v w : Json} (hv : v.Distinct) (hw : w.Distinct) (h : same v w = true)
    (key : String) : (v.get? key).bind asStr = (w.get? key).bind asStr := by
  have hread (u : Json) (hu : u.Distinct) :
      (u.get? key).bind asStr = (u.sorted.get? key).bind asStr := by
    rw [get?_sorted hu]
    cases u.get? key with
    | none => rfl
    | some value => exact (asStr_sorted value).symm
  rw [hread v hv, hread w hw, (same_iff hv hw).mp h]

theorem distinctFields_iff {fields : List (String × Json)} :
    DistinctFields fields ↔ ∀ f ∈ fields, f.2.Distinct := by
  induction fields with
  | nil => simp [DistinctFields]
  | cons f fields ih =>
    obtain ⟨key, value⟩ := f
    simp [DistinctFields, ih]

end Json

/-! ## Receipts -/

namespace V8Kernel

open Json

/-- `deterministic_receipt_hash`. -/
def deterministicReceiptHash (host : Host) (value : Json) : String :=
  host.sha256HexStr (stableJsonHashUpdate host.printFloat value "")

/-- **A receipt's hash binds the whole receipt.** -/
theorem receiptHash_binds (host : Host) (hfloats : FloatText host.printFloat)
    (hinj : Function.Injective host.sha256HexStr) (v w : Value) :
    stableJsonHashUpdate host.printFloat v.1 "" = stableJsonString host.printFloat v.1 ∧
      (stableJsonString host.printFloat v.1 = stableJsonString host.printFloat w.1 ↔
        same v.1 w.1 = true) ∧
      (deterministicReceiptHash host v.1 = deterministicReceiptHash host w.1 ↔
        same v.1 w.1 = true) := by
  have hfed (value : Json) : stableJsonHashUpdate host.printFloat value "" =
      stableJsonString host.printFloat value := by
    rw [stableJsonHashUpdate_eq, String.empty_append]
  have htext : stableJsonString host.printFloat v.1 = stableJsonString host.printFloat w.1 ↔
      same v.1 w.1 = true :=
    stableJsonString_eq_iff hfloats v.2 w.2
  refine ⟨hfed v.1, htext, ?_⟩
  rw [deterministicReceiptHash, deterministicReceiptHash, hfed, hfed, hinj.eq_iff, htext]

theorem receiptHash_binds_plain :
    let v : Value := ⟨.obj [("a", .num (.posInt 1)), ("b", .arr [.null])],
      by simp [Distinct, DistinctFields, DistinctItems]⟩
    let w : Value := ⟨.obj [("b", .arr [.null]), ("a", .num (.posInt 1))],
      by simp [Distinct, DistinctFields, DistinctItems]⟩
    stableJsonHashUpdate plainHost.printFloat v.1 "" = stableJsonString plainHost.printFloat v.1 ∧
      (stableJsonString plainHost.printFloat v.1 = stableJsonString plainHost.printFloat w.1 ↔
        same v.1 w.1 = true) ∧
      (deterministicReceiptHash plainHost v.1 = deterministicReceiptHash plainHost w.1 ↔
        same v.1 w.1 = true) :=
  receiptHash_binds plainHost floatText_pointed hexText_injective _ _

end V8Kernel

end Protheus
