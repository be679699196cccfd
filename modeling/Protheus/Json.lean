import Mathlib

/-!
The JSON values the crates exchange, as `serde_json` holds them.

A number is a `u64`, a negative `i64` or an `f64`; a finite float is taken as the
exact rational it stands for.  An object is a `BTreeMap`: its fields stand in
the order of their keys, and `insertField` keeps them so.  `render` is
`serde_json::to_string`: no whitespace, fields in key order, strings escaped as
the serialiser escapes them; how a float is printed is left to `printFloat`.
-/

namespace Protheus

/-- `serde_json::Number`. -/
inductive JsonNumber where
  /-- An unsigned integer. -/
  | posInt (n : UInt64)
  /-- A negative integer. -/
  | negInt (n : Int64) (negative : n < 0)
  /-- A float, as an exact rational. -/
  | float (q : ℚ)
  deriving DecidableEq

/-- `serde_json::Value`. -/
inductive Json where
  | null
  | bool (b : Bool)
  | num (n : JsonNumber)
  | str (s : String)
  | arr (items : List Json)
  | obj (fields : List (String × Json))
  deriving Inhabited

namespace Json

mutual

/-- Equality of values is decidable, child by child. -/
def decEq : (a b : Json) → Decidable (a = b)
  | .null, .null => isTrue rfl
  | .bool a, .bool b => decidable_of_iff (a = b) (by simp)
  | .num a, .num b => decidable_of_iff (a = b) (by simp)
  | .str a, .str b => decidable_of_iff (a = b) (by simp)
  | .arr a, .arr b =>
    match decEqItems a b with
    | isTrue h => isTrue (by rw [h])
    | isFalse h => isFalse fun e => h (Json.arr.inj e)
  | .obj a, .obj b =>
    match decEqFields a b with
    | isTrue h => isTrue (by rw [h])
    | isFalse h => isFalse fun e => h (Json.obj.inj e)
  | .null, .bool _ | .null, .num _ | .null, .str _ | .null, .arr _ | .null, .obj _
  | .bool _, .null | .bool _, .num _ | .bool _, .str _ | .bool _, .arr _ | .bool _, .obj _
  | .num _, .null | .num _, .bool _ | .num _, .str _ | .num _, .arr _ | .num _, .obj _
  | .str _, .null | .str _, .bool _ | .str _, .num _ | .str _, .arr _ | .str _, .obj _
  | .arr _, .null | .arr _, .bool _ | .arr _, .num _ | .arr _, .str _ | .arr _, .obj _
  | .obj _, .null | .obj _, .bool _ | .obj _, .num _ | .obj _, .str _ | .obj _, .arr _ =>
    isFalse nofun

/-- Equality of the items of two arrays. -/
def decEqItems : (a b : List Json) → Decidable (a = b)
  | [], [] => isTrue rfl
  | [], _ :: _ => isFalse nofun
  | _ :: _, [] => isFalse nofun
  | a :: as, b :: bs =>
    match decEq a b, decEqItems as bs with
    | isTrue h, isTrue hs => isTrue (by rw [h, hs])
    | isFalse h, _ => isFalse fun e => h (List.cons.inj e).1
    | _, isFalse hs => isFalse fun e => hs (List.cons.inj e).2

/-- Equality of the fields of two objects. -/
def decEqFields : (a b : List (String × Json)) → Decidable (a = b)
  | [], [] => isTrue rfl
  | [], _ :: _ => isFalse nofun
  | _ :: _, [] => isFalse nofun
  | (k, a) :: as, (l, b) :: bs =>
    if hk : k = l then
      match decEq a b, decEqFields as bs with
      | isTrue h, isTrue hs => isTrue (by rw [hk, h, hs])
      | isFalse h, _ => isFalse fun e => h (Prod.mk.inj (List.cons.inj e).1).2
      | _, isFalse hs => isFalse fun e => hs (List.cons.inj e).2
    else isFalse fun e => hk (Prod.mk.inj (List.cons.inj e).1).1

end

instance : DecidableEq Json := decEq

/-! ## Reading a value -/

/-- `Value::get` with a key: a field of an object, `none` for any other value. -/
def get? : Json → String → Option Json
  | .obj fields, key => fields.lookup key
  | _, _ => none

/-- `Value::as_object`. -/
def asObject : Json → Option (List (String × Json))
  | .obj fields => some fields
  | _ => none

/-- `Value::is_object`. -/
def isObject (j : Json) : Bool := j.asObject.isSome

/-- `Value::as_array`. -/
def asArray : Json → Option (List Json)
  | .arr items => some items
  | _ => none

/-- `Value::as_str`. -/
def asStr : Json → Option String
  | .str s => some s
  | _ => none

/-- `Value::as_bool`. -/
def asBool : Json → Option Bool
  | .bool b => some b
  | _ => none

/-- `Value::as_u64`: no float and no negative number is one. -/
def asU64 : Json → Option UInt64
  | .num (.posInt n) => some n
  | _ => none

/-- `Value::as_i64`: no float is one, and no number above `i64::MAX`. -/
def asI64 : Json → Option ℤ
  | .num (.posInt n) => if n.toNat < 2 ^ 63 then some n.toNat else none
  | .num (.negInt n _) => some n.toInt
  | _ => none

/-- `Value::as_f64`, with the value of the float taken exactly. -/
def asF64 : Json → Option ℚ
  | .num (.posInt n) => some n.toNat
  | .num (.negInt n _) => some n.toInt
  | .num (.float q) => some q
  | _ => none

/-! ## Writing an object -/

/-- `Map::insert`: the field takes its place in key order, or replaces the value
that stood there. -/
def insertField (key : String) (value : Json) : List (String × Json) → List (String × Json)
  | [] => [(key, value)]
  | (k, v) :: rest =>
    if key < k then (key, value) :: (k, v) :: rest
    else if key = k then (key, value) :: rest
    else (k, v) :: insertField key value rest

/-- The `json!` object with the given fields. -/
def ofFields (fields : List (String × Json)) : Json :=
  .obj (fields.foldl (fun out f => insertField f.1 f.2 out) [])

/-- One `Map::insert` after another. -/
def insertFields (fields : List (String × Json)) (map : List (String × Json)) :
    List (String × Json) :=
  fields.foldl (fun out f => insertField f.1 f.2 out) map

/-- `value[key] = ...` on an object. -/
def setField (j : Json) (key : String) (value : Json) : Json :=
  match j with
  | .obj fields => .obj (insertField key value fields)
  | other => other

/-- An unsigned integer as `json!` writes it. -/
def ofNat (n : ℕ) : Json := .num (.posInt (UInt64.ofNat n))

/-- A signed integer as `json!` writes it. -/
def ofInt (n : ℤ) : Json :=
  if h : Int64.ofInt n < 0 then .num (.negInt (Int64.ofInt n) h)
  else .num (.posInt (UInt64.ofNat n.toNat))

/-- A float as `json!` writes it. -/
def ofRat (q : ℚ) : Json := .num (.float q)

/-- A signed integer is read as it is written. -/
theorem asI64_ofInt (n : Int64) : (ofInt n.toInt).asI64 = some n.toInt := by
  unfold ofInt
  split
  · rw [asI64, Int64.ofInt_toInt]
  · have hnonneg : 0 ≤ n.toInt := by
      have h : ¬ Int64.ofInt n.toInt < 0 := ‹_›
      rw [Int64.ofInt_toInt, Int64.lt_iff_toInt_lt] at h
      simpa using h
    have hlt : n.toInt < 2 ^ 63 := n.toInt_lt
    have hsmall : (UInt64.ofNat n.toInt.toNat).toNat = n.toInt.toNat := by
      rw [UInt64.toNat_ofNat']
      omega
    rw [asI64, hsmall, if_pos (by omega), Int.toNat_of_nonneg hnonneg]

theorem asI64_ofInt_of_mem {n : ℤ} (hlo : -2 ^ 63 ≤ n) (hhi : n < 2 ^ 63) : (ofInt n).asI64 = some n := by
  have hint : (Int64.ofInt n).toInt = n := by
    rw [Int64.toInt_ofInt, Int.bmod_def]
    simp only [Int64.size]
    omega
  rw [← hint]
  exact asI64_ofInt _

section InsertField

variable {key k : String} {value : Json} {fields : List (String × Json)}

@[simp] theorem lookup_insertField_same :
    (insertField key value fields).lookup key = some value := by
  induction fields with
  | nil => simp [insertField]
  | cons f fields ih =>
    obtain ⟨k', v'⟩ := f
    simp only [insertField]
    split
    · simp
    · split
      · simp
      · have hne : (key == k') = false := by simpa using ‹¬ key = k'›
        simp [List.lookup_cons, hne, ih]

theorem lookup_insertField_ne (h : k ≠ key) :
    (insertField key value fields).lookup k = fields.lookup k := by
  have hkey : (k == key) = false := by simpa using h
  induction fields with
  | nil => simp [insertField, List.lookup_cons, hkey]
  | cons f fields ih =>
    obtain ⟨k', v'⟩ := f
    simp only [insertField]
    split
    · simp [List.lookup_cons, hkey]
    · split
      · subst_vars
        simp [List.lookup_cons, hkey]
      · simp [List.lookup_cons, ih]

/-- A second insertion at the same key overwrites the first. -/
theorem insertField_insertField (value' : Json) :
    insertField key value (insertField key value' fields) = insertField key value fields := by
  induction fields with
  | nil => simp [insertField]
  | cons f fields ih =>
    obtain ⟨k', v'⟩ := f
    simp only [insertField]
    split
    · simp [insertField]
    · split
      · simp [insertField]
      · simp only [insertField, if_neg ‹¬ key < k'›, if_neg ‹¬ key = k'›, ih]

theorem insertField_comm {v w : Json} (h : key ≠ k) :
    insertField key v (insertField k w fields) = insertField k w (insertField key v fields) := by
  rcases lt_or_gt_of_ne h with hlt | hgt
  · exact insertField_comm_lt hlt
  · exact (insertField_comm_lt hgt).symm
where
  insertField_comm_lt {key k : String} {v w : Json} {fields : List (String × Json)}
      (h : key < k) :
      insertField key v (insertField k w fields) = insertField k w (insertField key v fields) := by
    have hne : ¬ k = key := fun e => absurd h (e ▸ lt_irrefl _)
    have hnl : ¬ k < key := not_lt.mpr h.le
    induction fields with
    | nil => simp [insertField, h, hne, hnl]
    | cons f fields ih =>
      obtain ⟨k', v'⟩ := f
      by_cases h1 : key < k'
      · by_cases h2 : k < k'
        · simp [insertField, h, h1, h2, hne, hnl]
        · by_cases h3 : k = k'
          · subst h3
            simp [insertField, h, hne, hnl]
          · simp [insertField, h1, h2, h3, hne, hnl]
      · by_cases h4 : key = k'
        · subst h4
          simp [insertField, hne, hnl]
        · have h2 : ¬ k < k' := fun hk => h1 (h.trans hk)
          have h3 : ¬ k = k' := fun e => h1 (e ▸ h)
          simp [insertField, h1, h2, h3, h4, ih]

/-- An insertion may be moved in front of insertions at other keys. -/
theorem insertFields_insertField {fields map : List (String × Json)} {v : Json}
    (h : key ∉ fields.map Prod.fst) :
    insertFields fields (insertField key v map) = insertField key v (insertFields fields map) := by
  induction fields generalizing map with
  | nil => rfl
  | cons f fields ih =>
    obtain ⟨hf, hfields⟩ : key ≠ f.1 ∧ key ∉ fields.map Prod.fst := by simpa using h
    change insertFields fields (insertField f.1 f.2 (insertField key v map)) = _
    rw [insertField_comm hf.symm, ih hfields]
    rfl

/-- Insertions at the same keys overwrite each other. -/
theorem insertFields_insertFields {fields fields' map : List (String × Json)}
    (hkeys : fields.map Prod.fst = fields'.map Prod.fst) (hnodup : (fields.map Prod.fst).Nodup) :
    insertFields fields (insertFields fields' map) = insertFields fields map := by
  induction fields generalizing fields' map with
  | nil =>
    obtain rfl : fields' = [] := by simpa using hkeys.symm
    rfl
  | cons f fields ih =>
    cases fields' with
    | nil => simp at hkeys
    | cons f' fields' =>
      obtain ⟨hf, hkeys⟩ : f.1 = f'.1 ∧ fields.map Prod.fst = fields'.map Prod.fst := by
        simpa using hkeys
      obtain ⟨hnot, hnodup⟩ : f.1 ∉ fields.map Prod.fst ∧ (fields.map Prod.fst).Nodup := by
        simpa using hnodup
      change insertFields fields (insertField f.1 f.2
        (insertFields fields' (insertField f'.1 f'.2 map))) = insertFields fields (insertField f.1 f.2 map)
      rw [insertFields_insertField (hf ▸ hkeys ▸ hnot : f'.1 ∉ fields'.map Prod.fst), hf,
        insertField_insertField, ← hf, insertFields_insertField hnot, ih hkeys hnodup,
        insertFields_insertField hnot]

theorem lookup_insertFields_of_notMem {fields map : List (String × Json)}
    (h : k ∉ fields.map Prod.fst) : (insertFields fields map).lookup k = map.lookup k := by
  induction fields generalizing map with
  | nil => rfl
  | cons f fields ih =>
    obtain ⟨hf, hfields⟩ : k ≠ f.1 ∧ k ∉ fields.map Prod.fst := by simpa using h
    exact (ih hfields).trans (lookup_insertField_ne hf)

theorem lookup_insertFields {fields map : List (String × Json)}
    (hnodup : (fields.map Prod.fst).Nodup) {f : String × Json} (h : f ∈ fields) :
    (insertFields fields map).lookup f.1 = some f.2 := by
  induction fields generalizing map with
  | nil => cases h
  | cons g fields ih =>
    obtain ⟨hnot, hnodup⟩ : g.1 ∉ fields.map Prod.fst ∧ (fields.map Prod.fst).Nodup := by
      simpa using hnodup
    cases h with
    | head => exact (lookup_insertFields_of_notMem hnot).trans lookup_insertField_same
    | tail _ h => exact ih hnodup h

/-- A field under a new key stands beside the others. -/
theorem insertField_perm {v : Json} (h : key ∉ fields.map Prod.fst) :
    (insertField key v fields).Perm ((key, v) :: fields) := by
  induction fields with
  | nil => rfl
  | cons f fields ih =>
    obtain ⟨hf, hfields⟩ : key ≠ f.1 ∧ key ∉ fields.map Prod.fst := by simpa using h
    rw [insertField]
    split
    · rfl
    · exact ((ih hfields).cons f).trans (List.Perm.swap _ _ _)

/-- An object whose keys differ has the fields it was made of. -/
theorem insertFields_perm {fields map : List (String × Json)}
    (h : ((fields ++ map).map Prod.fst).Nodup) : (insertFields fields map).Perm (fields ++ map) := by
  induction fields generalizing map with
  | nil => rfl
  | cons f fields ih =>
    obtain ⟨hf, hrest⟩ : f.1 ∉ (fields ++ map).map Prod.fst ∧ ((fields ++ map).map Prod.fst).Nodup :=
      List.nodup_cons.mp h
    have hmap : f.1 ∉ map.map Prod.fst := fun hmem => hf (by
      rw [List.map_append]
      exact List.mem_append_right _ hmem)
    have hput : (insertField f.1 f.2 map).Perm (f :: map) := insertField_perm hmap
    have hmid : (fields ++ insertField f.1 f.2 map).Perm (f :: (fields ++ map)) :=
      (hput.append_left fields).trans List.perm_middle
    have hnodup : ((fields ++ insertField f.1 f.2 map).map Prod.fst).Nodup :=
      ((hmid.map Prod.fst).nodup_iff).mpr h
    exact (ih hnodup).trans hmid

/-- The fields of an object whose keys differ are looked up where they are listed. -/
theorem lookup_insertFields_nil {fields : List (String × Json)} (hnodup : (fields.map Prod.fst).Nodup) :
    (insertFields fields []).lookup k = fields.lookup k := by
  cases h : fields.lookup k with
  | none =>
    refine lookup_insertFields_of_notMem fun hmem => ?_
    obtain ⟨f, hf, rfl⟩ := List.mem_map.mp hmem
    simpa using List.lookup_eq_none_iff.mp h f hf
  | some v =>
    obtain ⟨early, late, rfl, -⟩ := List.lookup_eq_some_iff.mp h
    exact lookup_insertFields (f := (k, v)) hnodup (by simp)

/-- Every field of a `json!` object whose keys differ reads back as it was written. -/
theorem get?_ofFields {fields : List (String × Json)} (hnodup : (fields.map Prod.fst).Nodup)
    {f : String × Json} (h : f ∈ fields) : (ofFields fields).get? f.1 = some f.2 :=
  lookup_insertFields hnodup h

/-- The same of a field given as key and value. -/
theorem get?_ofFields_mem {fields : List (String × Json)} {v : Json}
    (hnodup : (fields.map Prod.fst).Nodup) (h : (k, v) ∈ fields) :
    (ofFields fields).get? k = some v :=
  get?_ofFields hnodup h

/-- Equal `json!` objects that list the same keys were made of the same fields. -/
theorem ofFields_inj {fields fields' : List (String × Json)}
    (hkeys : fields.map Prod.fst = fields'.map Prod.fst) (hnodup : (fields.map Prod.fst).Nodup)
    (h : ofFields fields = ofFields fields') : fields = fields' := by
  have hlookup (f : String × Json) (hf : f ∈ fields) (f' : String × Json) (hf' : f' ∈ fields')
      (hkey : f.1 = f'.1) : f = f' := by
    have hget := get?_ofFields hnodup hf
    rw [h, hkey, get?_ofFields (hkeys ▸ hnodup) hf'] at hget
    exact Prod.ext hkey (Option.some.inj hget).symm
  refine List.ext_getElem (by simpa using congrArg List.length hkeys) fun n hn hn' => ?_
  refine hlookup _ (List.getElem_mem hn) _ (List.getElem_mem hn') ?_
  have hkey := congrArg (·[n]?) hkeys
  simpa [hn, hn'] using hkey

theorem get?_ofFields_of_notMem {fields : List (String × Json)} (h : k ∉ fields.map Prod.fst) :
    (ofFields fields).get? k = none :=
  lookup_insertFields_of_notMem h

/-- Writing a field again as it was written changes nothing. -/
theorem insertField_insertFields {fields map : List (String × Json)} {v : Json}
    (hnodup : (fields.map Prod.fst).Nodup) (h : (key, v) ∈ fields) :
    insertField key v (insertFields fields map) = insertFields fields map := by
  induction fields generalizing map with
  | nil => cases h
  | cons g fields ih =>
    obtain ⟨hnot, hnodup⟩ : g.1 ∉ fields.map Prod.fst ∧ (fields.map Prod.fst).Nodup := by
      simpa using hnodup
    change insertField key v (insertFields fields (insertField g.1 g.2 map)) = _
    cases h with
    | head =>
      rw [← insertFields_insertField hnot, insertField_insertField]
      rfl
    | tail _ h => exact ih hnodup h

/-- A field that was not there is taken out again. -/
theorem filter_insertField {v : Json} (h : key ∉ fields.map Prod.fst) :
    (insertField key v fields).filter (fun f => f.1 != key) = fields := by
  have hall : fields.filter (fun f => f.1 != key) = fields := by
    refine List.filter_eq_self.mpr fun f hf => ?_
    have : f.1 ≠ key := fun e => h (e ▸ List.mem_map_of_mem hf)
    simpa using this
  induction fields with
  | nil => simp [insertField]
  | cons g fields ih =>
    obtain ⟨hg, hfields⟩ : key ≠ g.1 ∧ key ∉ fields.map Prod.fst := by simpa using h
    obtain ⟨k, w⟩ := g
    simp only [insertField]
    split
    · rw [List.filter_cons_of_neg (by simp), hall]
    · rw [List.filter_cons_of_pos (by simpa using hg.symm)]
      rw [List.filter_cons_of_pos (by simpa using hg.symm), List.cons.injEq] at hall
      rw [ih hfields hall.2]

/-- Taking a field out leaves the others. -/
theorem lookup_filter_ne {name : String} (h : name ≠ key) :
    (fields.filter fun f => f.1 != key).lookup name = fields.lookup name := by
  induction fields with
  | nil => rfl
  | cons f fields ih =>
    by_cases hf : f.1 = key
    · have hne : (name == f.1) = false := by simpa [hf] using h
      rw [List.filter_cons_of_neg (by simp [hf]), ih, List.lookup_cons, hne]
    · rw [List.filter_cons_of_pos (by simpa using hf), List.lookup_cons, List.lookup_cons, ih]

theorem get?_setField_same {j : Json} (h : j.isObject = true) :
    (j.setField key value).get? key = some value := by
  cases j with
  | obj fields => exact lookup_insertField_same
  | _ => cases h

theorem get?_setField_ne {j : Json} (h : k ≠ key) : (j.setField key value).get? k = j.get? k := by
  cases j with
  | obj fields => exact lookup_insertField_ne h
  | _ => rfl

@[simp] theorem isObject_setField {j : Json} : (j.setField key value).isObject = j.isObject := by
  cases j <;> rfl

@[simp] theorem isObject_ofFields {fields : List (String × Json)} :
    (ofFields fields).isObject = true := rfl

end InsertField

/-! ## Nesting -/

mutual

/-- How many arrays and objects stand around the innermost value. -/
def depth : Json → ℕ
  | .arr items => itemsDepth items + 1
  | .obj fields => fieldsDepth fields + 1
  | _ => 0

/-- The deepest of the items of an array. -/
def itemsDepth : List Json → ℕ
  | [] => 0
  | j :: rest => max (depth j) (itemsDepth rest)

/-- The deepest of the fields of an object. -/
def fieldsDepth : List (String × Json) → ℕ
  | [] => 0
  | (_, j) :: rest => max (depth j) (fieldsDepth rest)

end

/-- The nesting `serde_json` parses; a deeper text is an error. -/
def parseDepth : ℕ := 127

theorem itemsDepth_le {items : List Json} {n : ℕ} :
    itemsDepth items ≤ n ↔ ∀ j ∈ items, j.depth ≤ n := by
  induction items with
  | nil => simp [itemsDepth]
  | cons j rest ih => simp [itemsDepth, ih]

theorem fieldsDepth_le {fields : List (String × Json)} {n : ℕ} :
    fieldsDepth fields ≤ n ↔ ∀ f ∈ fields, f.2.depth ≤ n := by
  induction fields with
  | nil => simp [fieldsDepth]
  | cons f rest ih => simp [fieldsDepth, ih]

theorem mem_insertField {key : String} {value : Json} {fields : List (String × Json)}
    {f : String × Json} (h : f ∈ insertField key value fields) : f = (key, value) ∨ f ∈ fields := by
  induction fields with
  | nil => simpa [insertField] using h
  | cons g fields ih =>
    obtain ⟨k, v⟩ := g
    simp only [insertField] at h
    split at h
    · simpa using h
    · split at h
      · cases h with
        | head => exact .inl rfl
        | tail _ h => exact .inr (.tail _ h)
      · cases h with
        | head => exact .inr (.head _)
        | tail _ h => exact (ih h).imp_right (.tail _)

theorem mem_insertFields {fields map : List (String × Json)} {f : String × Json}
    (h : f ∈ insertFields fields map) : f ∈ fields ∨ f ∈ map := by
  induction fields generalizing map with
  | nil => exact .inr h
  | cons g fields ih =>
    rcases ih h with h | h
    · exact .inl (.tail _ h)
    · rcases mem_insertField h with rfl | h
      · exact .inl (.head _)
      · exact .inr h

/-- Inserting values no deeper than the object's own fields keeps the object's depth. -/
theorem depth_insertFields_le {fields map : List (String × Json)} {n : ℕ}
    (hfields : ∀ f ∈ fields, f.2.depth ≤ n) (hmap : fieldsDepth map ≤ n) :
    (obj (insertFields fields map)).depth ≤ n + 1 := by
  refine Nat.succ_le_succ (fieldsDepth_le.mpr fun f hf => ?_)
  rcases mem_insertFields hf with hf | hf
  · exact hfields f hf
  · exact fieldsDepth_le.mp hmap f hf

theorem depth_obj_le {fields : List (String × Json)} {n : ℕ} :
    (obj fields).depth ≤ n + 1 ↔ ∀ f ∈ fields, f.2.depth ≤ n := by
  rw [← fieldsDepth_le]
  exact Nat.add_le_add_iff_right

theorem depth_arr_le {items : List Json} {n : ℕ} :
    (arr items).depth ≤ n + 1 ↔ ∀ j ∈ items, j.depth ≤ n := by
  rw [← itemsDepth_le]
  exact Nat.add_le_add_iff_right

theorem depth_insertField_le {key : String} {value : Json} {fields : List (String × Json)} {n : ℕ}
    (hvalue : value.depth ≤ n) (h : (obj fields).depth ≤ n + 1) :
    (obj (insertField key value fields)).depth ≤ n + 1 := by
  rw [depth_obj_le] at h ⊢
  intro f hf
  rcases mem_insertField hf with rfl | hf
  · exact hvalue
  · exact h f hf

theorem depth_setField_le {j value : Json} {key : String} {n : ℕ} (hvalue : value.depth ≤ n)
    (h : j.depth ≤ n + 1) : (j.setField key value).depth ≤ n + 1 := by
  cases j with
  | obj fields => exact depth_insertField_le hvalue h
  | _ => exact h

theorem depth_ofFields_le {fields : List (String × Json)} {n : ℕ}
    (h : ∀ f ∈ fields, f.2.depth ≤ n) : (ofFields fields).depth ≤ n + 1 :=
  depth_insertFields_le h (Nat.zero_le n)

/-- What stands under a key is less deep. -/
theorem depth_of_get? {j value : Json} {key : String} {n : ℕ} (h : j.get? key = some value)
    (hj : j.depth ≤ n + 1) : value.depth ≤ n := by
  cases j with
  | obj fields =>
    obtain ⟨_, _, hfields, -⟩ := List.lookup_eq_some_iff.mp h
    exact depth_obj_le.mp hj (key, value) (by simp [hfields])
  | _ => cases h

@[simp] theorem depth_str (s : String) : (str s).depth = 0 := rfl

@[simp] theorem depth_bool (b : Bool) : (bool b).depth = 0 := rfl

@[simp] theorem depth_ofRat (q : ℚ) : (ofRat q).depth = 0 := rfl

@[simp] theorem depth_ofInt (n : ℤ) : (ofInt n).depth = 0 := by
  unfold ofInt
  split <;> rfl

/-! ## Floats that pass through text -/

mutual

/-- The value that is read where this one was printed, when `f` of a float is read where
that float was printed. -/
def reread (f : ℚ → ℚ) : Json → Json
  | .num (.float q) => .num (.float (f q))
  | .arr items => .arr (rereadItems f items)
  | .obj fields => .obj (rereadFields f fields)
  | j => j

def rereadItems (f : ℚ → ℚ) : List Json → List Json
  | [] => []
  | j :: rest => reread f j :: rereadItems f rest

def rereadFields (f : ℚ → ℚ) : List (String × Json) → List (String × Json)
  | [] => []
  | (k, j) :: rest => (k, reread f j) :: rereadFields f rest

end

section Reread

variable (f : ℚ → ℚ)

theorem lookup_rereadFields (key : String) :
    ∀ fields, (rereadFields f fields).lookup key = (fields.lookup key).map (reread f)
  | [] => rfl
  | (k, j) :: rest => by
    rw [rereadFields, List.lookup_cons, List.lookup_cons]
    split
    · rfl
    · exact lookup_rereadFields key rest

theorem rereadFields_eq_map :
    ∀ fields, rereadFields f fields = fields.map fun entry => (entry.1, entry.2.reread f)
  | [] => rfl
  | (k, j) :: rest => by rw [rereadFields, List.map_cons, rereadFields_eq_map rest]

theorem rereadItems_eq_map : ∀ items, rereadItems f items = items.map (reread f)
  | [] => rfl
  | j :: rest => by rw [rereadItems, List.map_cons, rereadItems_eq_map rest]

@[simp] theorem get?_reread (j : Json) (key : String) :
    (j.reread f).get? key = (j.get? key).map (reread f) := by
  cases j with
  | obj fields => exact lookup_rereadFields f key fields
  | num n => cases n <;> rfl
  | _ => rfl

@[simp] theorem asStr_reread (j : Json) : (j.reread f).asStr = j.asStr := by
  cases j with
  | num n => cases n <;> rfl
  | _ => rfl

@[simp] theorem asU64_reread (j : Json) : (j.reread f).asU64 = j.asU64 := by
  cases j with
  | num n => cases n <;> rfl
  | _ => rfl

mutual

@[simp] theorem depth_reread : ∀ j : Json, (j.reread f).depth = j.depth
  | .null | .bool _ | .str _ | .num (.posInt _) | .num (.negInt _ _) | .num (.float _) => rfl
  | .arr items => by rw [reread, depth, depth, itemsDepth_reread items]
  | .obj fields => by rw [reread, depth, depth, fieldsDepth_reread fields]

theorem itemsDepth_reread : ∀ items : List Json, itemsDepth (rereadItems f items) = itemsDepth items
  | [] => rfl
  | j :: rest => by rw [rereadItems, itemsDepth, itemsDepth, depth_reread j, itemsDepth_reread rest]

theorem fieldsDepth_reread :
    ∀ fields : List (String × Json), fieldsDepth (rereadFields f fields) = fieldsDepth fields
  | [] => rfl
  | (k, j) :: rest => by
    rw [rereadFields, fieldsDepth, fieldsDepth, depth_reread j, fieldsDepth_reread rest]

end

end Reread

mutual

/-- Floats that are read as they are printed leave a value as it is. -/
@[simp] theorem reread_id : ∀ j : Json, j.reread id = j
  | .null | .bool _ | .str _ | .num (.posInt _) | .num (.negInt _ _) | .num (.float _) => rfl
  | .arr items => by rw [reread, rereadItems_id items]
  | .obj fields => by rw [reread, rereadFields_id fields]

theorem rereadItems_id : ∀ items : List Json, rereadItems id items = items
  | [] => rfl
  | j :: rest => by rw [rereadItems, reread_id j, rereadItems_id rest]

theorem rereadFields_id : ∀ fields : List (String × Json), rereadFields id fields = fields
  | [] => rfl
  | (k, j) :: rest => by rw [rereadFields, reread_id j, rereadFields_id rest]

end

/-! ## The text of a value -/

def escapeChar (c : Char) : String :=
  if c = '"' then "\\\""
  else if c = '\\' then "\\\\"
  else if c = '\n' then "\\n"
  else if c = '\r' then "\\r"
  else if c = '\t' then "\\t"
  else if c.toNat = 8 then "\\b"
  else if c.toNat = 12 then "\\f"
  else if c.toNat < 32 then
    "\\u00" ++ String.singleton (Nat.digitChar (c.toNat / 16)) ++
      String.singleton (Nat.digitChar (c.toNat % 16))
  else String.singleton c

def renderStr (s : String) : String := "\"" ++ String.join (s.toList.map escapeChar) ++ "\""

/-- A number literal; `printFloat` prints a float. -/
def renderNumber (printFloat : ℚ → String) : JsonNumber → String
  | .posInt n => toString n.toNat
  | .negInt n _ => toString n.toInt
  | .float q => printFloat q

mutual

/-- `serde_json::to_string`. -/
def render (printFloat : ℚ → String) : Json → String
  | .null => "null"
  | .bool b => if b then "true" else "false"
  | .num n => renderNumber printFloat n
  | .str s => renderStr s
  | .arr items => "[" ++ renderItems printFloat items ++ "]"
  | .obj fields => "\x7b" ++ renderFields printFloat fields ++ "\x7d"

/-- The items of an array, comma separated. -/
def renderItems (printFloat : ℚ → String) : List Json → String
  | [] => ""
  | [j] => render printFloat j
  | j :: rest => render printFloat j ++ "," ++ renderItems printFloat rest

/-- The fields of an object, comma separated. -/
def renderFields (printFloat : ℚ → String) : List (String × Json) → String
  | [] => ""
  | [(k, j)] => renderStr k ++ ":" ++ render printFloat j
  | (k, j) :: rest => renderStr k ++ ":" ++ render printFloat j ++ "," ++ renderFields printFloat rest

end

mutual

/-- `normalize_value`: every object rebuilt field by field in key order. -/
def normalizeValue : Json → Json
  | .arr items => .arr (normalizeItems items)
  | .obj fields => ofFields (normalizeFields fields)
  | other => other

def normalizeItems : List Json → List Json
  | [] => []
  | j :: rest => normalizeValue j :: normalizeItems rest

def normalizeFields : List (String × Json) → List (String × Json)
  | [] => []
  | (k, j) :: rest => (k, normalizeValue j) :: normalizeFields rest

end

/-- `canonical_json`: the text of the normalised value. -/
def canonicalJson (printFloat : ℚ → String) (j : Json) : String :=
  (normalizeValue j).render printFloat

example : (ofFields [("b", .arr [.null, ofNat 7]), ("a", .str "x\n")]).render (fun _ => "") =
    "\x7b\"a\":\"x\\n\",\"b\":[null,7]\x7d" := by decide

end Json

end Protheus
