import Mathlib

/-!
The parts of Rust's standard library the crates lean on and Lean does not have
under the same meaning.  A float is the rational it stands for.
-/

namespace Protheus.RustStd

/-- `f64::round`: to the nearest integer, halves away from zero. -/
def round (q : ℚ) : ℤ := if 0 ≤ q then ⌊q + 1 / 2⌋ else -⌊-q + 1 / 2⌋

/-- `f64::clamp`. -/
def clamp (q lo hi : ℚ) : ℚ := if q < lo then lo else if hi < q then hi else q

/-- `char::is_whitespace`: the Unicode `White_Space` property. -/
def isWhitespace (c : Char) : Bool :=
  let n := c.toNat
  (9 ≤ n && n ≤ 13) || n == 32 || n == 0x85 || n == 0xA0 || n == 0x1680 ||
    (0x2000 ≤ n && n ≤ 0x200A) || n == 0x2028 || n == 0x2029 || n == 0x202F || n == 0x205F ||
    n == 0x3000

/-- `str::trim`. -/
def trim (s : String) : String :=
  String.ofList ((s.toList.dropWhile isWhitespace).reverse.dropWhile isWhitespace).reverse

/-- A text without whitespace is trimmed. -/
theorem trim_eq_self {s : String} (h : ∀ c ∈ s.toList, isWhitespace c = false) : trim s = s := by
  have hnone (l : List Char) (hl : ∀ c ∈ l, isWhitespace c = false) :
      l.dropWhile isWhitespace = l := by
    cases l with
    | nil => rfl
    | cons c rest =>
      rw [List.dropWhile_cons_of_neg]
      simp [hl c List.mem_cons_self]
  rw [trim, hnone _ h, hnone _ fun c hc => h c (List.mem_reverse.mp hc), List.reverse_reverse,
    String.ofList_toList]

theorem trim_eq_empty_iff {s : String} : trim s = "" ↔ ∀ c ∈ s.toList, isWhitespace c = true := by
  have hempty (l : List Char) : String.ofList l = "" ↔ l = [] :=
    ⟨fun h => by simpa using congrArg String.toList h, fun h => by rw [h]⟩
  rw [trim, hempty, List.reverse_eq_nil_iff, List.dropWhile_eq_nil_iff]
  simp only [List.mem_reverse]
  constructor
  · intro h c hc
    rw [← List.takeWhile_append_dropWhile (p := isWhitespace) (l := s.toList), List.mem_append] at hc
    cases hc with
    | inl hc => exact List.mem_takeWhile_imp hc
    | inr hc => exact h c hc
  · exact fun h c hc => h c ((List.dropWhile_sublist _).mem hc)

/-- A trimmed text starts with a visible character. -/
theorem trim_toList (s : String) : (trim s).toList = [] ∨
    ∃ c rest, (trim s).toList = c :: rest ∧ isWhitespace c = false := by
  rw [trim, String.toList_ofList]
  cases hvisible : s.toList.dropWhile isWhitespace with
  | nil => exact .inl rfl
  | cons c rest =>
    have hc : isWhitespace c = false := by
      have hne : s.toList.dropWhile isWhitespace ≠ [] := by simp [hvisible]
      have := List.head_dropWhile_not isWhitespace hne
      simpa [hvisible] using this
    refine .inr ⟨c, (rest.reverse.dropWhile isWhitespace).reverse, ?_, hc⟩
    rw [List.reverse_cons, List.dropWhile_append]
    split
    · rename_i hempty
      rw [List.isEmpty_iff.mp hempty]
      simp [hc]
    · simp

/-- `str::to_ascii_lowercase`. -/
def toAsciiLowercase (s : String) : String := String.ofList (s.toList.map Char.toLower)

/-- `str::contains`. -/
def strContains (hay needle : String) : Bool := decide (needle.toList <:+: hay.toList)

/-- `str::strip_prefix`. -/
def stripPrefix (s needle : String) : Option String :=
  if needle.toList <+: s.toList then some (String.ofList (s.toList.drop needle.toList.length))
  else none

theorem stripPrefix_eq_some {s needle rest : String} :
    stripPrefix s needle = some rest ↔ s = needle ++ rest := by
  unfold stripPrefix
  constructor
  · intro h
    split at h
    · obtain ⟨t, ht⟩ := ‹needle.toList <+: s.toList›
      obtain rfl := Option.some.inj h
      refine String.toList_injective ?_
      rw [String.toList_append, String.toList_ofList, ← ht, List.drop_left]
    · cases h
  · rintro rfl
    simp

/-- `str::split` at a character. -/
def splitChar (c : Char) (s : String) : List String := (s.toList.splitOn c).map String.ofList

/-- `str::split_whitespace`, the words joined by single spaces. -/
def joinWords (s : String) : List Char :=
  [' '].intercalate ((s.toList.splitOnP isWhitespace).filter (!·.isEmpty))

/-- A text with one separator has two pieces. -/
theorem splitChar_append {c : Char} {a b : String} (ha : c ∉ a.toList) (hb : c ∉ b.toList) :
    splitChar c (a ++ String.ofList [c] ++ b) = [a, b] := by
  have htext : (a ++ String.ofList [c] ++ b).toList = a.toList ++ c :: b.toList := by simp
  rw [splitChar, htext, List.splitOn_append_cons_self_of_not_mem ha, List.splitOn_eq_singleton hb]
  simp

/-- The number a row of digits stands for. -/
def digitsValue (digits : List Char) : ℕ :=
  digits.foldl (fun n c => n * 10 + (c.toNat - '0'.toNat)) 0

/-- `str::parse::<u64>`. -/
def parseU64 (s : String) : Option UInt64 :=
  let digits : List Char :=
    match s.toList with
    | '+' :: rest => rest
    | all => all
  if digits ≠ [] ∧ digits.all Char.isDigit ∧ digitsValue digits < 2 ^ 64 then
    some (UInt64.ofNat (digitsValue digits))
  else none

/-- `str::parse::<i64>`. -/
def parseI64 (s : String) : Option Int64 :=
  let (negative, digits) : Bool × List Char :=
    match s.toList with
    | '-' :: rest => (true, rest)
    | '+' :: rest => (false, rest)
    | all => (false, all)
  let bound := if negative then 2 ^ 63 + 1 else 2 ^ 63
  if digits ≠ [] ∧ digits.all Char.isDigit ∧ digitsValue digits < bound then
    some (Int64.ofInt (if negative then -digitsValue digits else digitsValue digits))
  else none

/-- `slice::sort_by`, which is stable. -/
def sortBy {α : Type*} (cmp : α → α → Ordering) (rows : List α) : List α :=
  rows.insertionSort fun a b => cmp a b ≠ .gt

section SortBy

variable {α : Type*} {cmp : α → α → Ordering} [Std.TransCmp cmp]

/-- A comparison decides between any two rows. -/
instance total_ne_gt : Std.Total fun a b => cmp a b ≠ .gt := by
  refine ⟨fun a b => ?_⟩
  rw [ne_eq, ne_eq, ← Ordering.isLE_iff_ne_gt, ← Ordering.isLE_iff_ne_gt]
  by_contra hnot
  obtain ⟨hab, hba⟩ := not_or.mp hnot
  have hlt : cmp b a = .lt := Std.OrientedCmp.lt_of_not_isLE hab
  exact hba (by rw [hlt]; rfl)

/-- And through a third. -/
instance trans_ne_gt : IsTrans α fun a b => cmp a b ≠ .gt := by
  refine ⟨fun a b c hab hbc => ?_⟩
  rw [ne_eq, ← Ordering.isLE_iff_ne_gt] at hab hbc ⊢
  exact Std.TransCmp.isLE_trans hab hbc

/-- A sorted list stands in order. -/
theorem pairwise_sortBy (rows : List α) : (sortBy cmp rows).Pairwise fun a b => cmp a b ≠ .gt :=
  List.pairwise_insertionSort (fun a b => cmp a b ≠ .gt) rows

end SortBy

/-- The first match and the others are the list. -/
theorem cons_eraseP_perm {α : Type*} {p : α → Bool} {a : α} : ∀ {l : List α}, l.find? p = some a →
    (a :: l.eraseP p).Perm l
  | b :: l, h => by
    rw [List.find?_cons] at h
    cases hb : p b with
    | true =>
      rw [hb] at h
      cases h
      rw [List.eraseP_cons_of_pos hb]
    | false =>
      rw [hb] at h
      rw [List.eraseP_cons_of_neg (by simp [hb])]
      exact (List.Perm.swap b a _).trans ((cons_eraseP_perm h).cons b)

/-- `u64::saturating_sub`. -/
def satSub (a b : UInt64) : UInt64 := if b ≤ a then a - b else 0

theorem toNat_satSub (a b : UInt64) : (satSub a b).toNat = a.toNat - b.toNat := by
  unfold satSub
  split
  · exact UInt64.toNat_sub_of_le a b ‹_›
  · have : a.toNat < b.toNat := by simpa [UInt64.le_iff_toNat_le] using ‹¬ b ≤ a›
    simp only [UInt64.toNat_zero]
    omega

/-- `u64::saturating_add`. -/
def satAdd (a b : UInt64) : UInt64 := if a.toNat + b.toNat < 2 ^ 64 then a + b else -1

theorem le_satAdd (a b : UInt64) : a ≤ satAdd a b := by
  have ha := a.toNat_lt
  rw [UInt64.le_iff_toNat_le]
  unfold satAdd
  split
  · rw [UInt64.toNat_add, Nat.mod_eq_of_lt ‹_›]
    omega
  · rw [show (-1 : UInt64).toNat = 2 ^ 64 - 1 from rfl]
    omega

/-- Below any number at all, adding one is a step up. -/
theorem lt_satAdd_one {a limit : UInt64} (h : a < limit) : a < satAdd a 1 := by
  have hlimit := limit.toNat_lt
  rw [UInt64.lt_iff_toNat_lt] at h ⊢
  have hsum : a.toNat + (1 : UInt64).toNat < 2 ^ 64 := by
    rw [UInt64.toNat_one]
    omega
  rw [satAdd, if_pos hsum, UInt64.toNat_add, Nat.mod_eq_of_lt hsum, UInt64.toNat_one]
  omega

/-- `u32::saturating_add(1)`. -/
def satSucc (a : UInt32) : UInt32 := if a.toNat + 1 < 2 ^ 32 then a + 1 else a

theorem toNat_satSucc (a : UInt32) : (satSucc a).toNat = min (a.toNat + 1) (2 ^ 32 - 1) := by
  have ha := a.toNat_lt
  unfold satSucc
  split
  · rw [UInt32.toNat_add, show UInt32.toNat 1 = 1 from rfl, Nat.mod_eq_of_lt ‹_›]
    omega
  · omega

/-! ## Machine integers as bounded naturals -/

/-- `u32::MAX`. -/
def u32Max : ℕ := 2 ^ 32 - 1

/-- `u64::MAX`. -/
def u64Max : ℕ := 2 ^ 64 - 1

/-- `saturating_add` of the type whose greatest value is `bound`. -/
def addUpTo (bound a b : ℕ) : ℕ := min (a + b) bound

theorem addUpTo_of_le {bound a b : ℕ} (h : a + b ≤ bound) : addUpTo bound a b = a + b :=
  Nat.min_eq_left h

/-- The nearest `f32` to an integer: 24 significant bits, ties to even. -/
def roundF32 (n : ℕ) : ℕ :=
  let shift := Nat.log2 n - 23
  let unit := 2 ^ shift
  let up := unit < 2 * (n % unit) || (unit == 2 * (n % unit) && n / unit % 2 == 1)
  (n / unit + if up then 1 else 0) * unit

/-- The nearest `f64` to a number that is in its range: 53 significant bits, ties to even. -/
def roundF64 (q : ℚ) : ℚ :=
  let num := q.num.natAbs
  let log := (Nat.log2 num : ℤ) - Nat.log2 q.den
  let log := if q.den * 2 ^ log.toNat ≤ num * 2 ^ (-log).toNat then log else log - 1
  -- the last place stands for `2 ^ place`
  let place := max (log - 52) (-1074)
  let scaled := num * 2 ^ (-place).toNat
  let unit := q.den * 2 ^ place.toNat
  let up := unit < 2 * (scaled % unit) || (unit == 2 * (scaled % unit) && scaled / unit % 2 == 1)
  let units := scaled / unit + if up then 1 else 0
  mkRat (q.num.sign * (units * 2 ^ place.toNat : ℕ)) (2 ^ (-place).toNat)

/-- A decimal without its last zeros: the digits, and how many of them stand behind the point. -/
def trimZeros : ℕ → ℕ → ℕ → ℕ × ℕ
  | 0, digits, places => (digits, places)
  | fuel + 1, digits, places =>
    if digits % 10 = 0 ∧ 0 < places then trimZeros fuel (digits / 10) (places - 1) else (digits, places)

/-- The float that `serde_json` reads where it printed a positive one below `10 ^ 15`: it prints
the shortest decimal that stands for the float, and reads the digits and the power of ten as
two floats that it divides. -/
def rereadF64 (q : ℚ) : ℚ :=
  let width := (Nat.toDigits 10 q.den).length
  -- the decimals of 15 to 17 digits that come next to `q`
  let size := (Nat.toDigits 10 (q.num.natAbs * 10 ^ width / q.den)).length
  let decimals := [15, 16, 17].map fun digits : ℕ =>
    let places := digits + width - size
    (((2 * q.num.natAbs * 10 ^ places + q.den) / (2 * q.den), places) : ℕ × ℕ)
  match decimals.find? fun decimal => roundF64 (mkRat decimal.1 (10 ^ decimal.2)) == q with
  | some (digits, places) =>
    let (digits, places) := trimZeros 17 digits places
    roundF64 (roundF64 digits / roundF64 (10 ^ places))
  | none => q

example : roundF64 (1 / 10) = 3602879701896397 / 2 ^ 55 := by decide +kernel

example : rereadF64 (roundF64 (43520000000000003 / 10 ^ 17)) = roundF64 (4352 / 10000) := by decide +kernel

/-! ## Separated texts -/

/-- What is separated is cut at its first separator in one way. -/
theorem append_cons_inj {α : Type*} [DecidableEq α] {sep : α} {a b c d : List α} (ha : sep ∉ a) (hc : sep ∉ c)
    (h : a ++ sep :: b = c ++ sep :: d) : a = c ∧ b = d := by
  have hcut {s : List α} (hs : sep ∉ s) (t : List α) :
      (s ++ sep :: t).takeWhile (· ≠ sep) = s := by
    have hother (x : α) (hx : x ∈ s) : decide (x ≠ sep) = true := by
      rw [decide_eq_true_eq]
      rintro rfl
      exact hs hx
    rw [List.takeWhile_append_of_pos hother]
    simp
  have hac : a = c := by rw [← hcut ha b, h, hcut hc]
  subst hac
  exact ⟨rfl, (List.cons.inj (List.append_cancel_left h)).2⟩

theorem append_cons_inj_last {α : Type*} [DecidableEq α] {sep : α} {a b c d : List α}
    (hb : sep ∉ b) (hd : sep ∉ d) (h : a ++ sep :: b = c ++ sep :: d) : a = c ∧ b = d := by
  have hreverse := congrArg List.reverse h
  simp only [List.reverse_append, List.reverse_cons, List.append_assoc, List.singleton_append] at hreverse
  have hcut := append_cons_inj (by simpa using hb) (by simpa using hd) hreverse
  exact ⟨List.reverse_inj.mp hcut.2, List.reverse_inj.mp hcut.1⟩

theorem isDigit_of_mem_toString {n : ℕ} {c : Char} (hc : c ∈ (toString n).toList) : c.isDigit = true :=
  Nat.isDigit_of_mem_toDigits (by decide) (by decide) (Nat.toList_repr ▸ hc)

/-- A character that is no digit is in no number. -/
theorem notMem_toString {c : Char} (hc : c.isDigit = false) (n : ℕ) : c ∉ (toString n).toList :=
  fun hmem => by rw [isDigit_of_mem_toString hmem] at hc; cases hc

theorem toString_injective : Function.Injective (toString : ℕ → String) := fun _ _ => Nat.repr_injective

/-- `str::trim_matches`. -/
def trimMatches (c : Char) (l : List Char) : List Char :=
  ((l.dropWhile (· == c)).reverse.dropWhile (· == c)).reverse

section TrimMatches

variable {c : Char} {l : List Char}

theorem trimMatches_eq_self (hhead : ∀ d ∈ l.head?, d ≠ c) (hlast : ∀ d ∈ l.getLast?, d ≠ c) :
    trimMatches c l = l := by
  have hkeep (l : List Char) (hl : ∀ d ∈ l.head?, d ≠ c) : l.dropWhile (· == c) = l := by
    cases l with
    | nil => rfl
    | cons d rest =>
      rw [List.dropWhile_cons_of_neg]
      simpa using hl d rfl
  rw [trimMatches, hkeep _ hhead, hkeep _ (by simpa using hlast), List.reverse_reverse]

/-- One more at each end makes no difference. -/
theorem trimMatches_wrap : trimMatches c (c :: (l ++ [c])) = trimMatches c l := by
  rw [trimMatches, List.dropWhile_cons_of_pos (by simp), List.dropWhile_append]
  split
  · rename_i hempty
    rw [trimMatches, List.isEmpty_iff.mp hempty, List.dropWhile_cons_of_pos (by simp)]
    rfl
  · rw [List.reverse_append, List.reverse_singleton, List.singleton_append,
      List.dropWhile_cons_of_pos (by simp), trimMatches]

end TrimMatches

/-- What is joined by a character is split at it, and each piece where it holds the character. -/
theorem splitOn_intercalate {c : Char} {pieces : List (List Char)} (hne : pieces ≠ []) :
    ([c].intercalate pieces).splitOn c = pieces.flatMap (·.splitOn c) := by
  induction pieces with
  | nil => exact absurd rfl hne
  | cons piece rest ih =>
    cases rest with
    | nil => simp
    | cons next rest =>
      rw [List.intercalate_cons_cons, List.append_assoc, List.singleton_append, List.splitOn_append_cons_self,
        ih (List.cons_ne_nil next rest)]
      rfl

end Protheus.RustStd
