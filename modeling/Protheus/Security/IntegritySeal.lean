import Protheus.Lib.MapM
import Protheus.Security.IntegrityScope

/-!
What an integrity seal detects.

After a seal, `verify` is ok as long as the files that the policy spells are as they were
(`verify_ok_iff_of_steady`).  So a seal does what it is for unless all that has changed in scope is hidden
(`detects_iff`).  A recorded text that begins with two dots is dropped when the policy is loaded again, and
a policy whose extensions read otherwise then is no steady one.
-/

namespace Protheus.Security.Integrity

open ConstitutionGuardian (normalizeRel Content)
open RustStd
open UnixPath (Path)
open V8Kernel (IsHex clean)

/-- What is taken of SHA-256 besides: its digests are 64 hex digits. -/
structure Digests (sha256HexBytes : Content → String) : Prop where
  hex : ∀ content, IsHex (sha256HexBytes content)
  length : ∀ content, (sha256HexBytes content).length = 64

/-- No two contents of one file have one digest. -/
def Distinguishes (sha256HexBytes : Content → String) (tree other : Tree) : Prop :=
  ∀ file content found, tree.content file = some content → other.content file = some found →
    sha256HexBytes found = sha256HexBytes content → found = content

/-! ## What a verification compares -/

variable {sha256HexBytes : Content → String} {tree other : Tree} {file : List Name} {path : Path}
  {raw : Option IntegrityPolicy} {sealed : IntegrityPolicy}

/-- A row that `verify` reads as it stands. -/
structure IsRecord (row : Path × String) : Prop where
  path : normalizeRel row.1 = row.1
  hex : IsHex row.2
  length : row.2.length = 64

theorem checkHash_eq_none {row : Path × String} (h : IsRecord row) :
    checkHash sha256HexBytes tree row = none ↔ (tree.file? row.1).map sha256HexBytes = some row.2 := by
  have hdigest : ¬(row.2.length ≠ 64 ∨ (!row.2.toList.all V8Kernel.isHexDigit) = true) := by
    rintro (hlength | hhex)
    · exact hlength h.length
    · rw [List.all_eq_true.mpr h.hex.2] at hhex
      cases hhex
  rw [checkHash, h.hex.toAsciiLowercase]
  cases hfile : tree.file? row.1 with
  | none =>
    rw [if_neg hdigest]
    split
    · exact ⟨nofun, nofun⟩
    · exact ⟨nofun, nofun⟩
  | some content =>
    have hexists : (!tree.exists? row.1) = false := by
      rw [Tree.exists?, hfile]
      rfl
    rw [hexists, if_neg Bool.false_ne_true, if_neg hdigest, Option.map_some, Option.some.injEq]
    simp

/-- `verify` is ok where something is recorded, every record is that of a file found, and every file
found is recorded. -/
theorem verify_ok_iff {again : Option IntegrityPolicy}
    (hrecords : ∀ row ∈ (loadIntegrityPolicy again).hashes, IsRecord row)
    (hpresent : ∀ path ∈ collectIntegrityPresentFiles tree (loadIntegrityPolicy again),
      normalizeRel path = path) :
    (verifyIntegrityPolicy sha256HexBytes tree again).ok = true ↔
      (loadIntegrityPolicy again).hashes ≠ [] ∧
      (∀ row ∈ (loadIntegrityPolicy again).hashes, (tree.file? row.1).map sha256HexBytes = some row.2 ∧
        row.1 ∈ collectIntegrityPresentFiles tree (loadIntegrityPolicy again)) ∧
      ∀ path ∈ collectIntegrityPresentFiles tree (loadIntegrityPolicy again),
        ∃ row ∈ (loadIntegrityPolicy again).hashes, row.1 = path := by
  have hexpected (path : Path) :
      path ∈ btreeSet ((loadIntegrityPolicy again).hashes.map fun row => normalizeRel row.1) ↔
        ∃ row ∈ (loadIntegrityPolicy again).hashes, row.1 = path := by
    rw [mem_btreeSet, List.mem_map]
    exact exists_congr fun row => and_congr_right fun hrow => by rw [(hrecords row hrow).path]
  have hfound (path : Path) : path ∈ btreeSet
      ((collectIntegrityPresentFiles tree (loadIntegrityPolicy again)).map normalizeRel) ↔
        path ∈ collectIntegrityPresentFiles tree (loadIntegrityPolicy again) := by
    rw [mem_btreeSet, List.map_congr_left hpresent, List.map_id']
  have hchecks : (loadIntegrityPolicy again).hashes.filterMap (checkHash sha256HexBytes tree) = [] ↔
      ∀ row ∈ (loadIntegrityPolicy again).hashes,
        (tree.file? row.1).map sha256HexBytes = some row.2 := by
    rw [List.filterMap_eq_nil_iff]
    exact forall_congr' fun row => forall_congr' fun hrow => checkHash_eq_none (hrecords row hrow)
  have hsealed : (if (loadIntegrityPolicy again).hashes.isEmpty then [Violation.policyUnsealed] else []) = [] ↔
      (loadIntegrityPolicy again).hashes ≠ [] := by
    cases (loadIntegrityPolicy again).hashes <;> simp
  rw [verifyIntegrityPolicy]
  dsimp only
  rw [List.isEmpty_iff, List.append_eq_nil_iff, List.append_eq_nil_iff, List.append_eq_nil_iff, hsealed,
    hchecks, List.map_eq_nil_iff, List.map_eq_nil_iff, List.filter_eq_nil_iff, List.filter_eq_nil_iff]
  constructor
  · rintro ⟨⟨⟨hne, hdigests⟩, hunsealed⟩, houtside⟩
    have hnone := hchecks.mpr hdigests
    refine ⟨hne, fun row hrow => ⟨hdigests row hrow, ?_⟩, fun path hpath => ?_⟩
    · have hinside := houtside row.1 ((hexpected row.1).mpr ⟨row, hrow, rfl⟩)
      rw [hnone, hsealed.mpr hne] at hinside
      exact (hfound row.1).mp (by simpa using hinside)
    · have hrecorded := hunsealed path hpath
      exact (hexpected path).mp (by simpa using hrecorded)
  · rintro ⟨hne, hrows, hall⟩
    refine ⟨⟨⟨hne, fun row hrow => (hrows row hrow).1⟩, fun path hpath => ?_⟩, fun path hpath => ?_⟩
    · have hrecorded := (hexpected path).mpr (hall path hpath)
      simp [hrecorded]
    · obtain ⟨row, hrow, rfl⟩ := (hexpected path).mp hpath
      have hinside := (hfound row.1).mpr (hrows row hrow).2
      simp [hinside]

/-! ## What a seal records -/

/-- The text of a file is recorded, and kept when the policy is loaded again. -/
@[mk_iff]
structure Recorded (policy : IntegrityPolicy) (tree : Tree) (file : List Name) (path : Path) : Prop where
  present : file ∈ tree.keys
  spelled : path ∈ policy.spellings file
  kept : ¬dotDot <+: path

section Seal

variable (hdigests : Digests sha256HexBytes) (hdots : (loadIntegrityPolicy raw).DotFree)
  (hseal : sealIntegrityPolicy sha256HexBytes tree raw = some sealed)

include hdots in
theorem file?_of_mem_spellings (hfile : ∀ name ∈ file, IsName name)
    (h : path ∈ (loadIntegrityPolicy raw).spellings file) : other.file? path = other.content file := by
  obtain ⟨-, hbelow, hlast⟩ := of_mem_spellings (plain_of_load hdots) hfile h
  rw [Tree.file?, if_neg hlast, hbelow, Option.bind_some]

include hdots hseal

/-- The policy that is written is the one that was loaded, but for its digests. -/
theorem sealed_eq : ∃ hashes, sealed = { loadIntegrityPolicy raw with hashes := hashes } ∧
    (hashes.map Prod.fst).Nodup ∧ ∀ row, row ∈ hashes ↔ ∃ file ∈ tree.keys,
      row.1 ∈ (loadIntegrityPolicy raw).spellings file ∧
        (tree.content file).map sha256HexBytes = some row.2 := by
  obtain ⟨hashes, hmap, rfl⟩ := Option.map_eq_some_iff.mp hseal
  refine ⟨hashes, rfl, ?_, fun row => ?_⟩
  · have hkeys : hashes.map Prod.fst = collectIntegrityPresentFiles tree (loadIntegrityPolicy raw) := by
      have hone := MapM.forall₂_of_mapM hmap
      have hsame := List.forall₂_map_right_iff (f := Prod.fst).mpr
        (hone.imp fun path row hrow => show path = row.1 by
          obtain ⟨content, -, rfl⟩ := Option.map_eq_some_iff.mp hrow
          rfl)
      exact (List.forall₂_eq_eq_eq ▸ hsame).symm
    rw [hkeys]
    exact nodup_btreeSet _
  · rw [MapM.mem_of_mapM hmap]
    constructor
    · rintro ⟨path, hpath, hrow⟩
      obtain ⟨content, hcontent, rfl⟩ := Option.map_eq_some_iff.mp hrow
      obtain ⟨file, hfile, hspelled⟩ := (mem_collect (plain_of_load hdots)).mp hpath
      rw [file?_of_mem_spellings hdots (Tree.isName_of_mem_keys hfile) hspelled] at hcontent
      exact ⟨file, hfile, hspelled, by rw [hcontent, Option.map_some]⟩
    · rintro ⟨file, hfile, hspelled, hdigest⟩
      obtain ⟨content, hcontent, hsha⟩ := Option.map_eq_some_iff.mp hdigest
      refine ⟨row.1, (mem_collect (plain_of_load hdots)).mpr ⟨file, hfile, hspelled⟩, ?_⟩
      rw [file?_of_mem_spellings hdots (Tree.isName_of_mem_keys hfile) hspelled, hcontent, Option.map_some,
        hsha]

/-- The sealed policy is loaded with the same rows. -/
theorem plain_of_sealed : (loadIntegrityPolicy (some sealed)).Plain := by
  obtain ⟨hashes, rfl, -, -⟩ := sealed_eq hdots hseal
  have hplain := plain_of_load hdots
  constructor
  · exact fun row hrow => hplain.roots row ((mem_normalizeRows_of_isRow hplain.roots).mp hrow)
  · intro row hrow
    exact hplain.protectedFiles row ((mem_normalizeRows_of_isRow hplain.protectedFiles).mp hrow)

include hdigests

/-- A recorded row is dropped at the next load where its text begins with two dots, and kept as it is
otherwise. -/
theorem mem_hashes_of_sealed {row : Path × String} :
    row ∈ (loadIntegrityPolicy (some sealed)).hashes ↔
      ∃ file, Recorded (loadIntegrityPolicy raw) tree file row.1 ∧
        (tree.content file).map sha256HexBytes = some row.2 := by
  obtain ⟨hashes, rfl, hnodup, hmem⟩ := sealed_eq hdots hseal
  have hnormal (row : Path × String) (hrow : row ∈ hashes) :
      normalizeHash row = if dotDot <+: row.1 then none else some row := by
    obtain ⟨file, hfile, hspelled, hdigest⟩ := (hmem row).mp hrow
    obtain ⟨content, -, hsha⟩ := Option.map_eq_some_iff.mp hdigest
    have hrow := (of_mem_spellings (plain_of_load hdots) (Tree.isName_of_mem_keys hfile) hspelled).1
    have hhex : IsHex row.2 := hsha ▸ hdigests.hex content
    have hlength : row.2.length ≤ 200 := by
      rw [← hsha, hdigests.length]
      decide
    have hclean : clean row.2 200 = row.2 := V8Kernel.clean_eq_self hhex.trim hlength
    rw [normalizeHash, hrow.normalizeRel_eq, hclean, hhex.toAsciiLowercase]
    have hrest : (row.1 = [] ∨ dotDot <+: row.1 ∨ row.2 = "") ↔ dotDot <+: row.1 := by
      simp [hrow.nonempty, hhex.1]
    simp only [hrest]
  have hfilter : hashes.filterMap normalizeHash = hashes.filter fun row => !decide (dotDot <+: row.1) := by
    rw [← List.filterMap_eq_filter, List.filterMap_congr]
    intro row hrow
    rw [hnormal row hrow]
    by_cases h : dotDot <+: row.1
    · simp [h, Option.guard]
    · simp [h, Option.guard]
  have hkeys : ((hashes.filterMap normalizeHash).map Prod.fst).Nodup := by
    rw [hfilter]
    exact (List.Sublist.map Prod.fst List.filter_sublist).nodup hnodup
  have hload : (loadIntegrityPolicy (some { loadIntegrityPolicy raw with hashes := hashes })).hashes =
      btreeMap (hashes.filterMap normalizeHash) := rfl
  rw [hload, mem_btreeMap hkeys, hfilter, List.mem_filter, hmem]
  constructor
  · rintro ⟨⟨file, hfile, hspelled, hdigest⟩, hkept⟩
    exact ⟨file, ⟨hfile, hspelled, by simpa using hkept⟩, hdigest⟩
  · rintro ⟨file, hrecorded, hdigest⟩
    exact ⟨⟨file, hrecorded.present, hrecorded.spelled, hdigest⟩, by simpa using hrecorded.kept⟩

/-- `verify` after a seal: something is recorded, what is recorded is found as it was, and what is found
is recorded. -/
theorem verify_sealed_iff (hinj : Distinguishes sha256HexBytes tree other) :
    (verifyIntegrityPolicy sha256HexBytes other (some sealed)).ok = true ↔
      (∃ file path, Recorded (loadIntegrityPolicy raw) tree file path) ∧
      (∀ file path, Recorded (loadIntegrityPolicy raw) tree file path →
        other.content file = tree.content file ∧
          path ∈ (loadIntegrityPolicy (some sealed)).spellings file) ∧
      ∀ file ∈ other.keys, ∀ path ∈ (loadIntegrityPolicy (some sealed)).spellings file,
        Recorded (loadIntegrityPolicy raw) tree file path := by
  have hagain := plain_of_sealed hdots hseal
  have hplain := plain_of_load hdots
  have hmem (row : Path × String) := @mem_hashes_of_sealed _ _ _ _ hdigests hdots hseal row
  have hplace (file : List Name) (path : Path) (h : Recorded (loadIntegrityPolicy raw) tree file path) :=
    of_mem_spellings hplain (Tree.isName_of_mem_keys h.present) h.spelled
  -- A recorded file has a digest.
  have hrow (file : List Name) (path : Path) (h : Recorded (loadIntegrityPolicy raw) tree file path) :
      ∃ content, tree.content file = some content ∧
        (path, sha256HexBytes content) ∈ (loadIntegrityPolicy (some sealed)).hashes := by
    obtain ⟨content, hcontent⟩ := Option.isSome_iff_exists.mp (tree.content_isSome_iff.mpr h.present)
    exact ⟨content, hcontent, (hmem _).mpr ⟨file, h, by rw [hcontent, Option.map_some]⟩⟩
  have hpresent (path : Path) (hpath : path ∈ collectIntegrityPresentFiles other
      (loadIntegrityPolicy (some sealed))) : normalizeRel path = path := by
    obtain ⟨file, hfile, hspelled⟩ := (mem_collect hagain).mp hpath
    exact (of_mem_spellings hagain (Tree.isName_of_mem_keys hfile) hspelled).1.normalizeRel_eq
  have hrecords (row : Path × String) (hrow : row ∈ (loadIntegrityPolicy (some sealed)).hashes) :
      IsRecord row := by
    obtain ⟨file, hrecorded, hdigest⟩ := (hmem row).mp hrow
    obtain ⟨content, -, hsha⟩ := Option.map_eq_some_iff.mp hdigest
    exact ⟨(hplace file row.1 hrecorded).1.normalizeRel_eq, hsha ▸ hdigests.hex content,
      hsha ▸ hdigests.length content⟩
  rw [verify_ok_iff hrecords hpresent]
  refine and_congr ?_ (and_congr ?_ ?_)
  · constructor
    · intro hne
      obtain ⟨row, hrow⟩ := List.exists_mem_of_ne_nil _ hne
      obtain ⟨file, hrecorded, -⟩ := (hmem row).mp hrow
      exact ⟨file, row.1, hrecorded⟩
    · rintro ⟨file, path, hrecorded⟩
      obtain ⟨content, -, hmem⟩ := hrow file path hrecorded
      exact List.ne_nil_of_mem hmem
  · constructor
    · intro hall file path hrecorded
      obtain ⟨content, hcontent, hrecord⟩ := hrow file path hrecorded
      obtain ⟨hdigest, hfound⟩ := hall _ hrecord
      rw [file?_of_mem_spellings hdots (Tree.isName_of_mem_keys hrecorded.present) hrecorded.spelled] at hdigest
      obtain ⟨found, hother, hsha⟩ := Option.map_eq_some_iff.mp hdigest
      refine ⟨by rw [hother, hcontent, hinj file content found hcontent hother hsha], ?_⟩
      obtain ⟨file', hfile', hspelled⟩ := (mem_collect hagain).mp hfound
      have hbelow := (of_mem_spellings hagain (Tree.isName_of_mem_keys hfile') hspelled).2.1
      rw [(hplace file path hrecorded).2.1] at hbelow
      cases hbelow
      exact hspelled
    · intro hall row hrow
      obtain ⟨file, hrecorded, hdigest⟩ := (hmem row).mp hrow
      obtain ⟨hsame, hspelled⟩ := hall file row.1 hrecorded
      rw [file?_of_mem_spellings hdots (Tree.isName_of_mem_keys hrecorded.present) hrecorded.spelled, hsame]
      refine ⟨hdigest, (mem_collect hagain).mpr ⟨file, ?_, hspelled⟩⟩
      rw [← Tree.content_isSome_iff, hsame, Tree.content_isSome_iff]
      exact hrecorded.present
  · constructor
    · intro hall file hfile path hpath
      obtain ⟨row, hrow, rfl⟩ := hall path ((mem_collect hagain).mpr ⟨file, hfile, hpath⟩)
      obtain ⟨file', hrecorded, -⟩ := (hmem row).mp hrow
      have hbelow := (of_mem_spellings hagain (Tree.isName_of_mem_keys hfile) hpath).2.1
      rw [(hplace file' row.1 hrecorded).2.1] at hbelow
      cases hbelow
      exact hrecorded
    · intro hall path hpath
      obtain ⟨file, hfile, hspelled⟩ := (mem_collect hagain).mp hpath
      obtain ⟨content, -, hrecord⟩ := hrow file path (hall file hfile path hspelled)
      exact ⟨_, hrecord, rfl⟩

/-- The files that the policy spells, loaded once or twice, are the recorded ones, and there are some. -/
@[mk_iff]
structure Steady (policy : IntegrityPolicy) (tree : Tree) : Prop where
  recorded : ∃ file path, Recorded policy tree file path
  alike : ∀ file ∈ tree.keys, ∀ path, path ∈ (normalizeIntegrityPolicy policy).spellings file ↔
    Recorded policy tree file path

/-- The files that the sealed policy spells are as they were. -/
def SpelledUnchanged (policy : IntegrityPolicy) (tree other : Tree) : Prop :=
  ∀ file, (normalizeIntegrityPolicy policy).spellings file ≠ [] → other.content file = tree.content file

/-- The files in scope and their contents are as they were. -/
def ScopeUnchanged (policy : IntegrityPolicy) (tree other : Tree) : Prop :=
  ∀ file, InScope policy file → other.content file = tree.content file

omit hdigests in
theorem spellings_of_sealed : (loadIntegrityPolicy (some sealed)).spellings file =
    (normalizeIntegrityPolicy (loadIntegrityPolicy raw)).spellings file := by
  obtain ⟨hashes, rfl, -, -⟩ := sealed_eq hdots hseal
  rfl

/-- In a steady tree `verify` looks at the files that the policy spells, and at nothing else. -/
theorem verify_ok_iff_of_steady (hinj : Distinguishes sha256HexBytes tree other)
    (hsteady : Steady (loadIntegrityPolicy raw) tree) :
    (verifyIntegrityPolicy sha256HexBytes other (some sealed)).ok = true ↔
      SpelledUnchanged (loadIntegrityPolicy raw) tree other := by
  rw [verify_sealed_iff hdigests hdots hseal hinj]
  simp only [spellings_of_sealed hdots hseal]
  constructor
  · rintro ⟨-, hrecorded, hfound⟩ file hspelled
    obtain ⟨path, hpath⟩ := List.exists_mem_of_ne_nil _ hspelled
    by_cases hother : file ∈ other.keys
    · exact (hrecorded file path (hfound file hother path hpath)).1
    · by_cases htree : file ∈ tree.keys
      · exact (hrecorded file path ((hsteady.alike file htree path).mp hpath)).1
      · rw [← Tree.content_isSome_iff, Option.not_isSome_iff_eq_none] at hother htree
        rw [hother, htree]
  · intro hsame
    refine ⟨hsteady.recorded, fun file path hrecorded => ?_, fun file hfile path hpath => ?_⟩
    · have hpath := (hsteady.alike file hrecorded.present path).mpr hrecorded
      exact ⟨hsame file (List.ne_nil_of_mem hpath), hpath⟩
    · rw [← Tree.content_isSome_iff, hsame file (List.ne_nil_of_mem hpath), Tree.content_isSome_iff] at hfile
      exact (hsteady.alike file hfile path).mp hpath

/-- Where `verify` is ok after a seal that took no file away, the tree was steady. -/
theorem steady_of_ok (hinj : Distinguishes sha256HexBytes tree other)
    (hkeys : ∀ file ∈ tree.keys, file ∈ other.keys)
    (hok : (verifyIntegrityPolicy sha256HexBytes other (some sealed)).ok = true) :
    Steady (loadIntegrityPolicy raw) tree := by
  rw [verify_sealed_iff hdigests hdots hseal hinj] at hok
  simp only [spellings_of_sealed hdots hseal] at hok
  obtain ⟨hsome, hrecorded, hfound⟩ := hok
  refine ⟨hsome, fun file hfile path => ⟨fun hpath => ?_, fun h => (hrecorded file path h).2⟩⟩
  exact hfound file (hkeys file hfile) path hpath

end Seal

/-! ## What a seal is for -/

/-- A seal writes the policy file and no other. -/
structure Written (policyFile : Option (List Name)) (tree after : Tree) : Prop where
  others : ∀ file, policyFile ≠ some file → after.content file = tree.content file
  there : ∀ file, policyFile = some file → file ∈ after.keys

theorem Written.subset {policyFile : Option (List Name)} {after : Tree} (h : Written policyFile tree after) :
    ∀ file ∈ tree.keys, file ∈ after.keys := by
  intro file hfile
  by_cases hpolicy : policyFile = some file
  · exact h.there file hpolicy
  · rwa [← Tree.content_isSome_iff, h.others file hpolicy, Tree.content_isSome_iff]

/-- One of these files has changed. -/
def Touched (tree other : Tree) (files : List Name → Prop) : Prop :=
  ∃ file, files file ∧ other.content file ≠ tree.content file

/-- In scope and not spelled. -/
def Overlooked (policy : IntegrityPolicy) (file : List Name) : Prop :=
  InScope policy file ∧ (normalizeIntegrityPolicy policy).spellings file = []

/-- Spelled and not in scope. -/
def Stray (policy : IntegrityPolicy) (file : List Name) : Prop :=
  ¬InScope policy file ∧ (normalizeIntegrityPolicy policy).spellings file ≠ []

/-- A file has changed that is in scope and not overlooked; else overlooked files have where stray ones
have. -/
def Shows (policy : IntegrityPolicy) (tree other : Tree) : Prop :=
  Touched tree other (fun file => InScope policy file ∧ ¬Overlooked policy file) ∨
    (Touched tree other (Overlooked policy) ↔ Touched tree other (Stray policy))

/-- Files in scope have changed, and only hidden ones. -/
def OnlyHidden (policy : IntegrityPolicy) (tree other : Tree) : Prop :=
  Touched tree other (InScope policy) ∧ ¬Touched tree other fun file => InScope policy file ∧ ¬Hidden policy file

/-- `verify` is ok after the seal, and later where the files in scope are as they were. -/
def Detects (sha256HexBytes : Content → String) (policy sealed : IntegrityPolicy)
    (tree after later : Tree) : Prop :=
  (verifyIntegrityPolicy sha256HexBytes after (some sealed)).ok = true ∧
    ((verifyIntegrityPolicy sha256HexBytes later (some sealed)).ok = true ↔ ScopeUnchanged policy tree later)

section Judged

variable {policy : IntegrityPolicy}

theorem not_touched_iff {files : List Name → Prop} :
    ¬Touched tree other files ↔ ∀ file, files file → other.content file = tree.content file := by
  simp only [Touched, not_exists, not_and, not_not]

theorem touched_or {files more : List Name → Prop} :
    Touched tree other (fun file => files file ∨ more file) ↔
      Touched tree other files ∨ Touched tree other more := by
  simp only [Touched, or_and_right, exists_or]

theorem shows_iff : (SpelledUnchanged policy tree other ↔ ScopeUnchanged policy tree other) ↔
    Shows policy tree other := by
  have hscope : Touched tree other (InScope policy) ↔
      Touched tree other (fun file => InScope policy file ∧ ¬Overlooked policy file) ∨
        Touched tree other (Overlooked policy) := by
    rw [← touched_or]
    refine exists_congr fun file => and_congr_left fun _ => ?_
    simp only [Overlooked]
    tauto
  have hspelled : Touched tree other (fun file => (normalizeIntegrityPolicy policy).spellings file ≠ []) ↔
      Touched tree other (fun file => InScope policy file ∧ ¬Overlooked policy file) ∨
        Touched tree other (Stray policy) := by
    rw [← touched_or]
    refine exists_congr fun file => and_congr_left fun _ => ?_
    simp only [Overlooked, Stray]
    tauto
  rw [SpelledUnchanged, ScopeUnchanged, ← not_touched_iff, ← not_touched_iff, hscope, hspelled, Shows]
  tauto

theorem spells_of_mem_keys (hfile : file ∈ tree.keys) : Spells file (textOf file) := by
  obtain ⟨entry, hentry, rfl⟩ := List.mem_map.mp hfile
  exact ⟨tree.nonempty entry hentry, tree.names entry hentry, rfl⟩

/-- A policy without blank segments spells the files in scope that are not hidden. -/
theorem spelledUnchanged_iff_of_tidy (htidy : policy.Tidy) : SpelledUnchanged policy tree other ↔
    ¬Touched tree other fun file => InScope policy file ∧ ¬Hidden policy file := by
  rw [SpelledUnchanged, ← not_touched_iff]
  refine not_congr (exists_congr fun file => and_congr_left fun hchanged => ?_)
  have hfile : Spells file (textOf file) := by
    by_cases htree : file ∈ tree.keys
    · exact spells_of_mem_keys htree
    · have hother : file ∈ other.keys := by
        refine by_contra fun hother => hchanged ?_
        rw [← Tree.content_isSome_iff, Option.not_isSome_iff_eq_none] at hother htree
        rw [hother, htree]
      exact spells_of_mem_keys hother
  simp only [ne_eq, List.eq_nil_iff_forall_not_mem, not_forall_not, mem_spellings_again htidy hfile,
    exists_eq_left]

/-- It is steady where it spells a file, and none whose text begins with two dots. -/
theorem steady_iff_of_tidy (htidy : policy.Tidy) : Steady policy tree ↔
    (∃ file ∈ tree.keys, InScope policy file ∧ ¬Hidden policy file) ∧
      ∀ file ∈ tree.keys, InScope policy file → ¬Hidden policy file → ¬dotDot <+: textOf file := by
  have hrecorded (file : List Name) (path : Path) : Recorded policy tree file path ↔ file ∈ tree.keys ∧
      path = textOf file ∧ (InScope policy file ∧ ¬Hidden policy file) ∧ ¬dotDot <+: path := by
    rw [recorded_iff]
    refine and_congr_right fun hfile => ?_
    rw [mem_spellings_of_rows htidy.rows (spells_of_mem_keys hfile), and_assoc]
  have halike (file : List Name) (hfile : file ∈ tree.keys) :
      (∀ path, path ∈ (normalizeIntegrityPolicy policy).spellings file ↔ Recorded policy tree file path) ↔
        (InScope policy file → ¬Hidden policy file → ¬dotDot <+: textOf file) := by
    simp only [mem_spellings_again htidy (spells_of_mem_keys hfile), hrecorded, hfile, true_and]
    constructor
    · exact fun h hscope hseen => ((h _).mp ⟨rfl, hscope, hseen⟩).2.2
    · rintro h path
      constructor
      · rintro ⟨rfl, hfound⟩
        exact ⟨rfl, hfound, h hfound.1 hfound.2⟩
      · rintro ⟨hpath, hfound, -⟩
        exact ⟨hpath, hfound⟩
  rw [steady_iff, forall₂_congr halike]
  refine and_congr_left fun hdots => ⟨?_, ?_⟩
  · rintro ⟨file, path, h⟩
    obtain ⟨hfile, -, hfound, -⟩ := (hrecorded file path).mp h
    exact ⟨file, hfile, hfound⟩
  · rintro ⟨file, hfile, hfound⟩
    exact ⟨file, _, (hrecorded file _).mpr ⟨hfile, rfl, hfound, hdots file hfile hfound.1 hfound.2⟩⟩

end Judged

/-- **A seal detects every change in scope** where the files that the policy spells are steady and not
written by the seal itself, and what has changed shows.  Where no row of the policy has a blank segment
and its file is out of scope, that is where a file in scope is not hidden, none of these begins with two
dots, and not only hidden files have changed. -/
theorem detects_iff {sha256HexBytes : Content → String} (hdigests : Digests sha256HexBytes)
    {raw : Option IntegrityPolicy} (hdots : (loadIntegrityPolicy raw).DotFree) {tree after later : Tree}
    {sealed : IntegrityPolicy} (hseal : sealIntegrityPolicy sha256HexBytes tree raw = some sealed)
    {policyFile : Option (List Name)} (hwritten : Written policyFile tree after)
    (hafter : Distinguishes sha256HexBytes tree after) (hlater : Distinguishes sha256HexBytes tree later) :
    (Detects sha256HexBytes (loadIntegrityPolicy raw) sealed tree after later ↔
      Steady (loadIntegrityPolicy raw) tree ∧ SpelledUnchanged (loadIntegrityPolicy raw) tree after ∧
        Shows (loadIntegrityPolicy raw) tree later) ∧
    ((loadIntegrityPolicy raw).Tidy →
      (∀ file, policyFile = some file → ¬InScope (loadIntegrityPolicy raw) file) →
      (Detects sha256HexBytes (loadIntegrityPolicy raw) sealed tree after later ↔
        (∃ file ∈ tree.keys, InScope (loadIntegrityPolicy raw) file ∧ ¬Hidden (loadIntegrityPolicy raw) file) ∧
        (∀ file ∈ tree.keys, InScope (loadIntegrityPolicy raw) file → ¬Hidden (loadIntegrityPolicy raw) file →
          ¬dotDot <+: textOf file) ∧
        ¬OnlyHidden (loadIntegrityPolicy raw) tree later)) := by
  have hgeneral : Detects sha256HexBytes (loadIntegrityPolicy raw) sealed tree after later ↔
      Steady (loadIntegrityPolicy raw) tree ∧ SpelledUnchanged (loadIntegrityPolicy raw) tree after ∧
        (SpelledUnchanged (loadIntegrityPolicy raw) tree later ↔
          ScopeUnchanged (loadIntegrityPolicy raw) tree later) := by
    constructor
    · rintro ⟨hok, hexact⟩
      have hsteady := steady_of_ok hdigests hdots hseal hafter hwritten.subset hok
      rw [verify_ok_iff_of_steady hdigests hdots hseal hafter hsteady] at hok
      rw [verify_ok_iff_of_steady hdigests hdots hseal hlater hsteady] at hexact
      exact ⟨hsteady, hok, hexact⟩
    · rintro ⟨hsteady, hsame, hexact⟩
      rw [Detects, verify_ok_iff_of_steady hdigests hdots hseal hafter hsteady,
        verify_ok_iff_of_steady hdigests hdots hseal hlater hsteady]
      exact ⟨hsame, hexact⟩
  refine ⟨by rw [hgeneral, shows_iff], fun htidy hout => ?_⟩
  have hsame : SpelledUnchanged (loadIntegrityPolicy raw) tree after := by
    rw [spelledUnchanged_iff_of_tidy htidy]
    rintro ⟨file, ⟨hscope, -⟩, hchanged⟩
    exact hchanged (hwritten.others file fun hfile => hout file hfile hscope)
  have hless (h : Touched tree later fun file => InScope (loadIntegrityPolicy raw) file ∧
      ¬Hidden (loadIntegrityPolicy raw) file) : Touched tree later (InScope (loadIntegrityPolicy raw)) :=
    h.imp fun _ h => ⟨h.1.1, h.2⟩
  have hscope : ScopeUnchanged (loadIntegrityPolicy raw) tree later ↔
    ¬Touched tree later (InScope (loadIntegrityPolicy raw)) := not_touched_iff.symm
  have hlater : SpelledUnchanged (loadIntegrityPolicy raw) tree later ↔ _ :=
    spelledUnchanged_iff_of_tidy htidy
  rw [hgeneral, steady_iff_of_tidy htidy, and_assoc, hscope, hlater, OnlyHidden]
  tauto

/-! ### Two scripts and a rule -/

/-- A digest for runs on concrete inputs: the first 64 bytes, told apart as far as need be. -/
def plainDigest (content : Content) : String :=
  String.ofList (((content.map fun byte => if byte = 0 then '0' else '1') ++ List.replicate 64 'f').take 64)

theorem plainDigest_digests : Digests plainDigest := by
  have hlength (content : Content) : (plainDigest content).length = 64 := by
    rw [plainDigest, String.length_ofList, List.length_take, List.length_append, List.length_replicate]
    omega
  refine ⟨fun content => ⟨?_, fun c hc => ?_⟩, hlength⟩
  · intro hempty
    have hzero := hlength content
    rw [hempty] at hzero
    cases hzero
  · rw [plainDigest, String.toList_ofList] at hc
    cases List.mem_append.mp (List.mem_of_mem_take hc) with
    | inl hbyte =>
      obtain ⟨byte, -, rfl⟩ := List.mem_map.mp hbyte
      split <;> rfl
    | inr hpad =>
      rw [List.eq_of_mem_replicate hpad]
      rfl

/-- The names of a script below `systems/security`. -/
def script (name : String) : List Name := ["systems".toList, "security".toList, name.toList]

def twoScripts (guard bridge : Content) : Tree where
  files := [(script "a.js", guard), (script "bc.js", bridge)]
  nonempty := by
    intro file hfile
    rw [List.mem_cons, List.mem_singleton] at hfile
    rcases hfile with rfl | rfl
    · exact nofun
    · exact nofun
  names := by
    have hnames : ∀ name ∈ script "a.js" ++ script "bc.js", IsName name := by decide
    intro file hfile name hname
    rw [List.mem_cons, List.mem_singleton] at hfile
    rcases hfile with rfl | rfl
    · exact hnames name (List.mem_append_left _ hname)
    · exact hnames name (List.mem_append_right _ hname)
  apart := by
    refine List.pairwise_pair.mpr ?_
    dsimp only
    decide

/-- A policy that leaves a directory out. -/
def rulePolicy (rule : String) : IntegrityPolicy where
  targetRoots := ["systems/security".toList]
  targetExtensions := [".js".toList]
  protectedFiles := []
  excludePaths := [rule.toList]

def sealedScripts (rule : String) : IntegrityPolicy :=
  (sealIntegrityPolicy plainDigest (twoScripts [0] [0]) (some (rulePolicy rule))).getD {}

theorem seal_twoScripts {rule : String}
    (h : (sealIntegrityPolicy plainDigest (twoScripts [0] [0]) (some (rulePolicy rule))).isSome = true) :
    sealIntegrityPolicy plainDigest (twoScripts [0] [0]) (some (rulePolicy rule)) =
      some (sealedScripts rule) := by
  obtain ⟨sealed, hsealed⟩ := Option.isSome_iff_exists.mp h
  rw [sealedScripts, hsealed, Option.getD_some]

theorem written_none (tree : Tree) : Written none tree tree where
  others _ _ := rfl
  there _ h := nomatch h

/-- Contents of one byte that is zero or one. -/
theorem distinguishes_twoScripts {guard bridge : Content} (hguard : guard = [0] ∨ guard = [1])
    (hbridge : bridge = [0] ∨ bridge = [1]) :
    Distinguishes plainDigest (twoScripts [0] [0]) (twoScripts guard bridge) := by
  intro file content found hcontent hfound hsha
  have hmem (tree : Tree) (file : List Name) (content : Content) (h : tree.content file = some content) :
      content ∈ tree.files.map Prod.snd := by
    obtain ⟨before, behind, hfiles, -⟩ := List.lookup_eq_some_iff.mp h
    rw [hfiles, List.map_append, List.map_cons]
    exact List.mem_append_right _ List.mem_cons_self
  have hold : content = [0] := by simpa [twoScripts] using hmem _ file content hcontent
  have hnew : found = [0] ∨ found = [1] := by
    have := hmem _ file found hfound
    simp only [twoScripts, List.map_cons, List.map_nil, List.mem_cons, List.not_mem_nil, or_false] at this
    rcases this with rfl | rfl
    · exact hguard
    · exact hbridge
  subst hold
  rcases hnew with rfl | rfl
  · rfl
  · exact absurd hsha (by decide)

/-- A script is in scope, whatever directory the rule leaves out. -/
theorem inScope_script {name rule : String}
    (hroot : ["systems".toList, "security".toList] <+: script name)
    (hext : ((script name).getLast?.bind fun name => Rag.extension (String.ofList name)) = some "js")
    (hrule : ∀ row ∈ (loadIntegrityPolicy (some (rulePolicy rule))).excludePaths, ¬Covers row (script name)) :
    InScope (loadIntegrityPolicy (some (rulePolicy rule))) (script name) where
  reached := by
    have hroots : "systems/security".toList ∈
        (loadIntegrityPolicy (some (rulePolicy rule))).targetRoots := by
      refine mem_normalizeRows.mpr ⟨by decide, "systems/security".toList, List.mem_cons_self, ?_⟩
      decide
    have hexts : ".js".toList ∈ (loadIntegrityPolicy (some (rulePolicy rule))).targetExtensions := by
      refine List.mem_map.mpr ⟨".js".toList, mem_normalizeRows.mpr ⟨by decide, ".js".toList,
        List.mem_cons_self, ?_⟩, ?_⟩
      · decide
      · decide
    have hbelow : below "systems/security".toList = some ["systems".toList, "security".toList] := by
      decide
    refine .inl ⟨⟨_, hroots, _, hbelow, hroot⟩, .inr ⟨_, hexts, ?_⟩⟩
    rw [hext]
    decide
  kept := hrule

/-- A file beside the directory of a rule is not looked at where its name begins with the directory's. -/
theorem sibling_unseen :
    Digests plainDigest ∧ (loadIntegrityPolicy (some (rulePolicy "systems/security/b/**"))).DotFree ∧
      sealIntegrityPolicy plainDigest (twoScripts [0] [0]) (some (rulePolicy "systems/security/b/**")) =
        some (sealedScripts "systems/security/b/**") ∧
      Written none (twoScripts [0] [0]) (twoScripts [0] [0]) ∧
      Distinguishes plainDigest (twoScripts [0] [0]) (twoScripts [0] [1]) ∧
      (verifyIntegrityPolicy plainDigest (twoScripts [0] [1])
        (some (sealedScripts "systems/security/b/**"))).ok = true ∧
      InScope (loadIntegrityPolicy (some (rulePolicy "systems/security/b/**"))) (script "a.js") ∧
      ¬ScopeUnchanged (loadIntegrityPolicy (some (rulePolicy "systems/security/b/**")))
        (twoScripts [0] [0]) (twoScripts [0] [1]) := by
  have hinScope (name : String) (h : name = "a.js" ∨ name = "bc.js") :
      InScope (loadIntegrityPolicy (some (rulePolicy "systems/security/b/**"))) (script name) := by
    rcases h with rfl | rfl
    · exact inScope_script (by decide) (by decide) (by decide)
    · exact inScope_script (by decide) (by decide) (by decide)
  refine ⟨plainDigest_digests, by decide, seal_twoScripts (by decide), written_none _,
    distinguishes_twoScripts (.inl rfl) (.inr rfl), by decide, hinScope _ (.inl rfl), ?_⟩
  intro hsame
  exact absurd (hsame (script "bc.js") (hinScope _ (.inr rfl))) (by decide)

/-- With a rule for another directory the change is seen. -/
theorem guard_seen :
    Detects plainDigest (loadIntegrityPolicy (some (rulePolicy "systems/security/x/**")))
      (sealedScripts "systems/security/x/**") (twoScripts [0] [0]) (twoScripts [0] [0]) (twoScripts [1] [0]) := by
  have hkeys : (twoScripts [0] [0]).keys = [script "a.js", script "bc.js"] := rfl
  have hrows : (loadIntegrityPolicy (some (rulePolicy "systems/security/x/**"))).targetRoots ++
      (loadIntegrityPolicy (some (rulePolicy "systems/security/x/**"))).protectedFiles ++
      (loadIntegrityPolicy (some (rulePolicy "systems/security/x/**"))).excludePaths =
        ["systems/security".toList, "systems/security/x/**".toList] := by
    decide
  have htidy : (loadIntegrityPolicy (some (rulePolicy "systems/security/x/**"))).Tidy := by
    refine ⟨fun row hrow => ?_, fun ext => iff_of_eq (congrArg (ext ∈ ·) ?_)⟩
    · rw [hrows, List.mem_cons, List.mem_singleton] at hrow
      rcases hrow with rfl | rfl
      · exact ⟨["systems".toList, "security".toList], by decide, by decide, by decide⟩
      · exact ⟨["systems".toList, "security".toList, "x".toList, "**".toList], by decide, by decide,
          by decide⟩
    · decide
  have hguard : InScope (loadIntegrityPolicy (some (rulePolicy "systems/security/x/**"))) (script "a.js") ∧
      ¬Hidden (loadIntegrityPolicy (some (rulePolicy "systems/security/x/**"))) (script "a.js") := by
    refine ⟨inScope_script (by decide) (by decide) (by decide), ?_⟩
    unfold Hidden
    decide
  refine ((detects_iff plainDigest_digests (by decide) (seal_twoScripts (by decide))
    (written_none _) (distinguishes_twoScripts (.inl rfl) (.inl rfl))
    (distinguishes_twoScripts (.inr rfl) (.inl rfl))).2 htidy nofun).mpr ⟨⟨_, ?_, hguard⟩, ?_, ?_⟩
  · rw [hkeys]
    exact List.mem_cons_self
  · intro file hfile _ _
    have hnodots : ∀ file ∈ (twoScripts [0] [0]).keys, ¬dotDot <+: textOf file := by decide
    exact hnodots file hfile
  · exact fun honly => honly.2 ⟨_, hguard, by decide⟩

end Protheus.Security.Integrity
