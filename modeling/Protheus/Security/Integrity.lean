import Protheus.ConstitutionGuardian.Commands
import Protheus.Rag.Ingest
import Protheus.Security.Common

/-!
The integrity policy of the layer 1 security crate: `seal` records the digests of the files in scope,
and `verify` compares what it finds with the record.

What is in scope is decided on texts.  A file is found under the texts by which a target root or a
protected entry reaches it, where no exclude rule matches the text: `Policy.spellings` are these texts.
The record is kept by them too (`mem_collect`).
-/

namespace Protheus.Security.Integrity

open ConstitutionGuardian (normalizeRel Content)
open RustStd
open UnixPath (Path Place)
open V8Kernel (clean isHexDigit)

abbrev Name := List Char

/-! ## Ordered sets and maps -/

/-- The rows of a `BTreeSet`, in their order. -/
def btreeSet (rows : List Path) : List Path :=
  rows.dedup.insertionSort fun a b => String.ofList a ≤ String.ofList b

@[simp] theorem mem_btreeSet {rows : List Path} {path : Path} : path ∈ btreeSet rows ↔ path ∈ rows := by
  rw [btreeSet, List.mem_insertionSort, List.mem_dedup]

theorem nodup_btreeSet (rows : List Path) : (btreeSet rows).Nodup :=
  (List.perm_insertionSort _ _).nodup_iff.mpr rows.nodup_dedup

abbrev Hashes := List (Path × String)

/-- `BTreeMap::insert`. -/
def insertHash (map : Hashes) (row : Path × String) : Hashes :=
  row :: map.filter (·.1 ≠ row.1)

/-- The rows of a `BTreeMap` after these insertions, in the order of their keys. -/
def btreeMap (rows : Hashes) : Hashes :=
  (rows.foldl insertHash []).insertionSort fun a b => String.ofList a.1 ≤ String.ofList b.1

/-- Where no key comes twice, nothing is replaced. -/
theorem mem_btreeMap {rows : Hashes} (h : (rows.map Prod.fst).Nodup) {row : Path × String} :
    row ∈ btreeMap rows ↔ row ∈ rows := by
  have hfold (rows map : Hashes) (hnodup : (rows.map Prod.fst).Nodup)
      (hfresh : ∀ row ∈ rows, ∀ old ∈ map, old.1 ≠ row.1) :
      ∀ row, row ∈ rows.foldl insertHash map ↔ row ∈ map ∨ row ∈ rows := by
    induction rows generalizing map with
    | nil => simp
    | cons first rows ih =>
      rw [List.map_cons, List.nodup_cons] at hnodup
      have hkept : map.filter (·.1 ≠ first.1) = map := by
        refine List.filter_eq_self.mpr fun old hold => ?_
        simpa using hfresh first List.mem_cons_self old hold
      intro row
      rw [List.foldl_cons, insertHash, hkept, ih _ hnodup.2]
      · simp only [List.mem_cons]
        tauto
      · intro next hnext old hold
        cases List.mem_cons.mp hold with
        | inl hfirst =>
          rw [hfirst]
          rintro heq
          exact hnodup.1 (List.mem_map.mpr ⟨next, hnext, heq.symm⟩)
        | inr hold => exact hfresh next (List.mem_cons_of_mem first hnext) old hold
  rw [btreeMap, List.mem_insertionSort, hfold rows [] h (by simp)]
  simp

/-! ## Policy -/

structure IntegrityPolicy where
  version : String := "1.0"
  targetRoots : List Path := ["systems/security".toList, "config/directives".toList]
  targetExtensions : List Path := [".js".toList, ".yaml".toList, ".yml".toList]
  protectedFiles : List Path := ["lib/directive_resolver.js".toList]
  excludePaths : List Path := []
  hashes : Hashes := []

def normalizeRows (rows : List Path) : List Path :=
  btreeSet ((rows.map normalizeRel).filter (· ≠ []))

def dotDot : Path := "..".toList

/-- A row of the hashes, where it is kept. -/
def normalizeHash (row : Path × String) : Option (Path × String) :=
  let rel := normalizeRel row.1
  let digest := toAsciiLowercase (clean row.2 200)
  if rel = [] ∨ dotDot <+: rel ∨ digest = "" then none else some (rel, digest)

/-- `normalize_integrity_policy`. -/
def normalizeIntegrityPolicy (raw : IntegrityPolicy) : IntegrityPolicy where
  version := clean raw.version 40
  targetRoots := normalizeRows raw.targetRoots
  targetExtensions := (normalizeRows raw.targetExtensions).map fun v => v.map Char.toLower
  protectedFiles := normalizeRows raw.protectedFiles
  excludePaths := normalizeRows raw.excludePaths
  hashes := btreeMap (raw.hashes.filterMap normalizeHash)

/-- `load_integrity_policy`, of what the policy file parses to. -/
def loadIntegrityPolicy : Option IntegrityPolicy → IntegrityPolicy
  | none => {}
  | some parsed => normalizeIntegrityPolicy parsed

/-- `integrity_path_match`. -/
def integrityPathMatch (rel rule : Path) : Bool :=
  let cleanRule := normalizeRel rule
  if cleanRule = [] then false
  else if "/**".toList <:+ cleanRule then decide (cleanRule.take (cleanRule.length - 3) <+: rel)
  else rel == cleanRule

/-- `integrity_is_excluded`. -/
def integrityIsExcluded (rel : Path) (policy : IntegrityPolicy) : Bool :=
  policy.excludePaths.any (integrityPathMatch rel)

/-- `Path::file_name`. -/
def fileName (path : Path) : Option Name :=
  match (UnixPath.components path).getLast? with
  | some (.normal name) => some name
  | _ => none

/-- `integrity_has_allowed_extension`. -/
def integrityHasAllowedExtension (rel : Path) (policy : IntegrityPolicy) : Bool :=
  if policy.targetExtensions = [] then true
  else
    match (fileName rel).bind fun name => Rag.extension (String.ofList name) with
    | some ext => policy.targetExtensions.contains ('.' :: ext.toList.map Char.toLower)
    | none => false

/-! ## Files -/

/-- A name of a file or a directory, without a backslash. -/
structure IsName (name : Name) : Prop where
  nonempty : name ≠ []
  slash : '/' ∉ name
  backslash : '\\' ∉ name
  dot : name ≠ ['.']
  dotDot : name ≠ ['.', '.']

instance (name : Name) : Decidable (IsName name) :=
  decidable_of_iff (name ≠ [] ∧ '/' ∉ name ∧ '\\' ∉ name ∧ name ≠ ['.'] ∧ name ≠ ['.', '.'])
    ⟨fun ⟨h₁, h₂, h₃, h₄, h₅⟩ => ⟨h₁, h₂, h₃, h₄, h₅⟩,
      fun h => ⟨h.nonempty, h.slash, h.backslash, h.dot, h.dotDot⟩⟩

/-- The regular files below the runtime root, by their names from there. -/
structure Tree where
  files : List (List Name × Content)
  nonempty : ∀ file ∈ files, file.1 ≠ []
  names : ∀ file ∈ files, ∀ name ∈ file.1, IsName name
  apart : files.Pairwise fun a b => ¬a.1 <+: b.1 ∧ ¬b.1 <+: a.1

namespace Tree

variable (tree : Tree)

/-- What stands in a file. -/
def content (file : List Name) : Option Content := tree.files.lookup file

/-- The files there are. -/
def keys : List (List Name) := tree.files.map Prod.fst

theorem content_isSome_iff {file : List Name} : (tree.content file).isSome ↔ file ∈ tree.keys := by
  rw [content, keys]
  induction tree.files with
  | nil => simp
  | cons first rest ih =>
    rw [List.lookup_cons, List.map_cons, List.mem_cons]
    by_cases h : file = first.1
    · simp [h]
    · have hne : (file == first.1) = false := by simpa using h
      rw [hne, ← ih]
      simp [h]

end Tree

/-- The names by which a path leads from the runtime root, where it stays below it. -/
def below (path : Path) : Option (List Name) :=
  match UnixPath.resolve path with
  | ⟨false, 0, names⟩ => some names
  | _ => none

namespace Tree

variable (tree : Tree)

/-- The file at `runtime_root.join(path)`: no file has a slash at its end. -/
def file? (path : Path) : Option Content :=
  if path.getLast? = some '/' then none else (below path).bind tree.content

/-- `runtime_root.join(path).exists()`: a file, or a directory that has one below it. -/
def exists? (path : Path) : Bool :=
  (tree.file? path).isSome ||
    (below path).any fun names => tree.keys.any fun file => decide (names <+: file ∧ names ≠ file)

end Tree

/-- How a walk from `root`, which leads to `names`, spells a file that it finds. -/
def entryPath? (root : Path) (names file : List Name) : Option Path :=
  if names <+: file ∧ (names = file → root.getLast? ≠ some '/') then
    some ((file.drop names.length).foldl UnixPath.join root)
  else none

/-- The files of `WalkDir::new(runtime_root.join(root))`, by their paths from the runtime root. -/
def Tree.walk (tree : Tree) (root : Path) : List Path :=
  tree.keys.filterMap fun file => (below root).bind fun names => entryPath? root names file

def keeps (policy : IntegrityPolicy) (rel : Path) : Bool :=
  decide (rel ≠ [] ∧ ¬dotDot <+: rel) && !integrityIsExcluded rel policy &&
    integrityHasAllowedExtension rel policy

/-- `collect_integrity_present_files`. -/
def collectIntegrityPresentFiles (tree : Tree) (policy : IntegrityPolicy) : List Path :=
  let walked := policy.targetRoots.flatMap fun root =>
    ((tree.walk root).map normalizeRel).filter (keeps policy)
  let listed := policy.protectedFiles.filter fun rel =>
    (tree.file? rel).isSome && !integrityIsExcluded rel policy
  btreeSet (walked ++ listed.map normalizeRel)

/-! ## Seal and verify -/

inductive Violation where
  | policyUnsealed
  | missingSealedFile (rel : Path)
  | invalidHashEntry (rel : Path) (expected : String)
  | hashMismatch (rel : Path) (expected actual : String)
  | readFailed (rel : Path)
  | unsealedFile (rel : Path)
  | sealedFileOutsideScope (rel : Path)
  deriving DecidableEq

/-- The `type` of a violation. -/
def Violation.kind : Violation → String
  | .policyUnsealed => "policy_unsealed"
  | .missingSealedFile _ => "missing_sealed_file"
  | .invalidHashEntry _ _ => "invalid_hash_entry"
  | .hashMismatch _ _ _ => "hash_mismatch"
  | .readFailed _ => "read_failed"
  | .unsealedFile _ => "unsealed_file"
  | .sealedFileOutsideScope _ => "sealed_file_outside_scope"

/-- `summarize_violation_counts`, in the order in which the kinds first come. -/
def summarizeViolationCounts (violations : List Violation) : List (String × ℕ) :=
  let kinds := violations.map Violation.kind
  kinds.dedup.map fun kind => (kind, kinds.count kind)

section Verify

variable (sha256HexBytes : Content → String)

/-- The check of one recorded digest.  Where all its characters are hex digits, each is one byte. -/
def checkHash (tree : Tree) (row : Path × String) : Option Violation :=
  let digest := toAsciiLowercase row.2
  if !tree.exists? row.1 then some (.missingSealedFile row.1)
  else if digest.length ≠ 64 ∨ !digest.toList.all isHexDigit then
    some (.invalidHashEntry row.1 digest)
  else
    match tree.file? row.1 with
    | some content =>
      if sha256HexBytes content ≠ digest then
        some (.hashMismatch row.1 digest (sha256HexBytes content))
      else none
    | none => some (.readFailed row.1)

/-- What `verify` answers. -/
structure Report where
  ok : Bool
  policyVersion : String
  checkedPresentFiles : ℕ
  expectedFiles : ℕ
  violations : List Violation
  violationCounts : List (String × ℕ)

/-- `verify_integrity_policy`. -/
def verifyIntegrityPolicy (tree : Tree) (file : Option IntegrityPolicy) : Report :=
  let policy := loadIntegrityPolicy file
  let presentFiles := collectIntegrityPresentFiles tree policy
  let violations := (if policy.hashes.isEmpty then [.policyUnsealed] else []) ++
    policy.hashes.filterMap (checkHash sha256HexBytes tree)
  let expectedSet := btreeSet (policy.hashes.map fun row => normalizeRel row.1)
  let presentSet := btreeSet (presentFiles.map normalizeRel)
  let unsealed := (presentFiles.filter (!expectedSet.contains ·)).map .unsealedFile
  let outside := (expectedSet.filter fun rel =>
    !presentSet.contains rel && !violations.contains (.missingSealedFile rel)).map
      .sealedFileOutsideScope
  let violations := violations ++ unsealed ++ outside
  { ok := violations.isEmpty
    policyVersion := policy.version
    checkedPresentFiles := presentFiles.length
    expectedFiles := policy.hashes.length
    violations := violations
    violationCounts := summarizeViolationCounts violations }

/-- `seal_integrity_policy`: the policy that is written to the file, which is ordered as the files
found are; nothing where a file cannot be read. -/
def sealIntegrityPolicy (tree : Tree) (file : Option IntegrityPolicy) : Option IntegrityPolicy :=
  let policy := loadIntegrityPolicy file
  let present := collectIntegrityPresentFiles tree policy
  (present.mapM fun rel => (tree.file? rel).map fun content => (rel, sha256HexBytes content)).map
    fun hashes => { policy with hashes := hashes }

end Verify

/-! ## Rows without dots -/

def NoDots (path : Path) : Prop := ∀ seg ∈ UnixPath.segments path, seg ≠ ['.'] ∧ seg ≠ ['.', '.']

instance (path : Path) : Decidable (NoDots path) :=
  inferInstanceAs (Decidable (∀ seg ∈ UnixPath.segments path, _ ∧ _))

/-- A row of a loaded policy: a relative path without dots and backslashes. -/
structure IsRow (row : Path) : Prop where
  nonempty : row ≠ []
  backslash : '\\' ∉ row
  relative : UnixPath.isAbsolute row = false
  dots : NoDots row

section Rows

variable {row : Path} {name : Name}

theorem normalizePathString_eq_self (h : '\\' ∉ row) : AdaptiveStore.normalizePathString row = row := by
  have hsame (c : Char) (hc : c ∈ row) : (if c = '\\' then '/' else c) = c := by
    apply if_neg
    rintro rfl
    exact h hc
  exact (List.map_congr_left hsame).trans (List.map_id row)

theorem isAbsolute_normalizeRel (raw : Path) : UnixPath.isAbsolute (normalizeRel raw) = false := by
  cases hrel : normalizeRel raw with
  | nil => rfl
  | cons c rest =>
    have hhead := List.head_dropWhile_not (· == '/') (hrel ▸ List.cons_ne_nil c rest : normalizeRel raw ≠ [])
    rw [normalizeRel] at hrel
    simp only [hrel, List.head_cons] at hhead
    simpa [UnixPath.isAbsolute] using hhead

theorem trimStartTimes_suffix (pat : List Char) (n : ℕ) (s : Path) :
    AdaptiveStore.trimStartTimes pat n s <:+ s := by
  induction n generalizing s with
  | zero => exact List.suffix_rfl
  | succ n ih =>
    rw [AdaptiveStore.trimStartTimes]
    split
    · exact (ih _).trans (List.drop_suffix _ _)
    · exact List.suffix_rfl

theorem backslash_notMem_normalizeRel (raw : Path) : '\\' ∉ normalizeRel raw := by
  intro hmem
  have hsuffix : normalizeRel raw <:+ AdaptiveStore.normalizePathString raw :=
    (List.dropWhile_suffix (· == '/')).trans (trimStartTimes_suffix _ _ _)
  obtain ⟨c, -, hc⟩ := List.mem_map.mp (hsuffix.subset hmem)
  split at hc
  · cases hc
  · rename_i hother
    exact hother hc

/-- Nothing is taken off a row. -/
theorem IsRow.normalizeRel_eq (h : IsRow row) : normalizeRel row = row := by
  have hstart : ¬"./".toList <+: row := by
    rintro ⟨rest, hrest⟩
    have hsegs : UnixPath.segments ("./".toList ++ rest) = ['.'] :: UnixPath.segments rest :=
      List.splitOn_append_cons_self_of_not_mem (show '/' ∉ ['.'] by decide) rest
    have hdot : ['.'] ∈ UnixPath.segments row := by
      rw [← hrest, hsegs]
      exact List.mem_cons_self
    exact (h.dots _ hdot).1 rfl
  have htrim (n : ℕ) : AdaptiveStore.trimStartTimes "./".toList n row = row := by
    cases n with
    | zero => rfl
    | succ n => rw [AdaptiveStore.trimStartTimes, if_neg hstart]
  rw [normalizeRel, normalizePathString_eq_self h.backslash, AdaptiveStore.trimStartMatches, htrim]
  cases row with
  | nil => rfl
  | cons c rest =>
    refine List.dropWhile_cons_of_neg ?_
    simpa [UnixPath.isAbsolute] using h.relative

theorem IsName.segments_eq (h : IsName name) : UnixPath.segments name = [name] :=
  List.splitOn_eq_singleton h.slash

theorem IsName.isRow (h : IsName name) : IsRow name where
  nonempty := h.nonempty
  backslash := h.backslash
  relative := by
    cases name with
    | nil => rfl
    | cons c rest =>
      have hc : c ≠ '/' := fun hc => h.slash (hc ▸ List.mem_cons_self)
      simpa [UnixPath.isAbsolute] using hc
  dots := by
    intro seg hseg
    rw [h.segments_eq, List.mem_singleton] at hseg
    rw [hseg]
    exact ⟨h.dot, h.dotDot⟩

/-- A name below a row. -/
theorem IsRow.segments_join (h : IsRow row) (hname : IsName name) :
    ∃ front, UnixPath.segments (UnixPath.join row name) = front ++ [name] ∧
      ∀ seg ∈ front, seg ∈ UnixPath.segments row := by
  rw [UnixPath.join, hname.isRow.relative, if_neg Bool.false_ne_true]
  split
  · rename_i hlast
    obtain ⟨front, hfront⟩ := List.getLast?_eq_some_iff.mp (hlast.resolve_left h.nonempty)
    refine ⟨UnixPath.segments front, ?_, ?_⟩
    · rw [hfront, List.append_assoc, List.singleton_append, UnixPath.segments_append_slash,
        hname.segments_eq]
    · intro seg hseg
      rw [hfront, UnixPath.segments_append_slash]
      exact List.mem_append_left _ hseg
  · refine ⟨UnixPath.segments row, ?_, fun seg hseg => hseg⟩
    rw [UnixPath.segments_append_slash, hname.segments_eq]

theorem IsRow.join (h : IsRow row) (hname : IsName name) : IsRow (UnixPath.join row name) where
  nonempty := by
    rw [UnixPath.join, hname.isRow.relative, if_neg Bool.false_ne_true]
    split <;> simp [h.nonempty]
  backslash := by
    rw [UnixPath.join, hname.isRow.relative, if_neg Bool.false_ne_true]
    split <;> simp [h.backslash, hname.backslash]
  relative := by
    have hrelative := h.relative
    rw [UnixPath.join, hname.isRow.relative, if_neg Bool.false_ne_true]
    cases row with
    | nil => exact absurd rfl h.nonempty
    | cons c rest =>
      split
      · exact hrelative
      · exact hrelative
  dots := by
    obtain ⟨front, hsegs, hfront⟩ := h.segments_join hname
    intro seg hseg
    rw [hsegs, List.mem_append, List.mem_singleton] at hseg
    cases hseg with
    | inl hseg => exact h.dots seg (hfront seg hseg)
    | inr hseg =>
      rw [hseg]
      exact ⟨hname.dot, hname.dotDot⟩

theorem IsName.comp?_eq (h : IsName name) : UnixPath.comp? name = some (.normal name) := by
  have := h.nonempty
  have := h.dot
  have := h.dotDot
  unfold UnixPath.comp?
  split <;> simp_all

theorem IsName.resolve_eq (h : IsName name) : UnixPath.resolve name = ⟨false, 0, [name]⟩ := by
  rw [UnixPath.resolve_eq, h.isRow.relative, if_neg Bool.false_ne_true, h.segments_eq]
  exact UnixPath.route_of_names (UnixPath.body_cons_of_some h.comp?_eq [])

theorem below_join {names : List Name} (hrow : below row = some names) (hname : IsName name) :
    below (UnixPath.join row name) = some (names ++ [name]) := by
  have hplace : UnixPath.resolve row = ⟨false, 0, names⟩ := by
    unfold below at hrow
    split at hrow
    · cases hrow
      assumption
    · cases hrow
  rw [below, UnixPath.resolve_join hname.isRow.relative, hplace, hname.resolve_eq,
    UnixPath.Place.follow_of_no_ups]
  rfl

theorem getLast_join (hname : IsName name) : (UnixPath.join row name).getLast? ≠ some '/' := by
  have hlast : name.getLast? ≠ some '/' := fun h => hname.slash (List.mem_of_getLast? h)
  obtain ⟨c, hc⟩ := Option.ne_none_iff_exists'.mp
    (show name.getLast? ≠ none by simpa using hname.nonempty)
  rw [UnixPath.join, hname.isRow.relative, if_neg Bool.false_ne_true]
  rw [hc] at hlast
  split
  · rwa [List.getLast?_append, hc, Option.some_or]
  · rwa [List.getLast?_append, List.getLast?_cons, hc]

/-- The names below a row, one after another. -/
theorem IsRow.foldl_join (h : IsRow row) {names rest : List Name} (hrow : below row = some names)
    (hrest : ∀ name ∈ rest, IsName name) :
    IsRow (rest.foldl UnixPath.join row) ∧ below (rest.foldl UnixPath.join row) = some (names ++ rest) ∧
      (rest ≠ [] → (rest.foldl UnixPath.join row).getLast? ≠ some '/') := by
  induction rest generalizing row names with
  | nil => exact ⟨h, by rw [List.append_nil]; exact hrow, fun hne => absurd rfl hne⟩
  | cons name rest ih =>
    have hname := hrest name List.mem_cons_self
    obtain ⟨hisRow, hbelow, hlast⟩ := ih (h.join hname) (below_join hrow hname) fun n hn =>
      hrest n (List.mem_cons_of_mem name hn)
    refine ⟨hisRow, ?_, fun _ => ?_⟩
    · rw [List.append_assoc, List.singleton_append] at hbelow
      exact hbelow
    · cases rest with
      | nil => exact getLast_join hname
      | cons next rest => exact hlast nofun

end Rows

/-! ## Spellings -/

/-- What the claims about a policy are made for: its paths have no dots. -/
structure IntegrityPolicy.Plain (policy : IntegrityPolicy) : Prop where
  roots : ∀ row ∈ policy.targetRoots, IsRow row
  protectedFiles : ∀ row ∈ policy.protectedFiles, IsRow row

/-- The texts by which a file is found. -/
def IntegrityPolicy.spellings (policy : IntegrityPolicy) (file : List Name) : List Path :=
  (policy.targetRoots.filterMap fun root =>
    (below root).bind fun names => entryPath? root names file).filter (keeps policy) ++
  policy.protectedFiles.filter fun rel =>
    rel.getLast? ≠ some '/' ∧ below rel = some file ∧ integrityIsExcluded rel policy = false

section Spellings

variable {policy : IntegrityPolicy} (hplain : policy.Plain) {tree : Tree} {file : List Name} {path : Path}

theorem Tree.isName_of_mem_keys (hfile : file ∈ tree.keys) : ∀ name ∈ file, IsName name := by
  obtain ⟨entry, hentry, rfl⟩ := List.mem_map.mp hfile
  exact tree.names entry hentry

/-- What a walk finds. -/
theorem entryPath?_eq_some {root : Path} {names : List Name} (hroot : IsRow root)
    (hbelow : below root = some names) (hfile : ∀ name ∈ file, IsName name)
    (h : entryPath? root names file = some path) :
    IsRow path ∧ below path = some file ∧ path.getLast? ≠ some '/' := by
  rw [entryPath?] at h
  split at h
  · rename_i hwithin
    obtain ⟨⟨rest, rfl⟩, hlast⟩ := hwithin
    obtain rfl := Option.some.inj h
    rw [List.drop_left]
    obtain ⟨hisRow, hplace, hslash⟩ := hroot.foldl_join hbelow fun name hname =>
      hfile name (List.mem_append_right names hname)
    refine ⟨hisRow, hplace, ?_⟩
    by_cases hrest : rest = []
    · subst hrest
      exact hlast (List.append_nil names).symm
    · exact hslash hrest
  · cases h

include hplain

theorem of_mem_spellings (hfile : ∀ name ∈ file, IsName name) (h : path ∈ policy.spellings file) :
    IsRow path ∧ below path = some file ∧ path.getLast? ≠ some '/' := by
  obtain hwalked | hlisted := List.mem_append.mp h
  · obtain ⟨root, hroot, hentry⟩ := List.mem_filterMap.mp (List.mem_filter.mp hwalked).1
    obtain ⟨names, hbelow, hpath⟩ := Option.bind_eq_some_iff.mp hentry
    exact entryPath?_eq_some (hplain.roots root hroot) hbelow hfile hpath
  · obtain ⟨hrow, hkept⟩ := List.mem_filter.mp hlisted
    obtain ⟨hlast, hbelow, -⟩ := of_decide_eq_true hkept
    exact ⟨hplain.protectedFiles path hrow, hbelow, hlast⟩

/-- The files present are the spellings of the files there are. -/
theorem mem_collect : path ∈ collectIntegrityPresentFiles tree policy ↔
    ∃ file ∈ tree.keys, path ∈ policy.spellings file := by
  rw [collectIntegrityPresentFiles, mem_btreeSet, List.mem_append]
  have hlisted (rel : Path) (hrel : rel ∈ policy.protectedFiles) : normalizeRel rel = rel :=
    (hplain.protectedFiles rel hrel).normalizeRel_eq
  have hfile (rel : Path) : (tree.file? rel).isSome = true ↔
      ∃ file ∈ tree.keys, rel.getLast? ≠ some '/' ∧ below rel = some file := by
    rw [Tree.file?]
    split
    · rename_i hlast
      simp [hlast]
    · rename_i hlast
      cases hbelow : below rel with
      | none => simp
      | some file => simp [hlast, Tree.content_isSome_iff]
  constructor
  · rintro (hwalked | hmem)
    · obtain ⟨root, hroot, hkept⟩ := List.mem_flatMap.mp hwalked
      obtain ⟨hmem, hkeeps⟩ := List.mem_filter.mp hkept
      obtain ⟨entry, hentry, rfl⟩ := List.mem_map.mp hmem
      obtain ⟨file, hkey, hpath⟩ := List.mem_filterMap.mp hentry
      obtain ⟨names, hbelow, hspelled⟩ := Option.bind_eq_some_iff.mp hpath
      have hrow := (entryPath?_eq_some (hplain.roots root hroot) hbelow (Tree.isName_of_mem_keys hkey) hspelled).1
      rw [hrow.normalizeRel_eq] at hkeeps ⊢
      refine ⟨file, hkey, List.mem_append_left _ (List.mem_filter.mpr ⟨?_, hkeeps⟩)⟩
      exact List.mem_filterMap.mpr ⟨root, hroot, hpath⟩
    · obtain ⟨rel, hrel, rfl⟩ := List.mem_map.mp hmem
      obtain ⟨hrow, hkept⟩ := List.mem_filter.mp hrel
      rw [Bool.and_eq_true, hfile, Bool.not_eq_true'] at hkept
      obtain ⟨⟨file, hkey, hlast, hbelow⟩, hexcluded⟩ := hkept
      rw [hlisted rel hrow]
      refine ⟨file, hkey, List.mem_append_right _ (List.mem_filter.mpr ⟨hrow, ?_⟩)⟩
      exact decide_eq_true ⟨hlast, hbelow, hexcluded⟩
  · rintro ⟨file, hkey, hpath⟩
    have hnormal := (of_mem_spellings hplain (Tree.isName_of_mem_keys hkey) hpath).1.normalizeRel_eq
    obtain hwalked | hmem := List.mem_append.mp hpath
    · obtain ⟨hentry, hkeeps⟩ := List.mem_filter.mp hwalked
      obtain ⟨root, hroot, hspelled⟩ := List.mem_filterMap.mp hentry
      refine .inl (List.mem_flatMap.mpr ⟨root, hroot, List.mem_filter.mpr ⟨?_, hkeeps⟩⟩)
      exact List.mem_map.mpr ⟨path, List.mem_filterMap.mpr ⟨file, hkey, hspelled⟩, hnormal⟩
    · obtain ⟨hrow, hkept⟩ := List.mem_filter.mp hmem
      obtain ⟨hlast, hbelow, hexcluded⟩ := of_decide_eq_true hkept
      refine .inr (List.mem_map.mpr ⟨path, List.mem_filter.mpr ⟨hrow, ?_⟩, hnormal⟩)
      rw [Bool.and_eq_true, hfile, Bool.not_eq_true']
      exact ⟨⟨file, hkey, hlast, hbelow⟩, hexcluded⟩

end Spellings

end Protheus.Security.Integrity
