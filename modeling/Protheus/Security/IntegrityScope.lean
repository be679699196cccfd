import Protheus.Security.Integrity

/-!
The scope of an integrity policy.

A file is in scope where its names are below those of a target root and its extension is listed, or
where it is listed itself, and no exclude rule covers it by its names.  The code decides by texts.  Where
no row has a blank segment, it leaves some files in scope out, and only those (`mem_spellings_of_rows`): a
rule that ends in `/**` matches every text that its directory begins, and a walk skips every text that
begins with two dots.
-/

namespace Protheus.Security.Integrity

open ConstitutionGuardian (normalizeRel)
open UnixPath (Path)

/-! ## Scope -/

def IntegrityPolicy.DotFree (policy : IntegrityPolicy) : Prop :=
  ∀ row ∈ policy.targetRoots ++ policy.protectedFiles ++ policy.excludePaths, NoDots row

/-- The extension of a file is listed; an empty list restricts nothing. -/
def HasListedExtension (policy : IntegrityPolicy) (file : List Name) : Prop :=
  policy.targetExtensions = [] ∨ ∃ ext ∈ policy.targetExtensions,
    (file.getLast?.bind fun name => Rag.extension (String.ofList name)).map
      (fun found => '.' :: found.toList.map Char.toLower) = some ext

/-- At a path or below it. -/
def Under (row : Path) (file : List Name) : Prop := ∃ names, below row = some names ∧ names <+: file

/-- A rule names the file, or a directory above it. -/
def Covers (rule : Path) (file : List Name) : Prop :=
  below rule = some file ∨
    "/**".toList <:+ rule ∧ ∃ names, below (rule.take (rule.length - 3)) = some names ∧
      names <+: file ∧ names ≠ file

@[mk_iff]
structure InScope (policy : IntegrityPolicy) (file : List Name) : Prop where
  reached : (∃ root ∈ policy.targetRoots, Under root file) ∧ HasListedExtension policy file ∨
    ∃ row ∈ policy.protectedFiles, below row = some file
  kept : ∀ rule ∈ policy.excludePaths, ¬Covers rule file

instance (rule : Path) (file : List Name) : Decidable (Covers rule file) :=
  decidable_of_iff (below rule = some file ∨ "/**".toList <:+ rule ∧
    ((below (rule.take (rule.length - 3))).any fun names =>
      decide (names <+: file ∧ names ≠ file)) = true) (by
    rw [Covers, Option.any_eq_true]
    simp only [decide_eq_true_eq])

instance (policy : IntegrityPolicy) : Decidable policy.DotFree :=
  inferInstanceAs (Decidable (∀ row ∈ policy.targetRoots ++ policy.protectedFiles ++ policy.excludePaths, _))

/-! ## The loaded policy -/

/-- A normalised text is relative and has no backslash. -/
theorem isRow_normalizeRel {raw : Path} (hne : normalizeRel raw ≠ []) (hdots : NoDots (normalizeRel raw)) :
    IsRow (normalizeRel raw) where
  nonempty := hne
  backslash := backslash_notMem_normalizeRel raw
  relative := isAbsolute_normalizeRel raw
  dots := hdots

theorem mem_normalizeRows {rows : List Path} {path : Path} :
    path ∈ normalizeRows rows ↔ path ≠ [] ∧ ∃ row ∈ rows, normalizeRel row = path := by
  rw [normalizeRows, mem_btreeSet, List.mem_filter, List.mem_map, decide_eq_true_eq, and_comm]

theorem isRow_of_load {file : Option IntegrityPolicy} (h : (loadIntegrityPolicy file).DotFree) :
    ∀ row ∈ (loadIntegrityPolicy file).targetRoots ++ (loadIntegrityPolicy file).protectedFiles ++
      (loadIntegrityPolicy file).excludePaths, IsRow row := by
  intro row hrow
  have hdots := h row hrow
  cases file with
  | none =>
    have hdefault : ∀ row ∈ ["systems/security".toList, "config/directives".toList,
        "lib/directive_resolver.js".toList],
        row ≠ [] ∧ row.contains '\\' = false ∧ UnixPath.isAbsolute row = false := by
      decide
    obtain ⟨hne, hbackslash, hrelative⟩ := hdefault row hrow
    exact ⟨hne, by simpa using hbackslash, hrelative, hdots⟩
  | some parsed =>
    have hmem : ∃ rows, row ∈ normalizeRows rows := by
      rw [List.mem_append, List.mem_append] at hrow
      obtain (hroot | hprotected) | hexclude := hrow
      · exact ⟨_, hroot⟩
      · exact ⟨_, hprotected⟩
      · exact ⟨_, hexclude⟩
    obtain ⟨rows, hmem⟩ := hmem
    obtain ⟨hne, raw, -, rfl⟩ := mem_normalizeRows.mp hmem
    exact isRow_normalizeRel hne hdots

theorem mem_normalizeRows_of_isRow {rows : List Path} (h : ∀ row ∈ rows, IsRow row) {path : Path} :
    path ∈ normalizeRows rows ↔ path ∈ rows := by
  rw [mem_normalizeRows]
  constructor
  · rintro ⟨-, row, hrow, rfl⟩
    rwa [(h row hrow).normalizeRel_eq]
  · exact fun hpath => ⟨(h path hpath).nonempty, path, hpath, (h path hpath).normalizeRel_eq⟩

theorem plain_of_load {file : Option IntegrityPolicy} (h : (loadIntegrityPolicy file).DotFree) :
    (loadIntegrityPolicy file).Plain where
  roots row hrow := isRow_of_load h row (List.mem_append_left _ (List.mem_append_left _ hrow))
  protectedFiles row hrow := isRow_of_load h row (List.mem_append_left _ (List.mem_append_right _ hrow))

/-! ## Policies without blank segments -/

/-- The text of the names of a file. -/
def textOf : List Name → Path
  | [] => []
  | name :: rest => rest.foldl UnixPath.join name

/-- The row is the text of these names. -/
structure Spells (names : List Name) (row : Path) : Prop where
  nonempty : names ≠ []
  isName : ∀ name ∈ names, IsName name
  text : row = textOf names

/-- No row has a blank segment, and the extensions read the same once more. -/
structure IntegrityPolicy.Tidy (policy : IntegrityPolicy) : Prop where
  rows : ∀ row ∈ policy.targetRoots ++ policy.protectedFiles ++ policy.excludePaths,
    ∃ names, Spells names row
  extensions : ∀ ext, ext ∈ (normalizeIntegrityPolicy policy).targetExtensions ↔ ext ∈ policy.targetExtensions

/-- The code leaves the file out: the directory of a rule begins its text, or two dots do and no row
lists it. -/
def Hidden (policy : IntegrityPolicy) (file : List Name) : Prop :=
  (∃ rule ∈ policy.excludePaths, "/**".toList <:+ rule ∧
    rule.take (rule.length - 3) <+: textOf file) ∨
    dotDot <+: textOf file ∧ textOf file ∉ policy.protectedFiles

section Tidy

variable {policy : IntegrityPolicy} {row : Path} {names rest file : List Name}

theorem Spells.place (h : Spells names row) :
    IsRow row ∧ below row = some names ∧ row.getLast? ≠ some '/' := by
  obtain ⟨hne, hnames, rfl⟩ := h
  cases names with
  | nil => exact absurd rfl hne
  | cons name rest =>
    have hname := hnames name List.mem_cons_self
    obtain ⟨hrow, hbelow, hlast⟩ := hname.isRow.foldl_join (show below name = some [name] by
      rw [below, hname.resolve_eq]
      rfl) fun n hn => hnames n (List.mem_cons_of_mem name hn)
    refine ⟨hrow, hbelow, ?_⟩
    by_cases hrest : rest = []
    · subst hrest
      exact fun h => hname.slash (List.mem_of_getLast? h)
    · exact hlast hrest

/-- A row that leads to a file is its text. -/
theorem Spells.eq_iff (h : Spells names row) (hfile : Spells file (textOf file)) :
    below row = some file ↔ row = textOf file := by
  constructor
  · intro hbelow
    rw [h.place.2.1, Option.some.injEq] at hbelow
    rw [h.text, hbelow]
  · rintro rfl
    exact hfile.place.2.1

theorem textOf_append (hne : names ≠ []) : textOf (names ++ rest) = rest.foldl UnixPath.join (textOf names) := by
  cases names with
  | nil => exact absurd rfl hne
  | cons name names => exact List.foldl_append

theorem prefix_foldl_join (hrest : ∀ name ∈ rest, IsName name) : row <+: rest.foldl UnixPath.join row := by
  induction rest generalizing row with
  | nil => exact List.prefix_rfl
  | cons name rest ih =>
    refine List.IsPrefix.trans ?_ (ih fun n hn => hrest n (List.mem_cons_of_mem name hn))
    rw [UnixPath.join, (hrest name List.mem_cons_self).isRow.relative, if_neg Bool.false_ne_true]
    split <;> exact List.prefix_append _ _

/-- A walk from a row spells a file by its text. -/
theorem Spells.entryPath? (h : Spells names row) :
    ((below row).bind fun names => Integrity.entryPath? row names file) =
      if names <+: file then some (textOf file) else none := by
  obtain ⟨-, hbelow, hlast⟩ := h.place
  rw [hbelow, Option.bind_some, Integrity.entryPath?]
  by_cases hwithin : names <+: file
  · rw [if_pos ⟨hwithin, fun _ => hlast⟩, if_pos hwithin]
    obtain ⟨rest, rfl⟩ := hwithin
    rw [List.drop_left, textOf_append h.nonempty, h.text]
  · rw [if_neg fun h => hwithin h.1, if_neg hwithin]

theorem hasAllowedExtension_textOf (hfile : Spells file (textOf file)) :
    integrityHasAllowedExtension (textOf file) policy = true ↔ HasListedExtension policy file := by
  have hname : fileName (textOf file) = file.getLast? := by
    cases file using List.reverseRecOn with
    | nil => exact absurd rfl hfile.nonempty
    | append_singleton front name =>
      have hlast := hfile.isName name (by simp)
      have hcomp : UnixPath.comp? name = some (.normal name) := hlast.comp?_eq
      have hsegs : ∃ more, UnixPath.segments (textOf (front ++ [name])) = more ++ [name] := by
        cases front with
        | nil => exact ⟨[], hlast.segments_eq⟩
        | cons first front =>
          have hfront : Spells (first :: front) (textOf (first :: front)) :=
            ⟨List.cons_ne_nil _ _, fun n hn => hfile.isName n (List.mem_append_left _ hn), rfl⟩
          rw [textOf_append (List.cons_ne_nil _ _)]
          obtain ⟨more, hmore, -⟩ := hfront.place.1.segments_join hlast
          exact ⟨more, hmore⟩
      obtain ⟨more, hmore⟩ := hsegs
      have hbody : UnixPath.body [name] = [.normal name] := UnixPath.body_cons_of_some hcomp []
      rw [fileName, UnixPath.components, hmore, UnixPath.body_append, hbody, ← List.append_assoc,
        List.getLast?_concat, List.getLast?_concat]
  rw [integrityHasAllowedExtension, HasListedExtension, hname]
  by_cases hempty : policy.targetExtensions = []
  · simp [hempty]
  · rw [if_neg hempty]
    cases file.getLast?.bind fun name => Rag.extension (String.ofList name) with
    | none => simp [hempty]
    | some ext => simp [hempty, eq_comm]

theorem Spells.match_eq {rule rel : Path} (h : Spells names rule) : integrityPathMatch rel rule =
    if "/**".toList <:+ rule then decide (rule.take (rule.length - 3) <+: rel) else rel == rule := by
  rw [integrityPathMatch, h.place.1.normalizeRel_eq, if_neg h.place.1.nonempty]

/-- A rule that covers a file by its names matches its text. -/
theorem Spells.match_of_covers {rule : Path} (h : Spells names rule) (hfile : Spells file (textOf file))
    (hcovers : Covers rule file) : integrityPathMatch (textOf file) rule = true := by
  rw [h.match_eq]
  obtain hsame | ⟨hsuffix, dir, hbelow, ⟨rest, rfl⟩, hstrict⟩ := hcovers
  · rw [(h.eq_iff hfile).mp hsame]
    split
    · exact decide_eq_true (List.take_prefix _ _)
    · exact beq_self_eq_true _
  · rw [if_pos hsuffix, decide_eq_true_eq]
    -- the last name of the rule is `**`, and what is in front of it is a directory
    cases names using List.reverseRecOn with
    | nil => exact absurd rfl h.nonempty
    | append_singleton front last =>
      have hlast := h.isName last (by simp)
      cases front with
      | nil =>
        obtain rfl : rule = last := h.text
        exact absurd (hsuffix.subset (by decide)) hlast.slash
      | cons first front =>
        have hdir : Spells (first :: front) (textOf (first :: front)) :=
          ⟨List.cons_ne_nil _ _, fun n hn => h.isName n (List.mem_append_left _ hn), rfl⟩
        obtain ⟨hdirRow, hdirBelow, hdirLast⟩ := hdir.place
        obtain ⟨front', hfront'⟩ := hsuffix
        have hrule : rule = textOf (first :: front) ++ '/' :: last := by
          rw [h.text, textOf_append hdir.nonempty, List.foldl_cons, List.foldl_nil, UnixPath.join,
            hlast.isRow.relative, if_neg Bool.false_ne_true, if_neg (not_or.mpr ⟨hdirRow.nonempty, hdirLast⟩)]
        obtain ⟨rfl, -⟩ := RustStd.append_cons_inj_last (by decide) hlast.slash (hfront'.trans hrule)
        have htake : rule.take (rule.length - 3) = textOf (first :: front) := by
          rw [← hfront', List.length_append]
          exact List.take_left
        rw [htake, hdirBelow, Option.some.injEq] at hbelow
        rw [htake, ← hbelow, textOf_append hdir.nonempty]
        exact prefix_foldl_join fun n hn => hfile.isName n (List.mem_append_right _ hn)

/-- What a policy without blank segments spells: the texts of the files in scope that are not hidden. -/
theorem mem_spellings_of_rows (hrows : ∀ row ∈ policy.targetRoots ++ policy.protectedFiles ++
    policy.excludePaths, ∃ names, Spells names row) (hfile : Spells file (textOf file)) {path : Path} :
    path ∈ policy.spellings file ↔ path = textOf file ∧ InScope policy file ∧ ¬Hidden policy file := by
  have hlisted (row : Path) (h : row ∈ policy.protectedFiles) : below row = some file ↔ row = textOf file := by
    obtain ⟨names, hnames⟩ := hrows row (by simp [h])
    exact hnames.eq_iff hfile
  have hwalk (root : Path) (h : root ∈ policy.targetRoots) :
      ((below root).bind fun names => Integrity.entryPath? root names file) = some path ↔
        Under root file ∧ path = textOf file := by
    obtain ⟨names, hnames⟩ := hrows root (by simp [h])
    rw [hnames.entryPath?, Under, hnames.place.2.1]
    simp [eq_comm]
  have hkeeps : keeps policy (textOf file) = true ↔ ¬dotDot <+: textOf file ∧
      integrityIsExcluded (textOf file) policy = false ∧ HasListedExtension policy file := by
    rw [keeps, Bool.and_eq_true, Bool.and_eq_true, decide_eq_true_eq, Bool.not_eq_true',
      hasAllowedExtension_textOf hfile]
    simp [hfile.place.1.nonempty, and_assoc]
  have hexcluded : integrityIsExcluded (textOf file) policy = true ↔
      (∃ rule ∈ policy.excludePaths, Covers rule file) ∨ ∃ rule ∈ policy.excludePaths,
        "/**".toList <:+ rule ∧ rule.take (rule.length - 3) <+: textOf file := by
    rw [integrityIsExcluded, List.any_eq_true, ← exists_or]
    refine exists_congr fun rule => ?_
    rw [← and_or_left]
    refine and_congr_right fun hmem => ?_
    obtain ⟨names, hnames⟩ := hrows rule (by simp [hmem])
    refine ⟨fun hmatch => ?_, fun h => h.elim (hnames.match_of_covers hfile) fun ⟨hsuffix, hbegins⟩ => ?_⟩
    · rw [hnames.match_eq] at hmatch
      split at hmatch
      · rename_i hsuffix
        exact .inr ⟨hsuffix, of_decide_eq_true hmatch⟩
      · exact .inl (.inl ((hnames.eq_iff hfile).mpr (eq_of_beq hmatch).symm))
    · rw [hnames.match_eq, if_pos hsuffix]
      exact decide_eq_true hbegins
  -- What a walk keeps and what a row lists have one text.
  have hspelled : path ∈ policy.spellings file ↔ path = textOf file ∧
      integrityIsExcluded (textOf file) policy = false ∧
        (((∃ root ∈ policy.targetRoots, Under root file) ∧ HasListedExtension policy file) ∧
          ¬dotDot <+: textOf file ∨ textOf file ∈ policy.protectedFiles) := by
    rw [IntegrityPolicy.spellings, List.mem_append, List.mem_filter, List.mem_filterMap, List.mem_filter,
      decide_eq_true_eq]
    constructor
    · rintro (⟨⟨root, hmem, hfound⟩, hkept⟩ | ⟨hmem, -, hbelow, hseen⟩)
      · obtain ⟨hunder, rfl⟩ := (hwalk root hmem).mp hfound
        obtain ⟨hdots, hseen, hext⟩ := hkeeps.mp hkept
        exact ⟨rfl, hseen, .inl ⟨⟨⟨root, hmem, hunder⟩, hext⟩, hdots⟩⟩
      · obtain rfl := (hlisted path hmem).mp hbelow
        exact ⟨rfl, hseen, .inr hmem⟩
    · rintro ⟨rfl, hseen, ⟨⟨⟨root, hmem, hunder⟩, hext⟩, hdots⟩ | hmem⟩
      · exact .inl ⟨⟨root, hmem, (hwalk root hmem).mpr ⟨hunder, rfl⟩⟩, hkeeps.mpr ⟨hdots, hseen, hext⟩⟩
      · exact .inr ⟨hmem, hfile.place.2.2, (hlisted _ hmem).mpr rfl, hseen⟩
  rw [hspelled, ← Bool.not_eq_true, hexcluded, not_or]
  refine and_congr_right fun _ => ⟨?_, ?_⟩
  · rintro ⟨⟨hcovers, hbegins⟩, hreached⟩
    refine ⟨⟨?_, fun rule hmem h => hcovers ⟨rule, hmem, h⟩⟩, ?_⟩
    · exact hreached.imp And.left fun hmem => ⟨_, hmem, (hlisted _ hmem).mpr rfl⟩
    · rintro (hbegins' | ⟨hdots, hunlisted⟩)
      · exact hbegins hbegins'
      · exact hreached.elim (fun h => h.2 hdots) hunlisted
  · rintro ⟨hscope, hseen⟩
    rw [Hidden, not_or] at hseen
    refine ⟨⟨fun ⟨rule, hmem, h⟩ => hscope.kept rule hmem h, hseen.1⟩, ?_⟩
    rcases hscope.reached with hwalked | ⟨row, hmem, hbelow⟩
    · by_cases hlist : textOf file ∈ policy.protectedFiles
      · exact .inr hlist
      · exact .inl ⟨hwalked, fun hdots => hseen.2 ⟨hdots, hlist⟩⟩
    · rw [(hlisted row hmem).mp hbelow] at hmem
      exact .inr hmem

/-- It spells them alike when it is loaded once more. -/
theorem mem_spellings_again (htidy : policy.Tidy) (hfile : Spells file (textOf file)) {path : Path} :
    path ∈ (normalizeIntegrityPolicy policy).spellings file ↔
      path = textOf file ∧ InScope policy file ∧ ¬Hidden policy file := by
  have hsame (rows : List Path) (hrows : ∀ row ∈ rows, ∃ names, Spells names row) (row : Path) :
      row ∈ normalizeRows rows ↔ row ∈ rows :=
    mem_normalizeRows_of_isRow fun row hrow => (hrows row hrow).elim fun _ hnames => hnames.place.1
  have hroots (row : Path) : row ∈ (normalizeIntegrityPolicy policy).targetRoots ↔ row ∈ policy.targetRoots :=
    hsame _ (fun row hrow => htidy.rows row (by simp [hrow])) row
  have hprotected (row : Path) :
      row ∈ (normalizeIntegrityPolicy policy).protectedFiles ↔ row ∈ policy.protectedFiles :=
    hsame _ (fun row hrow => htidy.rows row (by simp [hrow])) row
  have hexcluded (row : Path) :
      row ∈ (normalizeIntegrityPolicy policy).excludePaths ↔ row ∈ policy.excludePaths :=
    hsame _ (fun row hrow => htidy.rows row (by simp [hrow])) row
  have hscope : InScope (normalizeIntegrityPolicy policy) file ↔ InScope policy file := by
    simp only [inScope_iff, HasListedExtension, List.eq_nil_iff_forall_not_mem, hroots, hprotected, hexcluded,
      htidy.extensions]
  have hhidden : Hidden (normalizeIntegrityPolicy policy) file ↔ Hidden policy file := by
    simp only [Hidden, hprotected, hexcluded]
  rw [mem_spellings_of_rows ?_ hfile, hscope, hhidden]
  intro row hrow
  simp only [List.mem_append, hroots, hprotected, hexcluded] at hrow
  exact htidy.rows row (by simpa only [List.mem_append] using hrow)

end Tidy

end Protheus.Security.Integrity
