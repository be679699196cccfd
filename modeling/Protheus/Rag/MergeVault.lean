import Protheus.MemoryIndex.IndexDoc
import Protheus.Rag.Incremental

/-!
`merge_vault_payload` of `rag_runtime.rs`, on the index of a history of ingests.

A chunk whose identifier no line of `MEMORY_INDEX.md` starts with gets a row behind the
document.  Whatever the document said it still says, and a second merge finds every
identifier (`again_mergeVault`).  What a row says is up to the names in force at the end
of the document: under those a first merge writes, the third cell is the source; under
those `build_memory_index_doc` writes, the file is looked for in the summary
(`mergeVault_keeps`).
-/

namespace Protheus.Rag

open RustStd LaneUtils MemoryIndex Tables
open Runs (run_invariant)

/-! ## The merge -/

/-- `node_id` of a chunk. -/
def vaultNodeId (chunk : RagChunk) : String := "rag." ++ String.ofList (chunk.sha256.toList.take 12)

/-- The cells of the row of a chunk. -/
def vaultCells (chunk : RagChunk) : List String :=
  [vaultNodeId chunk, String.ofList (chunk.sha256.toList.take 24), chunk.sourcePath, cleanText chunk.text 160,
    "rag imported"]

def vaultRow (chunk : RagChunk) : String :=
  "| " ++ vaultNodeId chunk ++ " | " ++ String.ofList (chunk.sha256.toList.take 24) ++ " | " ++
    chunk.sourcePath ++ " | " ++ cleanText chunk.text 160 ++ " | rag imported |"

/-- The first cell of a line of a table, as the identifiers are gathered. -/
def lineId (line : String) : Option String :=
  let trimmed := trim line
  if trimmed.toList.head? ≠ some '|' then none
  else
    let cols := ((trimMatches '|' trimmed.toList).splitOn '|').map fun v => cleanText (String.ofList v) 120
    let id := cleanText (cols.headD "") 100
    if startsWith id "rag." then some id else none

/-- `existing_ids`. -/
def existingIds (existing : String) : List String := (lines existing).filterMap lineId

/-- One turn of the loop over the chunks, over the identifiers and the chunks that get a row. -/
def mergeChunk (acc : List String × List RagChunk) (chunk : RagChunk) : List String × List RagChunk :=
  if acc.1.contains (vaultNodeId chunk) then acc
  else (acc.1 ++ [vaultNodeId chunk], acc.2 ++ [chunk])

/-- The chunks that get a row. -/
def addedChunks (existing : String) (chunks : List RagChunk) : List RagChunk :=
  (chunks.foldl mergeChunk (existingIds existing, [])).2

/-- The lines of a document that a merge begins. -/
def mergeHead : String :=
  "| node_id | uid | file | summary | tags |\n| --- | --- | --- | --- | --- |\n"

/-- What stands before the rows. -/
def vaultHead (existing : String) : String :=
  if trim existing = "" then mergeHead
  else if endsWith existing "\n" then existing
  else existing ++ "\n"

/-- The rows, each with its line break. -/
def vaultRows (added : List RagChunk) : List Char := added.flatMap fun chunk => (vaultRow chunk).toList ++ ['\n']

/-- What a merge reports and what it leaves in `MEMORY_INDEX.md`. -/
structure Merged where
  rowsAdded : ℕ
  memoryIndex : Option String

def mergedChunks (maxMerge : Option String) (index : RagIndex) : List RagChunk :=
  index.chunks.take (parseUsize maxMerge 1 5000 200)

/-- `merge_vault_payload`, given the index and `MEMORY_INDEX.md` where there are such files. -/
def mergeVaultPayload (maxMerge : Option String) (index : Option RagIndex) (memoryIndex : Option String) :
    Except String Merged :=
  match index with
  | none => .error "index_missing"
  | some index =>
    let existing := memoryIndex.getD ""
    let added := addedChunks existing (mergedChunks maxMerge index)
    .ok
      { rowsAdded := added.length
        memoryIndex := if added.length = 0 then memoryIndex
          else some (String.ofList ((vaultHead existing).toList ++ vaultRows added)) }

/-! ## The property -/

/-- A document lists a chunk. -/
def IndexLists (memoryIndex : Option String) (chunk : RagChunk) : Prop :=
  ∃ entry ∈ parseIndexFile memoryIndex, entry.nodeId = vaultNodeId chunk ∧ entry.fileRel = chunk.sourcePath

/-- A merge loses nothing: every chunk it looks at is listed. -/
structure KeepsAll (maxMerge : Option String) (index : RagIndex) (memoryIndex : Option String)
    (after : Merged) : Prop where
  chunks : ∀ chunk ∈ mergedChunks maxMerge index, IndexLists after.memoryIndex chunk
  entries : ∀ entry ∈ parseIndexFile memoryIndex, entry ∈ parseIndexFile after.memoryIndex
  again : ∃ second, mergeVaultPayload maxMerge (some index) after.memoryIndex = .ok second ∧
    second.rowsAdded = 0

/-- The cells of a row as it is read; a source or a text with bars makes more. -/
def vaultRowCells (chunk : RagChunk) : List String := parseTableCells (vaultRow chunk)

def namesBehind (existing : String) : Option (List String) :=
  namesAfter runtime.classify none (lines (vaultHead existing))

/-- A row is one line, and not taken for a row of names. -/
structure Calm (chunk : RagChunk) : Prop where
  line : '\n' ∉ chunk.sourcePath.toList
  plain : ¬("node_id" ∈ (vaultRowCells chunk).map normalizeHeaderCell ∧
    "file" ∈ (vaultRowCells chunk).map normalizeHeaderCell)

/-- The first chunk with an identifier that no line of the document starts with. -/
def IsNew (existing : String) (chunks : List RagChunk) (chunk : RagChunk) : Prop :=
  vaultNodeId chunk ∉ existingIds existing ∧
    ∃ before after, chunks = before ++ chunk :: after ∧ ∀ other ∈ before, vaultNodeId other ≠ vaultNodeId chunk

/-- Under these names the row of one chunk speaks of another, most often of itself. -/
def RowSpeaksOf (names : Option (List String)) (row chunk : RagChunk) : Prop :=
  ∃ columns, names = some columns ∧
    normalizeNodeId (cleanCell (cellUnder columns (vaultRowCells row) "node_id")) = vaultNodeId chunk ∧
    normalizeFileRef (cleanCell (cellUnder columns (vaultRowCells row) "file")) = chunk.sourcePath ∧
    chunk.sourcePath ≠ ""

/-- Every chunk is listed already, or a new row speaks of it. -/
def Covered (maxMerge : Option String) (index : RagIndex) (memoryIndex : Option String) : Prop :=
  ∀ chunk ∈ mergedChunks maxMerge index, IndexLists memoryIndex chunk ∨
    ∃ row, IsNew (memoryIndex.getD "") (mergedChunks maxMerge index) row ∧
      RowSpeaksOf (namesBehind (memoryIndex.getD "")) row chunk

/-! ## The loop -/

section Loop

variable {ids : List String} {added chunks : List RagChunk}

/-- After the loop every identifier is known, those of the chunks with a row besides the ones before. -/
theorem foldl_mergeChunk (acc : List String × List RagChunk) (chunks : List RagChunk) :
    (∀ chunk ∈ chunks, vaultNodeId chunk ∈ (chunks.foldl mergeChunk acc).1) ∧
      ∃ more, (chunks.foldl mergeChunk acc).2 = acc.2 ++ more ∧
        (chunks.foldl mergeChunk acc).1 = acc.1 ++ more.map vaultNodeId := by
  induction chunks generalizing acc with
  | nil => exact ⟨by simp, [], by simp, by simp⟩
  | cons chunk rest ih =>
    rw [List.foldl_cons]
    by_cases hknown : acc.1.contains (vaultNodeId chunk) = true
    · obtain ⟨hall, more, hadded, hids⟩ := ih acc
      rw [mergeChunk, if_pos hknown]
      refine ⟨fun other hother => ?_, more, hadded, hids⟩
      rcases List.mem_cons.mp hother with rfl | hother
      · rw [hids]
        exact List.mem_append_left _ (List.contains_iff_mem.mp hknown)
      · exact hall other hother
    · obtain ⟨hall, more, hadded, hids⟩ := ih (acc.1 ++ [vaultNodeId chunk], acc.2 ++ [chunk])
      rw [mergeChunk, if_neg hknown]
      refine ⟨fun other hother => ?_, chunk :: more, ?_, ?_⟩
      · rcases List.mem_cons.mp hother with rfl | hother
        · rw [hids]
          simp
        · exact hall other hother
      · rw [hadded, List.append_assoc, List.singleton_append]
      · rw [hids, List.append_assoc, List.map_cons, List.singleton_append]

/-- A loop over known identifiers adds nothing. -/
theorem foldl_mergeChunk_of_known {acc : List String × List RagChunk}
    (h : ∀ chunk ∈ chunks, vaultNodeId chunk ∈ acc.1) : chunks.foldl mergeChunk acc = acc := by
  induction chunks with
  | nil => rfl
  | cons chunk rest ih =>
    rw [List.foldl_cons, mergeChunk, if_pos (List.contains_iff_mem.mpr (h chunk List.mem_cons_self))]
    exact ih fun other hother => h other (List.mem_cons_of_mem _ hother)

/-- **The chunks that get a row** are the new ones. -/
theorem mem_foldl_mergeChunk (acc : List String × List RagChunk) (chunks : List RagChunk) (chunk : RagChunk) :
    chunk ∈ (chunks.foldl mergeChunk acc).2 ↔ chunk ∈ acc.2 ∨ (vaultNodeId chunk ∉ acc.1 ∧
      ∃ before after, chunks = before ++ chunk :: after ∧
        ∀ other ∈ before, vaultNodeId other ≠ vaultNodeId chunk) := by
  induction chunks generalizing acc with
  | nil => simp
  | cons first rest ih =>
    rw [List.foldl_cons, ih]
    by_cases hknown : acc.1.contains (vaultNodeId first) = true
    · rw [mergeChunk, if_pos hknown]
      rw [List.contains_iff_mem] at hknown
      refine or_congr_right (and_congr_right fun hnew => ?_)
      constructor
      · rintro ⟨before, after, rfl, hbefore⟩
        refine ⟨first :: before, after, rfl, fun other hother => ?_⟩
        rcases List.mem_cons.mp hother with rfl | hother
        · exact fun heq => hnew (heq ▸ hknown)
        · exact hbefore other hother
      · rintro ⟨before, after, hsplit, hbefore⟩
        cases before with
        | nil =>
          rw [List.nil_append] at hsplit
          exact absurd ((List.cons.inj hsplit).1 ▸ hknown) hnew
        | cons head before =>
          obtain ⟨rfl, hrest⟩ := List.cons.inj hsplit
          exact ⟨before, after, hrest, fun other hother => hbefore other (List.mem_cons_of_mem _ hother)⟩
    · rw [mergeChunk, if_neg hknown]
      rw [List.contains_iff_mem] at hknown
      dsimp only
      rw [List.mem_append, List.mem_singleton, List.mem_append, List.mem_singleton, or_assoc]
      refine or_congr_right ?_
      constructor
      · rintro (rfl | ⟨hnew, before, after, rfl, hbefore⟩)
        · exact ⟨hknown, [], rest, rfl, by simp⟩
        · rw [not_or] at hnew
          refine ⟨hnew.1, first :: before, after, rfl, fun other hother => ?_⟩
          rcases List.mem_cons.mp hother with rfl | hother
          · exact fun heq => hnew.2 heq.symm
          · exact hbefore other hother
      · rintro ⟨hnew, before, after, hsplit, hbefore⟩
        cases before with
        | nil =>
          rw [List.nil_append] at hsplit
          exact .inl (List.cons.inj hsplit).1.symm
        | cons head before =>
          obtain ⟨rfl, hrest⟩ := List.cons.inj hsplit
          refine .inr ⟨not_or.mpr ⟨hnew, fun heq => hbefore first List.mem_cons_self heq.symm⟩, before, after,
            hrest, fun other hother => hbefore other (List.mem_cons_of_mem _ hother)⟩

theorem mem_addedChunks {existing : String} {chunk : RagChunk} :
    chunk ∈ addedChunks existing chunks ↔ IsNew existing chunks chunk := by
  rw [addedChunks, mem_foldl_mergeChunk]
  simp [IsNew]

end Loop

/-! ## Lines of a merged document -/

section Lines

variable {existing : String} {chunk : RagChunk}

/-- The digest of a chunk has letters and digits only. -/
def Digested (chunk : RagChunk) : Prop := ∀ c ∈ chunk.sha256.toList, isAlnum c = true

theorem plain_vaultNodeId (h : Digested chunk) : Plain (vaultNodeId chunk) := by
  intro c hc
  rw [vaultNodeId, String.toList_append, @String.toList_ofList (chunk.sha256.toList.take 12),
    List.mem_append] at hc
  rcases hc with hc | hc
  · have hall : "rag.".toList.all isPlain = true := rfl
    exact List.all_eq_true.mp hall c hc
  · exact isPlain_of_isAlnum (h c (List.mem_of_mem_take hc))

theorem length_vaultNodeId (chunk : RagChunk) : (vaultNodeId chunk).toList.length ≤ 16 := by
  rw [vaultNodeId, String.toList_append, @String.toList_ofList (chunk.sha256.toList.take 12),
    List.length_append, List.length_take]
  have hrag : "rag.".toList.length = 4 := rfl
  omega

/-- A short identifier is clean. -/
theorem cleanText_vaultNodeId (h : Digested chunk) {maxLen : ℕ} (hmax : 16 ≤ maxLen) :
    cleanText (vaultNodeId chunk) maxLen = vaultNodeId chunk := by
  refine wave_cleanText_of_free (fun c hc => (of_isPlain (plain_vaultNodeId h c hc)).1) ?_
  exact (length_vaultNodeId chunk).trans hmax

/-- What is left between the bars of a line that starts with a cell. -/
theorem trimMatches_cell {cell rest : List Char} : ∃ tail, (tail = [] ∨ ∃ more, tail = '|' :: more) ∧
    trimMatches '|' ('|' :: ' ' :: (cell ++ ' ' :: '|' :: rest)) = ' ' :: (cell ++ [' ']) ++ tail := by
  have hlist : ' ' :: (cell ++ ' ' :: '|' :: rest) = ' ' :: (cell ++ [' ']) ++ '|' :: rest := by simp
  have hkeep : (' ' :: (cell ++ [' '])).reverse.dropWhile (· == '|') = (' ' :: (cell ++ [' '])).reverse := by
    rw [← List.cons_append, List.reverse_append, List.reverse_singleton, List.singleton_append,
      List.dropWhile_cons_of_neg (by decide)]
  rw [trimMatches, List.dropWhile_cons_of_pos (by decide), List.dropWhile_cons_of_neg (by decide), hlist,
    List.reverse_append, List.dropWhile_append, hkeep]
  split
  · exact ⟨[], .inl rfl, by rw [List.reverse_reverse, List.append_nil]⟩
  · rename_i hfull
    refine ⟨((('|' :: rest).reverse).dropWhile (· == '|')).reverse, .inr ?_, ?_⟩
    · have hfront : ((('|' :: rest).reverse).dropWhile (· == '|')).reverse <+: '|' :: rest := by
        rw [← List.reverse_suffix, List.reverse_reverse]
        exact List.dropWhile_suffix _
      cases hkept : ((('|' :: rest).reverse).dropWhile (· == '|')).reverse with
      | nil =>
        rw [List.reverse_eq_nil_iff] at hkept
        rw [hkept] at hfull
        exact absurd rfl hfull
      | cons c more =>
        rw [hkept, List.cons_prefix_cons] at hfront
        exact ⟨more, by rw [hfront.1]⟩
    · rw [List.reverse_append, List.reverse_reverse]

/-- **A line that starts with the identifier of a chunk** is known by it. -/
theorem lineId_of_cell (h : Digested chunk) (rest : List Char) :
    lineId (String.ofList ('|' :: ' ' :: ((vaultNodeId chunk).toList ++ ' ' :: '|' :: rest))) =
      some (vaultNodeId chunk) := by
  have htrim : trim (String.ofList ('|' :: ' ' :: ((vaultNodeId chunk).toList ++ ' ' :: '|' :: rest))) =
      String.ofList ('|' :: ' ' :: ((vaultNodeId chunk).toList ++ ' ' :: '|' :: trimEnd rest)) := by
    have hsplit : '|' :: ' ' :: ((vaultNodeId chunk).toList ++ ' ' :: '|' :: rest) =
        ('|' :: ' ' :: ((vaultNodeId chunk).toList ++ [' ', '|'])) ++ rest := by simp
    have hlast : ∀ c ∈ ('|' :: ' ' :: ((vaultNodeId chunk).toList ++ [' ', '|'])).getLast?,
        isWhitespace c = false := by
      intro c hc
      have hbar : '|' :: ' ' :: ((vaultNodeId chunk).toList ++ [' ', '|']) =
          ('|' :: ' ' :: ((vaultNodeId chunk).toList ++ [' '])) ++ ['|'] := by simp
      rw [hbar, List.getLast?_concat] at hc
      rw [← Option.some.inj hc]
      decide
    rw [trim_ofList, List.dropWhile_cons_of_neg (by decide), hsplit, trimEnd_append hlast]
    simp
  obtain ⟨tail, htail, hinner⟩ := @trimMatches_cell (vaultNodeId chunk).toList (trimEnd rest)
  have hfree : '|' ∉ ' ' :: ((vaultNodeId chunk).toList ++ [' ']) := by
    have hid := (plain_vaultNodeId h).notMem (c := '|') (by simp)
    simpa using hid
  have hhead : (((' ' :: ((vaultNodeId chunk).toList ++ [' ']) ++ tail).splitOn '|').map
      fun v => cleanText (String.ofList v) 120).headD "" = vaultNodeId chunk := by
    have hclean : cleanText (String.ofList (' ' :: ((vaultNodeId chunk).toList ++ [' ']))) 120 =
        vaultNodeId chunk :=
      (wave_cleanText_padded (vaultNodeId chunk) 120).trans (cleanText_vaultNodeId h (by omega))
    rcases htail with rfl | ⟨more, rfl⟩
    · rw [List.append_nil, List.splitOn_eq_singleton hfree, List.map_singleton, List.headD_cons, hclean]
    · rw [List.splitOn_append_cons_self_of_not_mem hfree, List.map_cons, List.headD_cons, hclean]
  have hstarts : startsWith (vaultNodeId chunk) "rag." = true := by
    rw [startsWith, List.isPrefixOf_iff_prefix, vaultNodeId, String.toList_append]
    exact List.prefix_append _ _
  rw [lineId, htrim, String.toList_ofList, hinner]
  simp only [hhead, cleanText_vaultNodeId h (by omega : 16 ≤ 100), hstarts, List.head?_cons, ne_eq,
    not_true_eq_false, if_false, if_true]

theorem vaultRow_eq (chunk : RagChunk) : vaultRow chunk = rowText (vaultCells chunk) := by
  refine String.toList_injective ?_
  simp [vaultRow, vaultCells, rowText, padded]

/-- What stands before the first separator stands in the first piece. -/
theorem splitOn_append_of_notMem {c : Char} {a r : List Char} (h : c ∉ a) :
    (a ++ r).splitOn c = (r.splitOn c).modifyHead (a ++ ·) := by
  induction a with
  | nil =>
    rw [List.nil_append]
    cases r.splitOn c with
    | nil => rfl
    | cons piece pieces => rfl
  | cons d a ih =>
    rw [List.mem_cons, not_or] at h
    rw [List.cons_append, List.splitOn_cons_eq_if_modifyHead, if_neg (by simpa using Ne.symm h.1), ih h.2]
    cases r.splitOn c with
    | nil => rfl
    | cons piece pieces => rfl

/-- The first line of a row starts with the identifier. -/
theorem mem_lines_vaultRow (h : Digested chunk) : ∃ rest,
    String.ofList ('|' :: ' ' :: ((vaultNodeId chunk).toList ++ ' ' :: '|' :: rest)) ∈
      lines (String.ofList ((vaultRow chunk).toList ++ ['\n'])) := by
  obtain ⟨r, hr⟩ : ∃ r, (vaultRow chunk).toList =
      ('|' :: ' ' :: ((vaultNodeId chunk).toList ++ [' ', '|'])) ++ r := by
    refine ⟨' ' :: (chunk.sha256.toList.take 24 ++ (" | " ++ chunk.sourcePath ++ " | " ++
      cleanText chunk.text 160 ++ " | rag imported |").toList), ?_⟩
    simp [vaultRow]
  have hfree : '\n' ∉ '|' :: ' ' :: ((vaultNodeId chunk).toList ++ [' ', '|']) := by
    have hid := (plain_vaultNodeId h).notMem (c := '\n') (by simp)
    simpa using hid
  rw [lines_closed, hr, splitOn_append_of_notMem hfree]
  cases hpieces : r.splitOn '\n' with
  | nil => exact absurd hpieces (List.splitOn_ne_nil _ _)
  | cons piece pieces =>
    rw [List.modifyHead_cons, List.map_cons, lineText]
    split
    · -- a carriage return before the break belongs to the rest of the line
      rename_i hreturn
      cases hpiece : piece with
      | nil =>
        have hbar : '|' :: ' ' :: ((vaultNodeId chunk).toList ++ [' ', '|']) =
            ('|' :: ' ' :: ((vaultNodeId chunk).toList ++ [' '])) ++ ['|'] := by simp
        rw [hpiece, List.append_nil, hbar, List.getLast?_concat] at hreturn
        cases hreturn
      | cons d more =>
        refine ⟨(d :: more).dropLast, ?_⟩
        rw [List.dropLast_append_of_ne_nil (List.cons_ne_nil d more)]
        simp
    · exact ⟨piece, by simp⟩

theorem lines_vaultRows (added : List RagChunk) : lines (String.ofList (vaultRows added)) =
    added.flatMap fun chunk => lines (String.ofList ((vaultRow chunk).toList ++ ['\n'])) := by
  induction added with
  | nil => rfl
  | cons chunk rest ih =>
    have hcons : vaultRows (chunk :: rest) = (vaultRow chunk).toList ++ '\n' :: vaultRows rest := by
      rw [vaultRows, List.flatMap_cons, List.append_assoc, List.singleton_append, vaultRows]
    rw [hcons, lines_append, ih, List.flatMap_cons]

/-- The document before the rows ends with a line break. -/
theorem exists_vaultHead (existing : String) : ∃ a, (vaultHead existing).toList = a ++ ['\n'] := by
  unfold vaultHead
  split
  · exact ⟨"| node_id | uid | file | summary | tags |\n| --- | --- | --- | --- | --- |".toList, by decide⟩
  · split
    · rename_i hends
      rw [endsWith, List.isSuffixOf_iff_suffix] at hends
      obtain ⟨a, ha⟩ := hends
      exact ⟨a, ha.symm⟩
    · exact ⟨existing.toList, by simp⟩

/-- A document that is not blank keeps its lines. -/
theorem lines_vaultHead (hne : trim existing ≠ "") : lines (vaultHead existing) = lines existing := by
  rw [vaultHead, if_neg hne]
  split
  · rfl
  · rename_i hends
    have hnonempty : existing.toList ≠ [] := by
      intro hnil
      rw [String.toList_eq_nil_iff.mp hnil] at hne
      exact hne rfl
    have hopen : existing.toList.getLast? ≠ some '\n' := by
      intro hlast
      obtain ⟨a, ha⟩ := List.getLast?_eq_some_iff.mp hlast
      refine hends ?_
      rw [endsWith, List.isSuffixOf_iff_suffix, ha]
      exact List.suffix_append _ _
    have hconcat := lines_concat hnonempty hopen
    rw [String.ofList_toList] at hconcat
    rw [← hconcat]
    refine congrArg lines (String.toList_injective ?_)
    simp

/-- **The lines of a merged document.** -/
theorem lines_merged (existing : String) (added : List RagChunk) :
    lines (String.ofList ((vaultHead existing).toList ++ vaultRows added)) =
      lines (vaultHead existing) ++
        added.flatMap fun chunk => lines (String.ofList ((vaultRow chunk).toList ++ ['\n'])) := by
  obtain ⟨a, ha⟩ := exists_vaultHead existing
  have hhead : vaultHead existing = String.ofList (a ++ ['\n']) := by rw [← ha, String.ofList_toList]
  rw [ha, List.append_assoc, List.singleton_append, lines_append, ← hhead, lines_vaultRows]

theorem trim_of_mem_blank (hblank : trim existing = "") : ∀ line ∈ lines existing, trim line = "" := by
  intro line hline
  rw [trim_eq_empty_iff] at hblank ⊢
  intro c hc
  refine hblank c ?_
  rw [lines] at hline
  obtain ⟨piece, hpiece, rfl⟩ := List.mem_map.mp hline
  have hin : piece ∈ existing.toList.splitOn '\n' := by
    split at hpiece
    · exact List.mem_of_mem_dropLast hpiece
    · exact hpiece
  have hchar : c ∈ piece := by
    rw [String.toList_ofList] at hc
    split at hc
    · exact List.mem_of_mem_dropLast hc
    · exact hc
  exact Words.mem_of_mem_piece piece hin c hchar

theorem blank_says_nothing (hblank : trim existing = "") :
    existingIds existing = [] ∧ parseIndexFile (some existing) = [] := by
  have hline : ∀ line ∈ lines existing, (trim line).toList.head? ≠ some '|' := by
    intro line hline
    rw [trim_of_mem_blank hblank line hline]
    decide
  constructor
  · rw [existingIds, List.filterMap_eq_nil_iff]
    intro line hmem
    rw [lineId, if_pos (hline line hmem)]
  · rw [parseIndexFile, Dialect.parse, Option.map_some, Option.getD_some]
    refine (readRows_skipped fun line hmem => ?_).1
    rw [Dialect.classify, if_pos (hline line hmem)]

end Lines

/-! ## What every merge keeps -/

section Merge

variable {maxMerge : Option String} {index : RagIndex} {memoryIndex : Option String}

/-- **A merge** leaves the document as it is or writes rows behind it. -/
theorem mergeVaultPayload_some (maxMerge : Option String) (index : RagIndex) (memoryIndex : Option String) :
    ∃ after, mergeVaultPayload maxMerge (some index) memoryIndex = .ok after ∧
      after.rowsAdded = (addedChunks (memoryIndex.getD "") (mergedChunks maxMerge index)).length ∧
      after.memoryIndex = if after.rowsAdded = 0 then memoryIndex
        else some (String.ofList ((vaultHead (memoryIndex.getD "")).toList ++
          vaultRows (addedChunks (memoryIndex.getD "") (mergedChunks maxMerge index)))) :=
  ⟨_, rfl, rfl, rfl⟩

theorem parseIndexFile_eq (memoryIndex : Option String) : parseIndexFile memoryIndex =
    readRows runtime.classify runtime.read none (lines (memoryIndex.getD "")) := by
  cases memoryIndex with
  | none => rfl
  | some text => rfl

/-- What a document says it says before its rows. -/
theorem readRows_vaultHead (existing : String) :
    readRows runtime.classify runtime.read none (lines (vaultHead existing)) =
      parseIndexFile (some existing) := by
  by_cases hblank : trim existing = ""
  · rw [(blank_says_nothing hblank).2, vaultHead, if_pos hblank]
    decide
  · rw [lines_vaultHead hblank]
    rfl

theorem parseIndexFile_merged (existing : String) (added : List RagChunk) :
    parseIndexFile (some (String.ofList ((vaultHead existing).toList ++ vaultRows added))) =
      parseIndexFile (some existing) ++ readRows runtime.classify runtime.read (namesBehind existing)
        (added.flatMap fun chunk => lines (String.ofList ((vaultRow chunk).toList ++ ['\n']))) := by
  rw [parseIndexFile_eq, Option.getD_some, lines_merged, readRows_append, readRows_vaultHead, namesBehind]

theorem existingIds_merged (existing : String) (added : List RagChunk) :
    ∀ id ∈ existingIds existing,
      id ∈ existingIds (String.ofList ((vaultHead existing).toList ++ vaultRows added)) := by
  intro id hid
  have hne : trim existing ≠ "" := by
    intro hblank
    rw [(blank_says_nothing hblank).1] at hid
    cases hid
  rw [existingIds, lines_merged, lines_vaultHead hne, List.filterMap_append]
  exact List.mem_append_left _ hid

/-- A row makes its identifier known. -/
theorem mem_existingIds_row {existing : String} {added : List RagChunk} {chunk : RagChunk}
    (hchunk : chunk ∈ added) (hdigest : Digested chunk) : vaultNodeId chunk ∈
      existingIds (String.ofList ((vaultHead existing).toList ++ vaultRows added)) := by
  obtain ⟨rest, hline⟩ := mem_lines_vaultRow hdigest
  rw [existingIds, lines_merged, List.filterMap_append]
  refine List.mem_append_right _ (List.mem_filterMap.mpr ⟨_, ?_, lineId_of_cell hdigest rest⟩)
  exact List.mem_flatMap.mpr ⟨chunk, hchunk, hline⟩

variable (hdigests : ∀ chunk ∈ index.chunks, Digested chunk)

include hdigests

/-- **A second merge adds no row.** -/
theorem again_mergeVault {after : Merged} (h : mergeVaultPayload maxMerge (some index) memoryIndex = .ok after) :
    ∃ second, mergeVaultPayload maxMerge (some index) after.memoryIndex = .ok second ∧
      second.rowsAdded = 0 := by
  obtain ⟨first, hfirst, hadded, hindex⟩ := mergeVaultPayload_some maxMerge index memoryIndex
  obtain rfl : first = after := Except.ok.inj (hfirst.symm.trans h)
  obtain ⟨second, hsecond, hadded', -⟩ := mergeVaultPayload_some maxMerge index first.memoryIndex
  refine ⟨second, hsecond, ?_⟩
  by_cases hzero : first.rowsAdded = 0
  · -- nothing was written, so the second merge sees what the first one saw
    rw [if_pos hzero] at hindex
    rw [hadded', hindex, ← hadded, hzero]
  · rw [if_neg hzero] at hindex
    obtain ⟨hknown, more, hmore, hids⟩ := foldl_mergeChunk
      (existingIds (memoryIndex.getD ""), ([] : List RagChunk)) (mergedChunks maxMerge index)
    have hmem : ∀ chunk ∈ mergedChunks maxMerge index,
        vaultNodeId chunk ∈ existingIds (first.memoryIndex.getD "") := by
      intro chunk hchunk
      rw [hindex, Option.getD_some]
      have hid := hknown chunk hchunk
      rw [hids, List.mem_append] at hid
      rcases hid with hid | hid
      · exact existingIds_merged _ _ _ hid
      · obtain ⟨row, hrow, heq⟩ := List.mem_map.mp hid
        rw [← heq]
        have hnew : row ∈ addedChunks (memoryIndex.getD "") (mergedChunks maxMerge index) := by
          rw [addedChunks, hmore]
          exact List.mem_append_right _ hrow
        obtain ⟨-, before, rest, hsplit, -⟩ := mem_addedChunks.mp hnew
        have hin : row ∈ mergedChunks maxMerge index := by
          rw [hsplit]
          simp
        exact mem_existingIds_row hnew (hdigests row (List.mem_of_mem_take hin))
    have hnone : (mergedChunks maxMerge index).foldl mergeChunk
        (existingIds (first.memoryIndex.getD ""), []) = (existingIds (first.memoryIndex.getD ""), []) :=
      foldl_mergeChunk_of_known hmem
    rw [hadded', addedChunks, hnone]
    rfl

omit hdigests in
/-- **Whatever a document lists it lists after a merge.** -/
theorem entries_mergeVault {after : Merged}
    (h : mergeVaultPayload maxMerge (some index) memoryIndex = .ok after) :
    ∀ entry ∈ parseIndexFile memoryIndex, entry ∈ parseIndexFile after.memoryIndex := by
  obtain ⟨first, hfirst, -, hindex⟩ := mergeVaultPayload_some maxMerge index memoryIndex
  obtain rfl : first = after := Except.ok.inj (hfirst.symm.trans h)
  intro entry hentry
  by_cases hzero : first.rowsAdded = 0
  · rw [hindex, if_pos hzero]
    exact hentry
  · rw [hindex, if_neg hzero, parseIndexFile_merged]
    refine List.mem_append_left _ ?_
    rw [parseIndexFile_eq] at hentry
    rw [parseIndexFile_eq, Option.getD_some]
    exact hentry

end Merge

/-! ## Calm merges -/

section Calm

variable {chunk row : RagChunk} {names : Option (List String)}

theorem newline_notMem_cleanText (raw : String) (maxLen : ℕ) : '\n' ∉ (cleanText raw maxLen).toList := by
  intro hmem
  have htaken := (trim_within _).subset hmem
  rw [String.toList_ofList] at htaken
  have hjoined := List.mem_of_mem_take htaken
  rw [joinWords_eq] at hjoined
  exact absurd (Words.eq_gap_of_mem_joined hjoined rfl) (by decide)

/-- The cells of a row are free of a mark of the table where the source and the text are. -/
theorem notMem_vaultCells (hdigest : Digested chunk) {c : Char} (hc : c ∈ ['\n', '|'])
    (hsource : c ∉ chunk.sourcePath.toList) (htext : c ∉ (cleanText chunk.text 160).toList) :
    ∀ cell ∈ vaultCells chunk, c ∉ cell.toList := by
  have hmark : c ∈ ['\n', '\r', '|', '`', '\\', '"', '\'', ','] := by
    simp only [List.mem_cons, List.not_mem_nil, or_false] at hc ⊢
    tauto
  intro cell hcell
  simp only [vaultCells, List.mem_cons, List.not_mem_nil, or_false] at hcell
  rcases hcell with rfl | rfl | rfl | rfl | rfl
  · exact (plain_vaultNodeId hdigest).notMem hmark
  · intro hmem
    rw [String.toList_ofList] at hmem
    exact (of_isPlain (isPlain_of_isAlnum (hdigest c (List.mem_of_mem_take hmem)))).2 hmark
  · exact hsource
  · exact htext
  · simp only [List.mem_cons, List.not_mem_nil, or_false] at hc
    rcases hc with rfl | rfl
    · decide
    · decide

theorem Calm.lines_eq (h : Calm chunk) (hdigest : Digested chunk) :
    lines (String.ofList ((vaultRow chunk).toList ++ ['\n'])) = [vaultRow chunk] := by
  have hcells := notMem_vaultCells hdigest (by simp) h.line (newline_notMem_cleanText chunk.text 160)
  have hfree : '\n' ∉ (vaultRow chunk).toList := by
    rw [vaultRow_eq]
    exact newline_notMem_rowText hcells
  have hlast : (vaultRow chunk).toList.getLast? = some '|' := by rw [vaultRow_eq, getLast_rowText]
  rw [lines_closed, List.splitOn_eq_singleton hfree, List.map_singleton, lineText, hlast, if_neg (by decide),
    String.ofList_toList]

/-- A calm row is a row. -/
theorem Calm.classify_eq (h : Calm chunk) (hdigest : Digested chunk) :
    runtime.classify (vaultRow chunk) = .row (vaultRowCells chunk) := by
  have htrim : trim (vaultRow chunk) = vaultRow chunk := by rw [vaultRow_eq, trim_rowText]
  have hhead : ¬(vaultRow chunk).toList.head? ≠ some '|' := by
    rw [vaultRow_eq, head_rowText]
    exact not_not_intro rfl
  have hcells : runtime.cellsOf (vaultRow chunk) = vaultRowCells chunk := by
    rw [runtime_cellsOf, vaultRowCells]
  have hid : vaultNodeId chunk ∈ vaultRowCells chunk := by
    have hbar := (plain_vaultNodeId hdigest).notMem (c := '|') (by simp)
    have hne : vaultCells chunk ≠ [] := List.cons_ne_nil _ _
    rw [vaultRowCells, vaultRow_eq, parseTableCells_rowText hne, vaultCells, List.flatMap_cons,
      splitOn_padded hbar, List.singleton_append, List.map_cons, cleanCell_padded,
      cleanCell_of_plain (plain_vaultNodeId hdigest)]
    exact List.mem_cons_self
  have hrule : ¬(vaultRowCells chunk).all isRule = true := by
    intro hall
    have hcell := List.all_eq_true.mp hall _ hid
    rw [isRule, vaultNodeId, String.toList_append, List.all_append, Bool.and_eq_true] at hcell
    exact absurd hcell.1 (by decide)
  rw [Dialect.classify, htrim, if_neg hhead, hcells, if_neg hrule, if_neg]
  rw [runtime_headerCell, Bool.and_eq_true, List.contains_iff_mem, List.contains_iff_mem]
  exact h.plain

theorem vaultNodeId_ne (chunk : RagChunk) : vaultNodeId chunk ≠ "" := by
  rw [vaultNodeId]
  simp

/-- **What a row says** is what it speaks of. -/
theorem rowSpeaksOf_iff : RowSpeaksOf names row chunk ↔
    ∃ entry, names.bind (runtime.read · (vaultRowCells row)) = some entry ∧
      entry.nodeId = vaultNodeId chunk ∧ entry.fileRel = chunk.sourcePath := by
  constructor
  · rintro ⟨columns, rfl, hid, hfile, hne⟩
    have hkept : ¬(vaultNodeId chunk = "" ∨ chunk.sourcePath = "") :=
      not_or.mpr ⟨vaultNodeId_ne chunk, hne⟩
    rw [Option.bind_some, Dialect.read, runtime_entry, indexEntry]
    simp only [hid, hfile, if_neg hkept]
    exact ⟨_, rfl, rfl, rfl⟩
  · rintro ⟨entry, hentry, hid, hfile⟩
    obtain ⟨columns, hcolumns, hread⟩ := Option.bind_eq_some_iff.mp hentry
    rw [Dialect.read, runtime_entry, indexEntry] at hread
    dsimp only at hread
    split at hread
    · cases hread
    · rename_i hkept
      rw [← Option.some.inj hread] at hid hfile
      dsimp only at hid hfile
      rw [hfile] at hkept
      exact ⟨columns, hcolumns, hid, hfile, fun hempty => hkept (.inr hempty)⟩

end Calm

section Kept

variable {maxMerge : Option String} {index : RagIndex} {memoryIndex : Option String} {after : Merged}

/-- **What a calm merge leaves**: the entries of the document and those of the new rows. -/
theorem lists_after (hdigests : ∀ chunk ∈ index.chunks, Digested chunk)
    (hcalm : ∀ chunk, IsNew (memoryIndex.getD "") (mergedChunks maxMerge index) chunk → Calm chunk)
    (h : mergeVaultPayload maxMerge (some index) memoryIndex = .ok after) (chunk : RagChunk) :
    IndexLists after.memoryIndex chunk ↔ IndexLists memoryIndex chunk ∨
      ∃ row, IsNew (memoryIndex.getD "") (mergedChunks maxMerge index) row ∧
        RowSpeaksOf (namesBehind (memoryIndex.getD "")) row chunk := by
  obtain ⟨first, hfirst, hadded, hindex⟩ := mergeVaultPayload_some maxMerge index memoryIndex
  obtain rfl : first = after := Except.ok.inj (hfirst.symm.trans h)
  by_cases hzero : first.rowsAdded = 0
  · rw [hindex, if_pos hzero]
    refine ⟨.inl, ?_⟩
    rintro (hlists | ⟨row, hnew, -⟩)
    · exact hlists
    · -- no chunk is new
      have hnone := List.eq_nil_of_length_eq_zero (hadded.symm.trans hzero)
      rw [← mem_addedChunks, hnone] at hnew
      cases hnew
  · have hrow : ∀ row ∈ addedChunks (memoryIndex.getD "") (mergedChunks maxMerge index),
        Calm row ∧ Digested row := by
      intro row hrow
      have hnew := mem_addedChunks.mp hrow
      obtain ⟨-, before, rest, hsplit, -⟩ := hnew
      have hin : row ∈ mergedChunks maxMerge index := by
        rw [hsplit]
        simp
      exact ⟨hcalm row (mem_addedChunks.mp hrow), hdigests row (List.mem_of_mem_take hin)⟩
    have hlines : (addedChunks (memoryIndex.getD "") (mergedChunks maxMerge index)).flatMap
        (fun row => lines (String.ofList ((vaultRow row).toList ++ ['\n']))) =
          (addedChunks (memoryIndex.getD "") (mergedChunks maxMerge index)).map vaultRow := by
      refine (List.flatMap_congr fun row hmem => (hrow row hmem).1.lines_eq (hrow row hmem).2).trans ?_
      exact List.map_eq_flatMap.symm
    have hclass : ∀ row ∈ addedChunks (memoryIndex.getD "") (mergedChunks maxMerge index),
        runtime.classify (vaultRow row) = .row (vaultRowCells row) :=
      fun row hmem => (hrow row hmem).1.classify_eq (hrow row hmem).2
    have hparse : parseIndexFile (some (memoryIndex.getD "")) = parseIndexFile memoryIndex := by
      rw [parseIndexFile_eq, Option.getD_some, ← parseIndexFile_eq]
    rw [hindex, if_neg hzero, IndexLists, parseIndexFile_merged, hlines, (readRows_map _ hclass).1, hparse, IndexLists]
    constructor
    · rintro ⟨entry, hentry, htold⟩
      rcases List.mem_append.mp hentry with hentry | hentry
      · exact .inl ⟨entry, hentry, htold⟩
      · obtain ⟨row, hmem, hread⟩ := List.mem_filterMap.mp hentry
        exact .inr ⟨row, mem_addedChunks.mp hmem, rowSpeaksOf_iff.mpr ⟨entry, hread, htold⟩⟩
    · rintro (⟨entry, hentry, htold⟩ | ⟨row, hnew, hspeaks⟩)
      · exact ⟨entry, List.mem_append_left _ hentry, htold⟩
      · obtain ⟨entry, hread, htold⟩ := rowSpeaksOf_iff.mp hspeaks
        exact ⟨entry, List.mem_append_right _ (List.mem_filterMap.mpr
          ⟨row, mem_addedChunks.mpr hnew, hread⟩), htold⟩

end Kept

/-! ## Names of columns -/

section Columns

variable {row chunk : RagChunk}

/-- The names that a merge gives the columns of a document it begins. -/
def mergeColumns : List String := ["node_id", "uid", "file", "summary", "tags"]

theorem namesBehind_blank {existing : String} (hblank : trim existing = "") :
    namesBehind existing = some mergeColumns := by
  rw [namesBehind, vaultHead, if_pos hblank]
  decide

/-- Behind a document that was built the names are those it gives. -/
theorem namesBehind_doc {entries : List IndexEntry} (h : ∀ entry ∈ entries, Scanned entry)
    (hnames : ∀ entry ∈ entries, ¬NamesColumns entry) :
    namesBehind (buildMemoryIndexDoc entries) = some docColumns := by
  have hvisible : trim (buildMemoryIndexDoc entries) ≠ "" := by
    intro hblank
    have hhash : '#' ∈ (buildMemoryIndexDoc entries).toList := by
      rw [buildMemoryIndexDoc, String.toList_ofList, docLines, docHead, List.cons_append, List.cons_append,
        List.map_cons, List.map_cons, List.intercalate_cons_cons]
      simp
    exact absurd (trim_eq_empty_iff.mp hblank '#' hhash) (by decide)
  have hrows : namesAfter runtime.classify (some docColumns)
      (if entries.isEmpty then ["| | | | | |"] else entries.map docRow) = some docColumns := by
    split
    · decide
    · have hrow : ∀ entry ∈ entries, runtime.classify (docRow entry) = .row (readCells entry) := by
        intro entry hentry
        rw [(h entry hentry).classify_docRow, if_neg (hnames entry hentry)]
      have hmap : readRows runtime.classify runtime.read (some docColumns) (entries.map docRow) = _ ∧
          namesAfter runtime.classify (some docColumns) (entries.map docRow) = some docColumns :=
        readRows_map (some docColumns) hrow
      exact hmap.2
  rw [namesBehind, lines_vaultHead hvisible, lines_buildMemoryIndexDoc h, docLines, namesAfter_append,
    read_docHead.2, hrows]

/-- The cells of a row without bars in its source and its text. -/
theorem vaultRowCells_of_free (hdigest : Digested row) (hsource : '|' ∉ row.sourcePath.toList)
    (htext : '|' ∉ (cleanText row.text 160).toList) : vaultRowCells row =
      [vaultNodeId row, cleanCell (String.ofList (row.sha256.toList.take 24)), cleanCell row.sourcePath,
        cleanCell (cleanText row.text 160), "rag imported"] := by
  have hfree := notMem_vaultCells hdigest (by simp) hsource htext
  have hne : vaultCells row ≠ [] := List.cons_ne_nil _ _
  have hlast : cleanCell "rag imported" = "rag imported" := by decide
  rw [vaultRowCells, vaultRow_eq, parseTableCells_of_free hne hfree, vaultCells]
  simp only [List.map_cons, List.map_nil, hlast, cleanCell_of_plain (plain_vaultNodeId hdigest)]

/-- What a cell of a row speaks of, given where the names put the file. -/
theorem rowSpeaksOf_of_cells {columns : List String} {file : String} (hdigest : Digested row)
    (hid : cellUnder columns (vaultRowCells row) "node_id" = vaultNodeId row)
    (hfile : cellUnder columns (vaultRowCells row) "file" = file) :
    RowSpeaksOf (some columns) row chunk ↔ vaultNodeId row = vaultNodeId chunk ∧
      normalizeFileRef (cleanCell file) = chunk.sourcePath ∧ chunk.sourcePath ≠ "" := by
  have hnode : normalizeNodeId (cleanCell (vaultNodeId row)) = vaultNodeId row := by
    have hplain := plain_vaultNodeId hdigest
    have hall : (vaultNodeId row).toList.all
        (fun c => isAlnum c || c == '.' || c == '_' || c == '-') = true := by
      rw [vaultNodeId, String.toList_append, @String.toList_ofList (row.sha256.toList.take 12),
        List.all_append, Bool.and_eq_true]
      refine ⟨by decide, List.all_eq_true.mpr fun c hc => ?_⟩
      rw [hdigest c (List.mem_of_mem_take hc)]
      rfl
    rw [cleanCell_of_plain hplain, normalizeNodeId, normalizeWord, stripTicks_of_plain hplain]
    simp only [if_neg (vaultNodeId_ne row), if_pos hall]
  constructor
  · rintro ⟨found, hfound, hnodeId, htold, hne⟩
    obtain rfl := Option.some.inj hfound
    rw [hid, hnode] at hnodeId
    rw [hfile] at htold
    exact ⟨hnodeId, htold, hne⟩
  · rintro ⟨hnodeId, htold, hne⟩
    exact ⟨columns, rfl, by rw [hid, hnode, hnodeId], by rw [hfile, htold], hne⟩

variable (hdigest : Digested row) (hsource : '|' ∉ row.sourcePath.toList)
  (htext : '|' ∉ (cleanText row.text 160).toList)

include hdigest hsource htext

/-- **Under the names of a merge** a row speaks of its source. -/
theorem rowSpeaksOf_mergeColumns : RowSpeaksOf (some mergeColumns) row chunk ↔
    vaultNodeId row = vaultNodeId chunk ∧
      normalizeFileRef (cleanCell (cleanCell row.sourcePath)) = chunk.sourcePath ∧ chunk.sourcePath ≠ "" := by
  refine rowSpeaksOf_of_cells hdigest ?_ ?_
  · rw [vaultRowCells_of_free hdigest hsource htext]
    simp [cellUnder, mergeColumns]
  · rw [vaultRowCells_of_free hdigest hsource htext]
    simp [cellUnder, mergeColumns]

/-- **Under the names of a document that was built** the text of a chunk stands for its file. -/
theorem rowSpeaksOf_docColumns : RowSpeaksOf (some docColumns) row chunk ↔
    vaultNodeId row = vaultNodeId chunk ∧
      normalizeFileRef (cleanCell (cleanCell (cleanText row.text 160))) = chunk.sourcePath ∧
        chunk.sourcePath ≠ "" := by
  refine rowSpeaksOf_of_cells hdigest ?_ ?_
  · rw [vaultRowCells_of_free hdigest hsource htext]
    simp [cellUnder, docColumns]
  · rw [vaultRowCells_of_free hdigest hsource htext]
    simp [cellUnder, docColumns]

end Columns

/-! ## Indexes of ingests -/

/-- `sha256_hex` prints 64 digits and letters. -/
structure Digests (host : Host) : Prop where
  length : ∀ bytes, (host.sha256Hex bytes).toList.length = 64
  chars : ∀ bytes, ∀ c ∈ (host.sha256Hex bytes).toList, isAlnum c = true

/-- The chunks of an index carry the digests of their texts. -/
def OwnDigests (host : Host) (index : Option RagIndex) : Prop :=
  ∀ prev, index = some prev → ∀ chunk ∈ prev.chunks, chunk.sha256 = host.sha256Text chunk.text

theorem ownDigests_step (host : Host) (base : String) (previous : Option RagIndex) (run : Run)
    (h : OwnDigests host previous) : OwnDigests host (step host base previous run) := by
  intro index hindex chunk hchunk
  obtain rfl := Option.some.inj hindex
  rw [chunks_eq, List.mem_insertionSort] at hchunk
  obtain ⟨file, -, hmem⟩ := List.mem_flatMap.mp hchunk
  cases hchunks : chunksOf host base run.args previous file with
  | none =>
    rw [hchunks] at hmem
    cases hmem
  | some chunks =>
    rw [hchunks, Option.getD_some] at hmem
    rw [chunksOf] at hchunks
    cases hreuse : reuseOf host base run.args previous file with
    | some taken =>
      -- taken over from the index before
      rw [hreuse, Option.some_or] at hchunks
      obtain rfl := Option.some.inj hchunks
      unfold reuseOf at hreuse
      split at hreuse
      · obtain ⟨bytes, -, hreuse⟩ := Option.bind_eq_some_iff.mp hreuse
        obtain ⟨prev, source, hprev, -, -, rfl⟩ := reusableChunks_eq_some hreuse
        exact h prev hprev chunk (List.mem_filter.mp hmem).1
      · cases hreuse
    | none =>
      rw [hreuse, Option.none_or] at hchunks
      obtain ⟨text, -, rfl⟩ := Option.map_eq_some_iff.mp hchunks
      obtain ⟨piece, -, rfl⟩ := List.mem_map.mp hmem
      rfl

/-- **What a merge does**, whatever stands in `MEMORY_INDEX.md`: every entry stays and a second merge adds
nothing; and where the new rows are calm, the chunks are all listed exactly if each is covered. -/
theorem mergeVault_keeps (host : Host) (hdigests : Digests host) (base : String) (history : List Run)
    (index : RagIndex) (hindex : Runs.run (step host base) none history = some index)
    (maxMerge memoryIndex : Option String) :
    ∃ after, mergeVaultPayload maxMerge (some index) memoryIndex = .ok after ∧
      (∀ entry ∈ parseIndexFile memoryIndex, entry ∈ parseIndexFile after.memoryIndex) ∧
      (∃ second, mergeVaultPayload maxMerge (some index) after.memoryIndex = .ok second ∧
        second.rowsAdded = 0) ∧
      ((∀ chunk, IsNew (memoryIndex.getD "") (mergedChunks maxMerge index) chunk → Calm chunk) →
        (KeepsAll maxMerge index memoryIndex after ↔ Covered maxMerge index memoryIndex)) := by
  have hown : OwnDigests host (Runs.run (step host base) none history) :=
    run_invariant (fun previous run h => ownDigests_step host base previous run h) history none
      fun _ hnone => nomatch hnone
  have hdigested : ∀ chunk ∈ index.chunks, Digested chunk := by
    intro chunk hchunk c hc
    rw [hown index hindex chunk hchunk] at hc
    exact hdigests.chars _ c hc
  obtain ⟨after, hafter, -, -⟩ := mergeVaultPayload_some maxMerge index memoryIndex
  have hentries := entries_mergeVault hafter
  have hagain := again_mergeVault hdigested hafter
  refine ⟨after, hafter, hentries, hagain, fun hcalm => ⟨fun hkeeps chunk hchunk => ?_, fun hcovered => ?_⟩⟩
  · exact (lists_after hdigested hcalm hafter chunk).mp (hkeeps.chunks chunk hchunk)
  · exact ⟨fun chunk hchunk => (lists_after hdigested hcalm hafter chunk).mpr (hcovered chunk hchunk),
      hentries, hagain⟩

/-- A host for concrete runs: the digests of a file with the text `x` and of its one chunk. -/
def noteHost : Host where
  sha256Hex bytes :=
    if bytes = [0x78] then "2d711642b726b04401627ca9fbac32f5c8530fb1903cc4db02258717921a4881"
    else "82c5d006660201dbbb401128bf3dfb853a3d4e6fce829070d6f03f8b02671b06"

theorem digests_noteHost : Digests noteHost where
  length bytes := by
    rw [noteHost]
    dsimp only
    split
    all_goals decide
  chars bytes := by
    have hall (digest : String) (h : digest.toList.all isAlnum = true) :
        ∀ c ∈ digest.toList, isAlnum c = true := List.all_eq_true.mp h
    rw [noteHost]
    dsimp only
    split
    all_goals exact hall _ (by decide)

/-- The index of a directory with one file. -/
def noteIndex : RagIndex := (ingestPayload noteHost "docs/" none (noteRun [0x78])).index

def noteChunk : RagChunk := ragChunk noteHost "docs/a.md" "text/markdown" (0, 1, "x")

theorem chunks_noteIndex : noteIndex.chunks = [noteChunk] := by decide +kernel

theorem calm_noteChunk : Calm noteChunk where
  line := by decide
  plain := by decide +kernel

theorem mergedChunks_noteIndex : mergedChunks none noteIndex = [noteChunk] := by
  rw [mergedChunks, chunks_noteIndex]
  decide +kernel

theorem digested_noteIndex : ∀ chunk ∈ noteIndex.chunks, Digested chunk := by
  intro chunk hchunk
  rw [chunks_noteIndex, List.mem_singleton] at hchunk
  rw [hchunk]
  exact digests_noteHost.chars _

/-- A new chunk of that index is its one chunk. -/
theorem row_of_isNew {existing : String} {chunk : RagChunk}
    (h : IsNew existing (mergedChunks none noteIndex) chunk) : chunk = noteChunk := by
  obtain ⟨-, before, rest, hsplit, -⟩ := h
  have hmem : chunk ∈ mergedChunks none noteIndex := by
    rw [hsplit]
    simp
  rwa [mergedChunks_noteIndex, List.mem_singleton] at hmem

theorem calm_of_isNew {existing : String} {chunk : RagChunk}
    (h : IsNew existing (mergedChunks none noteIndex) chunk) : Calm chunk :=
  row_of_isNew h ▸ calm_noteChunk

/-- Where there is no document yet, the merge begins one that lists the chunk. -/
theorem fresh_document_keeps : ∃ after,
    mergeVaultPayload none (some noteIndex) none = .ok after ∧ KeepsAll none noteIndex none after := by
  obtain ⟨after, hafter, -, -, hiff⟩ :=
    mergeVault_keeps noteHost digests_noteHost "docs/" [noteRun [0x78]] noteIndex rfl none none
  refine ⟨after, hafter, (hiff fun chunk h => calm_of_isNew h).mpr fun chunk hchunk => .inr ⟨noteChunk, ?_, ?_⟩⟩
  · rw [mergedChunks_noteIndex]
    exact ⟨by decide, [], [], rfl, by simp⟩
  · rw [mergedChunks_noteIndex, List.mem_singleton] at hchunk
    rw [hchunk, Option.getD_none, namesBehind_blank (by decide)]
    exact ⟨mergeColumns, rfl, by decide +kernel, by decide +kernel, by decide⟩

/-- Behind a document that was built, the row is read and dropped: its text is no file. -/
theorem built_document_loses :
    let document := buildMemoryIndexDoc (scanDailyEntries []).1
    ∃ after, mergeVaultPayload none (some noteIndex) (some document) = .ok after ∧ after.rowsAdded = 1 ∧
      noteChunk ∈ mergedChunks none noteIndex ∧ ¬IndexLists after.memoryIndex noteChunk ∧
      ¬KeepsAll none noteIndex (some document) after := by
  intro document
  obtain ⟨after, hafter, hadded, hindex⟩ := mergeVaultPayload_some none noteIndex (some document)
  have hmem : noteChunk ∈ mergedChunks none noteIndex := by
    rw [mergedChunks_noteIndex]
    exact List.mem_singleton_self _
  have hids : existingIds document = [] := by
    rw [existingIds, lines_buildMemoryIndexDoc (scanned_of_mem [])]
    decide
  have hnew : addedChunks document [noteChunk] = [noteChunk] := by
    rw [addedChunks, hids]
    rfl
  rw [Option.getD_some, mergedChunks_noteIndex, hnew, List.length_singleton] at hadded
  have hbefore : ¬IndexLists (some document) noteChunk := by
    have hread := (runtimeReads_iff (scanned_of_mem [])).mpr fun _ hentry => nomatch hentry
    have hparse : parseIndexFile (some document) = [] := List.map_eq_nil_iff.mp hread
    rw [IndexLists, hparse]
    rintro ⟨entry, hentry, -⟩
    cases hentry
  have hnames : namesBehind document = some docColumns :=
    namesBehind_doc (scanned_of_mem []) fun _ hentry => nomatch hentry
  have hloses : ¬IndexLists after.memoryIndex noteChunk := by
    rw [lists_after digested_noteIndex (fun chunk h => calm_of_isNew h) hafter]
    rintro (hlists | ⟨row, hrow, hspeaks⟩)
    · exact hbefore hlists
    · rw [row_of_isNew hrow, Option.getD_some, hnames] at hspeaks
      have hfile := ((rowSpeaksOf_docColumns (digested_noteIndex noteChunk (by simp [chunks_noteIndex]))
        (by decide) (by decide)).mp hspeaks).2.1
      revert hfile
      decide +kernel
  exact ⟨after, hafter, hadded, hmem, hloses, fun hkeeps => hloses (hkeeps.chunks noteChunk hmem)⟩

end Protheus.Rag
