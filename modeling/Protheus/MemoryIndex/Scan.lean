import Protheus.Lib.Words
import Protheus.RustStd

/-!
`scan_daily_entries` and `daily_scan_signature` of `memory_runtime/src/main.rs`.

A daily file is cut at its node markers, and every piece with a `node_id` line is an
entry.  The scan keeps the first piece of a node in a file, in the order of the files and
the nodes.  The signature digests the names, lengths and modification times of the files.
-/

namespace Protheus.MemoryIndex

open RustStd

structure IndexEntry where
  nodeId : String
  uid : String
  fileRel : String
  summary : String
  tags : List String
  deriving DecidableEq

/-- What a file says of itself: its length, when it was modified, in milliseconds, and
its text if it is one. -/
structure FileStat where
  len : ℕ
  modifiedMs : ℕ
  content : Option String

/-- A file of the memory directory, in the order the directory is listed. -/
structure MemoryFile where
  name : String
  stat : Option FileStat

def isDateMemoryFile (v : String) : Bool :=
  v.toList.length == 13 && v.toList.zipIdx.all fun (c, idx) =>
    if idx = 4 ∨ idx = 7 then c == '-'
    else if idx = 10 then c == '.'
    else if idx = 11 then c == 'm'
    else if idx = 12 then c == 'd'
    else c.isDigit

/-! ## Signature -/

/-- A row of the signature. -/
def stamp (file : MemoryFile) : Option String :=
  if isDateMemoryFile file.name then
    file.stat.map fun stat =>
      file.name ++ ":" ++ toString stat.len ++ ":" ++ toString stat.modifiedMs
  else none

/-- Names, lengths and modification times of the daily files. -/
def stamps (files : List MemoryFile) : List String := files.filterMap stamp

/-- `rows.join("|")`. -/
def joinRows (rows : List String) : String :=
  String.ofList (['|'].intercalate (rows.map String.toList))

def dailyScanSignature (sha256Hex : String → String) (files : List MemoryFile) : String :=
  let rows := stamps files
  if rows.isEmpty then "" else sha256Hex (joinRows (rows.insertionSort (· ≤ ·)))

/-! ## Pieces of a file -/

/-- `str::split` at a marker; `skip` counts what is left of a marker. -/
def splitMarker (marker : List Char) : List Char → ℕ → List Char → List String
  | [], _, acc => [String.ofList acc.reverse]
  | _ :: rest, skip + 1, acc => splitMarker marker rest skip acc
  | c :: rest, 0, acc =>
    if marker.isPrefixOf (c :: rest) then
      String.ofList acc.reverse :: splitMarker marker rest (marker.length - 1) []
    else splitMarker marker rest 0 (c :: acc)

/-- The pieces of a file. -/
def nodeChunks (content : String) : List String :=
  splitMarker "<!-- NODE -->".toList content.toList 0 []

/-- `str::lines`. -/
def lines (text : String) : List String :=
  let rows := text.toList.splitOn '\n'
  let rows := if rows.getLast? = some [] then rows.dropLast else rows
  rows.map fun row => String.ofList (if row.getLast? = some '\r' then row.dropLast else row)

def stripTicks (s : String) : String := trim (String.ofList (s.toList.filter (· ≠ '`')))

/-- A text without ticks that is not blank and has only such characters, or nothing. -/
def normalizeWord (ok : Char → Bool) (v : String) : String :=
  let raw := stripTicks v
  if raw = "" then "" else if raw.toList.all ok then raw else ""

/-- `char::is_ascii_alphanumeric`. -/
def isAlnum (c : Char) : Bool := c.isDigit || ('a' ≤ c && c ≤ 'z') || ('A' ≤ c && c ≤ 'Z')

def normalizeNodeId : String → String :=
  normalizeWord fun c => isAlnum c || c == '.' || c == '_' || c == '-'

def normalizeUid : String → String := normalizeWord isAlnum

/-- `char::to_lowercase` as far as it leads to ASCII: the Kelvin sign and the dotted
capital I have ASCII letters in theirs. -/
def lowerChar (c : Char) : List Char :=
  if c = '\u212A' then ['k'] else if c = '\u0130' then ['i', '\u0307'] else [c.toLower]

def isTagChar (c : Char) : Bool := ('a' ≤ c && c ≤ 'z') || c.isDigit || c == '_' || c == '-'

def normalizeTag (v : String) : String :=
  String.ofList ((((stripTicks v).toList.flatMap lowerChar).dropWhile (· == '#')).filter isTagChar)

/-- `BTreeSet` of texts, as the list it gives: in order and each once. -/
def orderedSet (values : List String) : List String := (values.insertionSort (· ≤ ·)).dedup

def parseTagsLine (raw : String) : List String :=
  let body := (trim raw).toList
  let body :=
    if body.head? = some '[' ∧ body.getLast? = some ']' ∧ 2 ≤ body.length then body.tail.dropLast
    else body
  let body := body.map fun c =>
    if c = '[' ∨ c = ']' ∨ c = '"' ∨ c = '\'' ∨ c = ',' then ' ' else c
  orderedSet (((Words.words isWhitespace body).map fun token =>
    normalizeTag (String.ofList token)).filter (· ≠ ""))

def sanitizeTableCell (v : String) : String :=
  trim (String.ofList (v.toList.map fun c =>
    if c = '\n' ∨ c = '\r' then ' ' else if c = '|' then '/' else c))

/-- The first line of a piece with a label that says something. -/
def labelled (label : String) (normalize : String → String) (chunk : String) : Option String :=
  (lines chunk).findSome? fun line =>
    (stripPrefix (trim line) label).bind fun rest =>
      if normalize rest = "" then none else some (normalize rest)

def nodeIdFromChunk (chunk : String) : String :=
  (labelled "node_id:" normalizeNodeId chunk).getD ""

def extractUidFromChunk (chunk : String) : String := (labelled "uid:" normalizeUid chunk).getD ""

def extractSummaryFromChunk (chunk nodeId : String) : String :=
  (labelled "# " sanitizeTableCell chunk).getD (sanitizeTableCell nodeId)

def extractTagsFromChunk (chunk : String) : List String :=
  ((lines chunk).findSome? fun line =>
    (stripPrefix (trim line) "tags:").map parseTagsLine).getD []

/-! ## The scan -/

/-- The key of a node in a file. -/
def seenKey (entry : IndexEntry) : String := entry.nodeId ++ "@" ++ entry.fileRel

def chunkEntry (fileRel chunk : String) : IndexEntry :=
  let nodeId := nodeIdFromChunk chunk
  { nodeId, uid := extractUidFromChunk chunk, fileRel
    summary := extractSummaryFromChunk chunk nodeId, tags := extractTagsFromChunk chunk }

/-- One turn of the inner loop, over the keys seen and the entries. -/
def scanChunk (fileRel : String) (acc : List String × List IndexEntry) (chunk : String) :
    List String × List IndexEntry :=
  let entry := chunkEntry fileRel chunk
  if entry.nodeId = "" then acc
  else if acc.1.contains (seenKey entry) then acc
  else (acc.1 ++ [seenKey entry], acc.2 ++ [entry])

/-- One turn of the outer loop. -/
def scanFile (acc : List String × List IndexEntry) (file : MemoryFile) :
    List String × List IndexEntry :=
  match file.stat.bind (·.content) with
  | none => acc
  | some content => (nodeChunks content).foldl (scanChunk ("client/memory/" ++ file.name)) acc

def entryLe (a b : IndexEntry) : Prop :=
  a.fileRel < b.fileRel ∨ (a.fileRel = b.fileRel ∧ a.nodeId ≤ b.nodeId)

instance : DecidableRel entryLe := fun _ _ => inferInstanceAs (Decidable (_ ∨ _))

def dailyFiles (files : List MemoryFile) : List MemoryFile :=
  (files.filter fun file => isDateMemoryFile file.name).insertionSort fun a b => a.name ≤ b.name

def scanDailyEntries (files : List MemoryFile) : List IndexEntry × ℕ :=
  ((((dailyFiles files).foldl scanFile ([], [])).2).insertionSort entryLe, (dailyFiles files).length)

/-! ## Entries of a scan -/

section Scan

theorem foldl_scanChunk {fileRel : String} {acc : List String × List IndexEntry}
    {Holds : IndexEntry → Prop} (hchunk : ∀ chunk, Holds (chunkEntry fileRel chunk))
    (hseen : acc.1 = acc.2.map seenKey) (hnodup : acc.1.Nodup) (hacc : ∀ entry ∈ acc.2, Holds entry)
    (chunks : List String) :
    (chunks.foldl (scanChunk fileRel) acc).1 = (chunks.foldl (scanChunk fileRel) acc).2.map seenKey ∧
      (chunks.foldl (scanChunk fileRel) acc).1.Nodup ∧
      ∀ entry ∈ (chunks.foldl (scanChunk fileRel) acc).2, Holds entry := by
  induction chunks generalizing acc with
  | nil => exact ⟨hseen, hnodup, hacc⟩
  | cons chunk chunks ih =>
    rw [List.foldl_cons]
    by_cases hid : (chunkEntry fileRel chunk).nodeId = ""
    · rw [scanChunk, if_pos hid]
      exact ih hseen hnodup hacc
    · by_cases hmem : acc.1.contains (seenKey (chunkEntry fileRel chunk)) = true
      · rw [scanChunk, if_neg hid, if_pos hmem]
        exact ih hseen hnodup hacc
      · rw [scanChunk, if_neg hid, if_neg hmem]
        refine ih ?_ ?_ ?_
        · rw [List.map_append, hseen]
          rfl
        · rw [List.nodup_append]
          refine ⟨hnodup, by simp, fun a ha b hb => ?_⟩
          rw [List.mem_singleton] at hb
          rintro rfl
          exact hmem (List.contains_iff_mem.mpr (hb ▸ ha))
        · intro entry hentry
          obtain hentry | hentry := List.mem_append.mp hentry
          · exact hacc entry hentry
          · rw [List.mem_singleton.mp hentry]
            exact hchunk chunk

theorem foldl_scanFile {Holds : IndexEntry → Prop}
    (hchunk : ∀ fileRel chunk, Holds (chunkEntry fileRel chunk)) (files : List MemoryFile)
    (acc : List String × List IndexEntry) (hseen : acc.1 = acc.2.map seenKey) (hnodup : acc.1.Nodup)
    (hacc : ∀ entry ∈ acc.2, Holds entry) :
    (files.foldl scanFile acc).1 = (files.foldl scanFile acc).2.map seenKey ∧
      (files.foldl scanFile acc).1.Nodup ∧ ∀ entry ∈ (files.foldl scanFile acc).2, Holds entry := by
  induction files generalizing acc with
  | nil => exact ⟨hseen, hnodup, hacc⟩
  | cons file files ih =>
    rw [List.foldl_cons]
    cases hcontent : file.stat.bind (·.content) with
    | none =>
      rw [scanFile, hcontent]
      exact ih acc hseen hnodup hacc
    | some content =>
      rw [scanFile, hcontent]
      obtain ⟨hseen', hnodup', hacc'⟩ :=
        foldl_scanChunk (hchunk _) hseen hnodup hacc (nodeChunks content)
      exact ih _ hseen' hnodup' hacc'

/-- What every piece's entry satisfies holds of every entry of a scan. -/
theorem forall_mem_scan {Holds : IndexEntry → Prop}
    (hchunk : ∀ fileRel chunk, Holds (chunkEntry fileRel chunk)) (files : List MemoryFile) :
    ∀ entry ∈ (scanDailyEntries files).1, Holds entry := by
  intro entry hentry
  rw [scanDailyEntries, List.mem_insertionSort] at hentry
  exact (foldl_scanFile hchunk _ ([], []) rfl List.nodup_nil (by simp)).2.2 entry hentry

/-- **No node stands in a scan twice under one file.** -/
theorem nodup_scan (files : List MemoryFile) :
    ((scanDailyEntries files).1.map fun entry => (entry.nodeId, entry.fileRel)).Nodup := by
  obtain ⟨hseen, hnodup, -⟩ := @foldl_scanFile (fun _ => True) (fun _ _ => trivial)
    (dailyFiles files) ([], []) rfl List.nodup_nil (by simp)
  rw [hseen] at hnodup
  have hperm := (List.perm_insertionSort entryLe ((dailyFiles files).foldl scanFile ([], [])).2).map
    fun entry => (entry.nodeId, entry.fileRel)
  refine hperm.nodup_iff.mpr (List.Nodup.of_map (fun pair => pair.1 ++ "@" ++ pair.2) ?_)
  rw [List.map_map]
  exact hnodup

instance : Std.Total entryLe where
  total a b := by
    obtain h | h | h := lt_trichotomy a.fileRel b.fileRel
    · exact .inl (.inl h)
    · obtain hn | hn := le_total a.nodeId b.nodeId
      · exact .inl (.inr ⟨h, hn⟩)
      · exact .inr (.inr ⟨h.symm, hn⟩)
    · exact .inr (.inl h)

instance : IsTrans IndexEntry entryLe where
  trans a b c hab hbc := by
    obtain hab | ⟨hab, hab'⟩ := hab
    · obtain hbc | ⟨hbc, -⟩ := hbc
      · exact .inl (hab.trans hbc)
      · exact .inl (hbc ▸ hab)
    · obtain hbc | ⟨hbc, hbc'⟩ := hbc
      · exact .inl (hab ▸ hbc)
      · exact .inr ⟨hab.trans hbc, hab'.trans hbc'⟩

theorem sorted_scan (files : List MemoryFile) : (scanDailyEntries files).1.Pairwise entryLe :=
  List.pairwise_insertionSort _ _

end Scan

/-! ## Tags -/

/-- Tags as a line of tags leaves them. -/
structure Canonical (tags : List String) : Prop where
  sorted : tags.Pairwise (· ≤ ·)
  nodup : tags.Nodup
  words : ∀ tag ∈ tags, tag ≠ "" ∧ ∀ c ∈ tag.toList, isTagChar c = true

theorem isTagChar_iff {c : Char} : isTagChar c = true ↔
    (97 ≤ c.toNat ∧ c.toNat ≤ 122) ∨ (48 ≤ c.toNat ∧ c.toNat ≤ 57) ∨ c = '_' ∨ c = '-' := by
  have hle (a b : Char) : a ≤ b ↔ a.toNat ≤ b.toNat := Iff.rfl
  simp only [isTagChar, Bool.or_eq_true, Bool.and_eq_true, decide_eq_true_eq, beq_iff_eq,
    Char.isDigit, hle, or_assoc]
  rfl

theorem of_isTagChar {c : Char} (h : isTagChar c = true) :
    isWhitespace c = false ∧ c ≠ '`' ∧ c ≠ '#' ∧ lowerChar c = [c] := by
  have hnat : (97 ≤ c.toNat ∧ c.toNat ≤ 122) ∨ (48 ≤ c.toNat ∧ c.toNat ≤ 57) ∨ c.toNat = 95 ∨
      c.toNat = 45 := by
    obtain h | h | rfl | rfl := isTagChar_iff.mp h
    · exact .inl h
    · exact .inr (.inl h)
    · exact .inr (.inr (.inl rfl))
    · exact .inr (.inr (.inr rfl))
  have hne (d : Char) (hd : d.toNat ≠ c.toNat) : c ≠ d := by
    rintro rfl
    exact hd rfl
  have hlower : c.toLower = c := by
    unfold Char.toLower
    rw [dif_neg]
    rintro ⟨hlo, hhi⟩
    have hlo' : 65 ≤ c.toNat := hlo
    have hhi' : c.toNat ≤ 90 := hhi
    omega
  have hspaces : isWhitespace c = false := by
    simp only [isWhitespace, Bool.or_eq_false_iff, Bool.and_eq_false_iff, decide_eq_false_iff_not,
      beq_eq_false_iff_ne]
    omega
  refine ⟨hspaces, hne _ ?_, hne _ ?_, ?_⟩
  · have : '`'.toNat = 96 := rfl
    omega
  · have : '#'.toNat = 35 := rfl
    omega
  · rw [lowerChar, if_neg, if_neg, hlower]
    · exact hne _ (by have : '\u0130'.toNat = 304 := rfl; omega)
    · exact hne _ (by have : '\u212A'.toNat = 8490 := rfl; omega)

theorem isTagChar_of_mem_normalizeTag {v : String} :
    ∀ c ∈ (normalizeTag v).toList, isTagChar c = true := by
  intro c hc
  rw [normalizeTag, String.toList_ofList] at hc
  exact (List.mem_filter.mp hc).2

theorem normalizeTag_eq_self {tag : String} (h : ∀ c ∈ tag.toList, isTagChar c = true) :
    normalizeTag tag = tag := by
  have hticks : tag.toList.filter (· ≠ '`') = tag.toList :=
    List.filter_eq_self.mpr fun c hc => by simpa using (of_isTagChar (h c hc)).2.1
  have hstrip : stripTicks tag = tag := by
    rw [stripTicks, hticks, String.ofList_toList]
    exact trim_eq_self fun c hc => (of_isTagChar (h c hc)).1
  have hlower : tag.toList.flatMap lowerChar = tag.toList := by
    refine (List.flatMap_congr fun c hc => (of_isTagChar (h c hc)).2.2.2).trans ?_
    simp
  have hhash : tag.toList.dropWhile (· == '#') = tag.toList := by
    cases hlist : tag.toList with
    | nil => rfl
    | cons c rest =>
      rw [List.dropWhile_cons_of_neg]
      simpa using (of_isTagChar (h c (by simp [hlist]))).2.2.1
  rw [normalizeTag, hstrip, hlower, hhash, List.filter_eq_self.mpr h, String.ofList_toList]

theorem pairwise_orderedSet (values : List String) : (orderedSet values).Pairwise (· ≤ ·) :=
  (List.pairwise_insertionSort (· ≤ ·) values).sublist (List.dedup_sublist _)

theorem canonical_parseTagsLine (raw : String) : Canonical (parseTagsLine raw) where
  sorted := pairwise_orderedSet _
  nodup := List.nodup_dedup _
  words tag htag := by
    unfold parseTagsLine orderedSet at htag
    rw [List.mem_dedup, List.mem_insertionSort] at htag
    obtain ⟨hmem, hne⟩ := List.mem_filter.mp htag
    obtain ⟨token, -, rfl⟩ := List.mem_map.mp hmem
    exact ⟨by simpa using hne, isTagChar_of_mem_normalizeTag⟩

theorem canonical_extractTagsFromChunk (chunk : String) : Canonical (extractTagsFromChunk chunk) := by
  rw [extractTagsFromChunk]
  generalize htags : (lines chunk).findSome? (fun line =>
    (stripPrefix (trim line) "tags:").map parseTagsLine) = found
  cases found with
  | none => exact ⟨.nil, List.nodup_nil, by simp⟩
  | some tags =>
    obtain ⟨line, -, hline⟩ := List.exists_of_findSome?_eq_some htags
    obtain ⟨rest, -, hrest⟩ := Option.map_eq_some_iff.mp hline
    rw [Option.getD_some, ← hrest]
    exact canonical_parseTagsLine rest

/-- **The tags of every scanned entry are canonical.** -/
theorem canonical_of_mem_scan (files : List MemoryFile) :
    ∀ entry ∈ (scanDailyEntries files).1, Canonical entry.tags :=
  @forall_mem_scan (fun entry => Canonical entry.tags)
    (fun _ chunk => canonical_extractTagsFromChunk chunk) files

theorem Canonical.orderedSet_eq {tags : List String} (h : Canonical tags) : orderedSet tags = tags := by
  rw [orderedSet, h.sorted.insertionSort_eq, h.nodup.dedup]

end Protheus.MemoryIndex
