import Protheus.MemoryIndex.IndexFile

/-!
`build_memory_index_doc` of `memory_runtime/src/main.rs`, read back.

A row of the document has a cell for each field of an entry, and no cell holds a bar or a
line break, so the reader of the memory runtime finds the fields again unless it takes the
row for a row of names (`runtimeReads_iff`).  The reader of `wave1.rs` leaves the ticks
around a file where they are and takes no such text for a file (`roundTrips_iff`).
-/

namespace Protheus.MemoryIndex

open RustStd LaneUtils

/-- `tags.join(" ")` of the marked tags. -/
def markedTags (tags : List String) : String :=
  String.ofList ([' '].intercalate (tags.map fun tag => '#' :: tag.toList))

def docRow (entry : IndexEntry) : String :=
  "| `" ++ sanitizeTableCell entry.nodeId ++ "` | `" ++ sanitizeTableCell entry.uid ++ "` | " ++
    sanitizeTableCell (markedTags entry.tags) ++ " | `" ++ sanitizeTableCell entry.fileRel ++ "` | " ++
    sanitizeTableCell entry.summary ++ " |"

/-- The lines before the rows. -/
def docHead : List String := [
  "# MEMORY_INDEX.md",
  "# Generated by protheus-memory-core build-index",
  "",
  "| node_id | uid | tags | file | summary |",
  "|---|---|---|---|---|"]

def docLines (entries : List IndexEntry) : List String :=
  docHead ++ if entries.isEmpty then ["| | | | | |"] else entries.map docRow

def buildMemoryIndexDoc (entries : List IndexEntry) : String :=
  String.ofList (['\n'].intercalate ((docLines entries).map String.toList))

/-! ## The property -/

/-- A text without its backticks. -/
def withoutTicks (s : String) : String := String.ofList (s.toList.filter (· ≠ '`'))

/-- An entry with the backticks of its summary removed. -/
def IndexEntry.unticked (entry : IndexEntry) : IndexEntry :=
  { entry with summary := withoutTicks entry.summary }

/-- The memory runtime reads the entries of the document back. -/
def RuntimeReads (entries : List IndexEntry) : Prop :=
  (parseIndexFile (some (buildMemoryIndexDoc entries))).map IndexEntry.unticked =
    entries.map IndexEntry.unticked

/-- The first wave reads their nodes and files back. -/
def WaveReads (entries : List IndexEntry) : Prop :=
  ((Wave1.parseIndexFile (some (buildMemoryIndexDoc entries))).map fun entry =>
    (entry.nodeId, entry.fileRel)) = entries.map fun entry => (entry.nodeId, entry.fileRel)

def readCells (entry : IndexEntry) : List String :=
  [entry.nodeId, entry.uid, markedTags entry.tags, entry.fileRel, stripTicks entry.summary]

/-- The row of an entry is taken for a row of names. -/
def NamesColumns (entry : IndexEntry) : Prop :=
  "node_id" ∈ (readCells entry).map normalizeHeaderCell ∧ "file" ∈ (readCells entry).map normalizeHeaderCell

/-! ## Entries of a scan -/

/-- The characters of identifiers, files and marked tags. -/
def isPlain (c : Char) : Bool := isAlnum c || ['.', '_', '-', '/', '#'].contains c

theorem isPlain_iff {c : Char} : isPlain c = true ↔
    (48 ≤ c.toNat ∧ c.toNat ≤ 57) ∨ (97 ≤ c.toNat ∧ c.toNat ≤ 122) ∨ (65 ≤ c.toNat ∧ c.toNat ≤ 90) ∨
      c ∈ ['.', '_', '-', '/', '#'] := by
  have hle (a b : Char) : a ≤ b ↔ a.toNat ≤ b.toNat := Iff.rfl
  simp only [isPlain, isAlnum, Bool.or_eq_true, Bool.and_eq_true, decide_eq_true_eq,
    List.contains_iff_mem, Char.isDigit, hle, or_assoc]
  rfl

/-- A plain character is no whitespace and none of those that the readers act on. -/
theorem of_isPlain {c : Char} (h : isPlain c = true) :
    isWhitespace c = false ∧ c ∉ ['\n', '\r', '|', '`', '\\', '"', '\'', ','] := by
  have hbanned : ∀ d ∈ ['\n', '\r', '|', '`', '\\', '"', '\'', ','], isPlain d = false := by
    intro d hd
    simp only [List.mem_cons, List.not_mem_nil, or_false] at hd
    rcases hd with rfl | rfl | rfl | rfl | rfl | rfl | rfl | rfl
    all_goals rfl
  have hnat : 33 ≤ c.toNat ∧ c.toNat ≤ 122 := by
    rcases isPlain_iff.mp h with h | h | h | h
    · omega
    · omega
    · omega
    · simp only [List.mem_cons, List.not_mem_nil, or_false] at h
      rcases h with rfl | rfl | rfl | rfl | rfl
      all_goals decide
  refine ⟨?_, fun hmem => ?_⟩
  · simp only [isWhitespace, Bool.or_eq_false_iff, Bool.and_eq_false_iff, decide_eq_false_iff_not,
      beq_eq_false_iff_ne]
    omega
  · rw [hbanned c hmem] at h
    cases h

/-- A text of plain characters. -/
def Plain (s : String) : Prop := ∀ c ∈ s.toList, isPlain c = true

theorem Plain.trim_eq {s : String} (h : Plain s) : trim s = s :=
  trim_eq_self fun c hc => (of_isPlain (h c hc)).1

theorem Plain.notMem {s : String} (h : Plain s) {c : Char}
    (hc : c ∈ ['\n', '\r', '|', '`', '\\', '"', '\'', ',']) : c ∉ s.toList :=
  fun hmem => (of_isPlain (h c hmem)).2 hc

theorem plain_of_all {ok : Char → Bool} (hok : ∀ c, ok c = true → isPlain c = true) (v : String) :
    Plain (normalizeWord ok v) := by
  intro c hc
  unfold normalizeWord at hc
  dsimp only at hc
  split at hc
  · simp at hc
  · split at hc
    · rename_i hall
      exact hok c (List.all_eq_true.mp hall c hc)
    · simp at hc

/-- A cell as it is written. -/
structure Sanitized (s : String) : Prop where
  free : ∀ c ∈ s.toList, c ≠ '\n' ∧ c ≠ '\r' ∧ c ≠ '|'
  trimmed : trim s = s

theorem sanitized_sanitizeTableCell (v : String) : Sanitized (sanitizeTableCell v) where
  free c hc := by
    have hmem := (Rag.trim_within _).subset hc
    rw [String.toList_ofList] at hmem
    obtain ⟨d, -, rfl⟩ := List.mem_map.mp hmem
    split
    · decide
    · rename_i hline
      split
      · decide
      · rename_i hbar
        exact ⟨fun h => hline (.inl h), fun h => hline (.inr h), hbar⟩
  trimmed := trim_trim _

theorem Sanitized.eq_self {s : String} (h : Sanitized s) : sanitizeTableCell s = s := by
  have hmap : (s.toList.map fun c => if c = '\n' ∨ c = '\r' then ' ' else if c = '|' then '/' else c) =
      s.toList := by
    refine (List.map_congr_left fun c hc => ?_).trans (List.map_id _)
    obtain ⟨hline, hreturn, hbar⟩ := h.free c hc
    rw [if_neg (by simp [hline, hreturn]), if_neg hbar]
    rfl
  rw [sanitizeTableCell, hmap, String.ofList_toList, h.trimmed]

theorem Plain.sanitized {s : String} (h : Plain s) : Sanitized s where
  free c hc := by
    have hbanned := (of_isPlain (h c hc)).2
    simp only [List.mem_cons, not_or] at hbanned
    exact ⟨hbanned.1, hbanned.2.1, hbanned.2.2.1⟩
  trimmed := h.trim_eq

structure Scanned (entry : IndexEntry) : Prop where
  nodeId : entry.nodeId ≠ "" ∧ normalizeNodeId entry.nodeId = entry.nodeId ∧ Plain entry.nodeId
  uid : normalizeUid entry.uid = entry.uid ∧ Plain entry.uid
  fileRel : ∃ name, isDateMemoryFile name = true ∧ entry.fileRel = "client/memory/" ++ name
  summary : Sanitized entry.summary
  tags : Canonical entry.tags

/-- A property of the entries that the loop adds holds of every entry of a scan. -/
theorem forall_mem_scan_daily {Holds : IndexEntry → Prop}
    (hchunk : ∀ name chunk, isDateMemoryFile name = true →
      (chunkEntry ("client/memory/" ++ name) chunk).nodeId ≠ "" →
        Holds (chunkEntry ("client/memory/" ++ name) chunk))
    (files : List MemoryFile) : ∀ entry ∈ (scanDailyEntries files).1, Holds entry := by
  have hscanChunk (name : String) (hname : isDateMemoryFile name = true) (chunks : List String) :
      ∀ acc : List String × List IndexEntry, (∀ entry ∈ acc.2, Holds entry) →
        ∀ entry ∈ (chunks.foldl (scanChunk ("client/memory/" ++ name)) acc).2, Holds entry := by
    induction chunks with
    | nil => exact fun _ hacc => hacc
    | cons chunk chunks ih =>
      intro acc hacc
      rw [List.foldl_cons]
      refine ih _ ?_
      rw [scanChunk]
      split
      · exact hacc
      · rename_i hid
        split
        · exact hacc
        · intro entry hentry
          rcases List.mem_append.mp hentry with hentry | hentry
          · exact hacc entry hentry
          · rw [List.mem_singleton.mp hentry]
            exact hchunk name chunk hname hid
  have hscanFile (daily : List MemoryFile) (hdaily : ∀ file ∈ daily, isDateMemoryFile file.name = true) :
      ∀ acc : List String × List IndexEntry, (∀ entry ∈ acc.2, Holds entry) →
        ∀ entry ∈ (daily.foldl scanFile acc).2, Holds entry := by
    induction daily with
    | nil => exact fun _ hacc => hacc
    | cons file daily ih =>
      intro acc hacc
      rw [List.foldl_cons]
      refine ih (fun file hfile => hdaily file (List.mem_cons_of_mem _ hfile)) _ ?_
      rw [scanFile]
      split
      · exact hacc
      · exact hscanChunk file.name (hdaily file List.mem_cons_self) _ acc hacc
  intro entry hentry
  rw [scanDailyEntries, List.mem_insertionSort] at hentry
  refine hscanFile (dailyFiles files) (fun file hfile => ?_) ([], []) (by simp) entry hentry
  rw [dailyFiles, List.mem_insertionSort] at hfile
  exact (List.mem_filter.mp hfile).2

section Entries

variable {ok : Char → Bool}

/-- A word without ticks is itself. -/
theorem stripTicks_of_plain {s : String} (h : Plain s) : stripTicks s = s := by
  have hticks : s.toList.filter (· ≠ '`') = s.toList :=
    List.filter_eq_self.mpr fun c hc => by
      simpa using fun heq : c = '`' => h.notMem (by simp) (heq ▸ hc)
  rw [stripTicks, hticks, String.ofList_toList, h.trim_eq]

theorem normalizeWord_idem (hok : ∀ c, ok c = true → isPlain c = true) (v : String) :
    normalizeWord ok (normalizeWord ok v) = normalizeWord ok v := by
  have hplain := plain_of_all hok v
  have hall : normalizeWord ok v ≠ "" → (normalizeWord ok v).toList.all ok = true := by
    intro hne
    unfold normalizeWord at hne ⊢
    dsimp only at hne ⊢
    split at hne
    · exact absurd rfl hne
    · rename_i hraw
      split at hne
      · rename_i hall
        rw [if_neg hraw, if_pos hall]
        exact hall
      · exact absurd rfl hne
  conv_lhs => rw [normalizeWord, stripTicks_of_plain hplain]
  split
  · rename_i hempty
    exact hempty.symm
  · rename_i hne
    rw [if_pos (hall hne)]

theorem isPlain_of_isAlnum {c : Char} (h : isAlnum c = true) : isPlain c = true := by
  rw [isPlain, h, Bool.true_or]

theorem plain_nodeChar (c : Char) (h : (isAlnum c || c == '.' || c == '_' || c == '-') = true) :
    isPlain c = true := by
  simp only [Bool.or_eq_true, beq_iff_eq] at h
  rcases h with ((h | rfl) | rfl) | rfl
  · exact isPlain_of_isAlnum h
  all_goals rfl

/-- A line with a label says something normalized. -/
theorem labelled_getD {label chunk : String} {normalize : String → String} {Holds : String → Prop}
    (hempty : Holds "") (h : ∀ v, Holds (normalize v)) : Holds ((labelled label normalize chunk).getD "") := by
  cases hfound : labelled label normalize chunk with
  | none => exact hempty
  | some found =>
    obtain ⟨line, -, hline⟩ := List.exists_of_findSome?_eq_some hfound
    obtain ⟨rest, -, hrest⟩ := Option.bind_eq_some_iff.mp hline
    split at hrest
    · cases hrest
    · rw [Option.getD_some, ← Option.some.inj hrest]
      exact h rest

theorem scanned_chunkEntry {name chunk : String} (hname : isDateMemoryFile name = true)
    (hid : (chunkEntry ("client/memory/" ++ name) chunk).nodeId ≠ "") :
    Scanned (chunkEntry ("client/memory/" ++ name) chunk) where
  nodeId := by
    refine ⟨hid, ?_⟩
    change normalizeNodeId (nodeIdFromChunk chunk) = nodeIdFromChunk chunk ∧ Plain (nodeIdFromChunk chunk)
    exact @labelled_getD _ _ _ (fun id => normalizeNodeId id = id ∧ Plain id) ⟨rfl, by simp [Plain]⟩
      fun v => ⟨normalizeWord_idem plain_nodeChar v, plain_of_all plain_nodeChar v⟩
  uid := by
    change normalizeUid (extractUidFromChunk chunk) = extractUidFromChunk chunk ∧
      Plain (extractUidFromChunk chunk)
    exact @labelled_getD _ _ _ (fun uid => normalizeUid uid = uid ∧ Plain uid) ⟨rfl, by simp [Plain]⟩
      fun v => ⟨normalizeWord_idem (fun _ => isPlain_of_isAlnum) v,
        plain_of_all (fun _ => isPlain_of_isAlnum) v⟩
  fileRel := ⟨name, hname, rfl⟩
  summary := by
    change Sanitized (extractSummaryFromChunk chunk (nodeIdFromChunk chunk))
    rw [extractSummaryFromChunk]
    cases hfound : labelled "# " sanitizeTableCell chunk with
    | none => exact sanitized_sanitizeTableCell _
    | some found =>
      have htold := @labelled_getD "# " chunk sanitizeTableCell Sanitized
        ⟨by simp, rfl⟩ sanitized_sanitizeTableCell
      rw [hfound, Option.getD_some] at htold
      rw [Option.getD_some]
      exact htold
  tags := by
    rw [chunkEntry]
    exact canonical_extractTagsFromChunk chunk

theorem scanned_of_mem (files : List MemoryFile) : ∀ entry ∈ (scanDailyEntries files).1, Scanned entry :=
  forall_mem_scan_daily (fun _ _ hname hid => scanned_chunkEntry hname hid) files

theorem plain_of_isDateMemoryFile {name : String} (h : isDateMemoryFile name = true) : Plain name := by
  intro c hc
  rw [isDateMemoryFile, Bool.and_eq_true, List.all_eq_true] at h
  obtain ⟨i, hi, hget⟩ := List.mem_iff_getElem.mp hc
  have hchar := h.2 (c, i) (List.mem_zipIdx_iff_getElem?.mpr (List.getElem?_eq_some_iff.mpr ⟨hi, hget⟩))
  dsimp only at hchar
  split at hchar
  · rw [beq_iff_eq.mp hchar]
    rfl
  · split at hchar
    · rw [beq_iff_eq.mp hchar]
      rfl
    · split at hchar
      · rw [beq_iff_eq.mp hchar]
        rfl
      · split at hchar
        · rw [beq_iff_eq.mp hchar]
          rfl
        · exact isPlain_of_isAlnum (by rw [isAlnum, hchar, Bool.true_or, Bool.true_or])

end Entries

section Cells

variable {entry : IndexEntry}

theorem isPlain_of_isTagChar {c : Char} (h : isTagChar c = true) : isPlain c = true := by
  rw [isPlain_iff]
  rcases isTagChar_iff.mp h with h | h | rfl | rfl
  · exact .inr (.inl h)
  · exact .inl h
  all_goals simp

theorem words_markedTags {tags : List String} (h : Canonical tags) :
    Words.words isWhitespace (markedTags tags).toList = tags.map fun tag => '#' :: tag.toList := by
  rw [markedTags, String.toList_ofList]
  refine Words.words_intercalate rfl fun word hword => ?_
  obtain ⟨tag, htag, rfl⟩ := List.mem_map.mp hword
  refine ⟨List.cons_ne_nil _ _, fun c hc => ?_⟩
  rcases List.mem_cons.mp hc with rfl | hc
  · rfl
  · exact (of_isTagChar ((h.words tag htag).2 c hc)).1

theorem char_markedTags {tags : List String} (h : Canonical tags) :
    ∀ c ∈ (markedTags tags).toList, c = ' ' ∨ isPlain c = true := by
  intro c hc
  rw [markedTags, String.toList_ofList] at hc
  rcases Words.mem_intercalate hc with rfl | ⟨word, hword, hmem⟩
  · exact .inl rfl
  · obtain ⟨tag, htag, rfl⟩ := List.mem_map.mp hword
    rcases List.mem_cons.mp hmem with rfl | hmem
    · exact .inr rfl
    · exact .inr (isPlain_of_isTagChar ((h.words tag htag).2 c hmem))

theorem sanitized_markedTags {tags : List String} (h : Canonical tags) : Sanitized (markedTags tags) where
  free c hc := by
    rcases char_markedTags h c hc with rfl | hplain
    · decide
    · have hbanned := (of_isPlain hplain).2
      simp only [List.mem_cons, not_or] at hbanned
      exact ⟨hbanned.1, hbanned.2.1, hbanned.2.2.1⟩
  trimmed := by
    -- a tag cell is its own words, joined
    have hjoined : Words.joined isWhitespace ' ' (markedTags tags).toList = (markedTags tags).toList := by
      rw [Words.joined, words_markedTags h, markedTags, String.toList_ofList]
    refine trim_eq_self_of ?_ ?_
    · rw [← hjoined]
      exact Words.head_joined _
    · rw [← hjoined]
      exact Words.getLast_joined _

theorem stripTicks_markedTags {tags : List String} (h : Canonical tags) :
    stripTicks (markedTags tags) = markedTags tags := by
  have hticks : (markedTags tags).toList.filter (· ≠ '`') = (markedTags tags).toList := by
    refine List.filter_eq_self.mpr fun c hc => ?_
    rcases char_markedTags h c hc with rfl | hplain
    · decide
    · simpa using fun heq : c = '`' => (of_isPlain hplain).2 (by simp [heq])
  rw [stripTicks, hticks, String.ofList_toList, (sanitized_markedTags h).trimmed]

/-- **The tags of a cell** are read back. -/
theorem parseTagCell_markedTags {tags : List String} (h : Canonical tags) :
    parseTagCell (markedTags tags) = tags := by
  have hcommas : ((markedTags tags).toList.map fun c => if c = ',' then ' ' else c) =
      (markedTags tags).toList := by
    refine (List.map_congr_left fun c hc => ?_).trans (List.map_id _)
    refine if_neg ?_
    rintro rfl
    rcases char_markedTags h ',' hc with heq | hplain
    · cases heq
    · exact (of_isPlain hplain).2 (by simp)
  have hmark (tag : String) (htag : tag ∈ tags) : normalizeTag (String.ofList ('#' :: tag.toList)) = tag := by
    have htrim : stripTicks (String.ofList ('#' :: tag.toList)) = String.ofList ('#' :: tag.toList) := by
      refine stripTicks_of_plain fun c hc => ?_
      rw [String.toList_ofList] at hc
      rcases List.mem_cons.mp hc with rfl | hc
      · rfl
      · exact isPlain_of_isTagChar ((h.words tag htag).2 c hc)
    have hself := normalizeTag_eq_self (h.words tag htag).2
    have hplain : stripTicks tag = tag :=
      stripTicks_of_plain fun c hc => isPlain_of_isTagChar ((h.words tag htag).2 c hc)
    rw [normalizeTag, hplain] at hself
    rw [normalizeTag, htrim, String.toList_ofList, List.flatMap_cons]
    exact hself
  rw [parseTagCell, tagSet, hcommas, words_markedTags h, List.map_map]
  have hmap : tags.map ((fun token => normalizeTag (String.ofList token)) ∘ fun tag => '#' :: tag.toList) =
      tags := (List.map_congr_left hmark).trans (List.map_id _)
  have hfilter : tags.filter (· ≠ "") = tags :=
    List.filter_eq_self.mpr fun tag htag => by simpa using (h.words tag htag).1
  rw [hmap, hfilter, h.orderedSet_eq]

theorem Plain.append {a b : String} (ha : Plain a) (hb : Plain b) : Plain (a ++ b) := by
  intro c hc
  rw [String.toList_append, List.mem_append] at hc
  exact hc.elim (ha c) (hb c)

theorem plain_memory : Plain "client/memory/" := by
  intro c hc
  have hall : "client/memory/".toList.all isPlain = true := rfl
  exact List.all_eq_true.mp hall c hc

theorem Scanned.plain_fileRel (h : Scanned entry) : Plain entry.fileRel := by
  obtain ⟨name, hname, hfile⟩ := h.fileRel
  rw [hfile]
  exact plain_memory.append (plain_of_isDateMemoryFile hname)

/-- A text between ticks. -/
def ticked (s : String) : String := "`" ++ s ++ "`"

theorem toList_ticked (s : String) : (ticked s).toList = '`' :: (s.toList ++ ['`']) := by
  simp [ticked]

theorem cleanCell_ticked {s : String} (h : Plain s) : cleanCell (ticked s) = s := by
  have htrim : trim (ticked s) = ticked s := by
    refine trim_eq_self_of (fun c hc => ?_) fun c hc => ?_
    · rw [toList_ticked] at hc
      rw [← Option.some.inj hc]
      rfl
    · rw [toList_ticked, ← List.cons_append, List.getLast?_concat] at hc
      rw [← Option.some.inj hc]
      rfl
  have hself := stripTicks_of_plain h
  rw [stripTicks] at hself
  rw [cleanCell, htrim, stripTicks, toList_ticked, List.filter_cons_of_neg (by simp), List.filter_append,
    List.filter_cons_of_neg (by simp), List.filter_nil, List.append_nil]
  exact hself

theorem filter_stripTicks (s : String) : (stripTicks s).toList.filter (· ≠ '`') = (stripTicks s).toList := by
  refine List.filter_eq_self.mpr fun c hc => ?_
  have hmem := (Rag.trim_within _).subset hc
  rw [String.toList_ofList] at hmem
  exact (List.mem_filter.mp hmem).2

theorem cleanCell_stripTicks (s : String) : cleanCell (stripTicks s) = stripTicks s := by
  have htrim : trim (stripTicks s) = stripTicks s := trim_trim _
  rw [cleanCell, htrim]
  conv_lhs => rw [stripTicks, filter_stripTicks, String.ofList_toList, htrim]

theorem cleanCell_of_plain {s : String} (h : Plain s) : cleanCell s = s := by
  rw [cleanCell, h.trim_eq, stripTicks_of_plain h]

def writtenCells (entry : IndexEntry) : List String :=
  [ticked entry.nodeId, ticked entry.uid, markedTags entry.tags, ticked entry.fileRel, entry.summary]

theorem Scanned.docRow_eq (h : Scanned entry) : docRow entry = rowText (writtenCells entry) := by
  rw [docRow, h.nodeId.2.2.sanitized.eq_self, h.uid.2.sanitized.eq_self, (sanitized_markedTags h.tags).eq_self,
    h.plain_fileRel.sanitized.eq_self, h.summary.eq_self]
  refine String.toList_injective ?_
  simp [rowText, writtenCells, padded, toList_ticked]

/-- What a cell is free of. -/
theorem Sanitized.notMem {s : String} (h : Sanitized s) : '|' ∉ s.toList ∧ '\n' ∉ s.toList :=
  ⟨fun hmem => (h.free '|' hmem).2.2 rfl, fun hmem => (h.free '\n' hmem).1 rfl⟩

theorem notMem_ticked {s : String} (h : Plain s) : '|' ∉ (ticked s).toList ∧ '\n' ∉ (ticked s).toList := by
  obtain ⟨hbar, hline⟩ := h.sanitized.notMem
  rw [toList_ticked]
  constructor
  · simpa using hbar
  · simpa using hline

theorem Scanned.writtenCells_free (h : Scanned entry) :
    ∀ cell ∈ writtenCells entry, '|' ∉ cell.toList ∧ '\n' ∉ cell.toList := by
  intro cell hcell
  simp only [writtenCells, List.mem_cons, List.not_mem_nil, or_false] at hcell
  rcases hcell with rfl | rfl | rfl | rfl | rfl
  · exact notMem_ticked h.nodeId.2.2
  · exact notMem_ticked h.uid.2
  · exact (sanitized_markedTags h.tags).notMem
  · exact notMem_ticked h.plain_fileRel
  · exact h.summary.notMem


/-- **The cells of a row are read back.** -/
theorem Scanned.parseTableCells_docRow (h : Scanned entry) :
    parseTableCells (docRow entry) = readCells entry := by
  have hsummary : cleanCell entry.summary = stripTicks entry.summary := by
    rw [cleanCell, h.summary.trimmed]
  have htags : cleanCell (markedTags entry.tags) = markedTags entry.tags := by
    rw [cleanCell, (sanitized_markedTags h.tags).trimmed, stripTicks_markedTags h.tags]
  have hne : writtenCells entry ≠ [] := List.cons_ne_nil _ _
  rw [h.docRow_eq, parseTableCells_of_free hne fun cell hcell => (h.writtenCells_free cell hcell).1, writtenCells, readCells]
  simp only [List.map_cons, List.map_nil]
  rw [cleanCell_ticked h.nodeId.2.2, cleanCell_ticked h.uid.2, htags, cleanCell_ticked h.plain_fileRel, hsummary]

instance (entry : IndexEntry) : Decidable (NamesColumns entry) := inferInstanceAs (Decidable (_ ∧ _))

/-- **What a row of the document is.** -/
theorem Scanned.classify_docRow (h : Scanned entry) : runtime.classify (docRow entry) =
    if NamesColumns entry then .names ((readCells entry).map normalizeHeaderCell)
    else .row (readCells entry) := by
  have htrim : trim (docRow entry) = docRow entry := by rw [h.docRow_eq, trim_rowText]
  have hhead : (docRow entry).toList.head? = some '|' := by rw [h.docRow_eq, head_rowText]
  have hrule : (readCells entry).all isRule ≠ true := by
    intro hall
    obtain ⟨name, -, hfile⟩ := h.fileRel
    have hcell := List.all_eq_true.mp hall entry.fileRel (by simp [readCells])
    rw [hfile, isRule, String.toList_append, List.all_append, Bool.and_eq_true] at hcell
    exact absurd hcell.1 (by decide)
  have hcells : runtime.cellsOf (docRow entry) = readCells entry := by
    rw [runtime_cellsOf, h.parseTableCells_docRow]
  have hbar : ¬(docRow entry).toList.head? ≠ some '|' := not_not_intro hhead
  rw [Dialect.classify, htrim, if_neg hbar, hcells, if_neg hrule]
  by_cases hnames : NamesColumns entry
  · rw [if_pos hnames, if_pos, runtime_headerCell]
    · rw [runtime_headerCell, Bool.and_eq_true, List.contains_iff_mem, List.contains_iff_mem]
      exact hnames
  · rw [if_neg hnames, if_neg]
    rw [runtime_headerCell, Bool.and_eq_true, List.contains_iff_mem, List.contains_iff_mem]
    exact hnames

/-- The names that the document gives its columns. -/
def docColumns : List String := ["node_id", "uid", "tags", "file", "summary"]

theorem cellUnder_docColumns (nodeId uid tags file summary : String) :
    cellUnder docColumns [nodeId, uid, tags, file, summary] "node_id" = nodeId ∧
      cellUnder docColumns [nodeId, uid, tags, file, summary] "uid" = uid ∧
      cellUnder docColumns [nodeId, uid, tags, file, summary] "tags" = tags ∧
      cellUnder docColumns [nodeId, uid, tags, file, summary] "file" = file ∧
      cellUnder docColumns [nodeId, uid, tags, file, summary] "summary" = summary := by
  simp [cellUnder, docColumns]

theorem normalizeFileRef_memory {name : String} (h : Plain name) :
    normalizeFileRef ("client/memory/" ++ name) = "client/memory/" ++ name := by
  have hplain := plain_memory.append h
  have hquotes {quote : Char} (hquote : quote ∈ ['\n', '\r', '|', '`', '\\', '"', '\'', ',']) :
      trimMatches quote ("client/memory/" ++ name).toList = ("client/memory/" ++ name).toList := by
    refine trimMatches_eq_self (fun d hd heq => ?_) fun d hd heq => ?_
    · exact hplain.notMem hquote (heq ▸ List.mem_of_head? hd)
    · exact hplain.notMem hquote (heq ▸ List.mem_of_getLast? hd)
  have hslashes : (("client/memory/" ++ name).toList.map fun c => if c = '\\' then '/' else c) =
      ("client/memory/" ++ name).toList := by
    refine (List.map_congr_left fun c hc => if_neg ?_).trans (List.map_id _)
    rintro rfl
    exact hplain.notMem (by simp) hc
  have hdots : dropDots ("client/memory/" ++ name).toList = ("client/memory/" ++ name).toList := by
    rw [String.toList_append]
    rfl
  have hne : ("client/memory/" ++ name).toList ≠ [] := by simp
  have hstarts : startsWith ("client/memory/" ++ name) "client/memory/" = true := by
    rw [startsWith, List.isPrefixOf_iff_prefix, String.toList_append]
    exact List.prefix_append _ _
  rw [normalizeFileRef, cleanCell_of_plain hplain, hquotes (by simp), hquotes (by simp), if_neg hne, hslashes,
    hdots, String.ofList_toList, if_pos hstarts]

def IndexEntry.readBack (entry : IndexEntry) : IndexEntry :=
  { entry with summary := stripTicks entry.summary }

/-- **A row that is one is read back.** -/
theorem Scanned.read_readCells (h : Scanned entry) :
    runtime.read docColumns (readCells entry) = some entry.readBack := by
  have hfile : normalizeFileRef entry.fileRel = entry.fileRel := by
    obtain ⟨name, hname, hfile⟩ := h.fileRel
    rw [hfile, normalizeFileRef_memory (plain_of_isDateMemoryFile hname)]
  have hfileNe : entry.fileRel ≠ "" := by
    obtain ⟨name, -, hfile⟩ := h.fileRel
    rw [hfile]
    simp
  have htags : cleanCell (markedTags entry.tags) = markedTags entry.tags := by
    rw [cleanCell, (sanitized_markedTags h.tags).trimmed, stripTicks_markedTags h.tags]
  obtain ⟨hid, huid, htag, hrel, hsummary⟩ := cellUnder_docColumns entry.nodeId entry.uid
    (markedTags entry.tags) entry.fileRel (stripTicks entry.summary)
  rw [← readCells] at hid huid htag hrel hsummary
  have hcond : ¬(entry.nodeId = "" ∨ entry.fileRel = "") := by
    rintro (hempty | hempty)
    · exact h.nodeId.1 hempty
    · exact hfileNe hempty
  rw [Dialect.read, runtime_entry, indexEntry]
  simp only [hid, huid, htag, hrel, hsummary, cleanCell_of_plain h.nodeId.2.2, cleanCell_of_plain h.uid.2,
    cleanCell_of_plain h.plain_fileRel, htags, cleanCell_stripTicks, h.nodeId.2.1, h.uid.1, hfile,
    parseTagCell_markedTags h.tags, if_neg hcond, IndexEntry.readBack]

end Cells

/-! ## The document -/

section Document

variable {entries : List IndexEntry}

/-- The lines before the rows name the columns and say nothing. -/
theorem read_docHead : Tables.readRows runtime.classify runtime.read none docHead = [] ∧
    Tables.namesAfter runtime.classify none docHead = some docColumns := by
  constructor
  · decide
  · decide

theorem Scanned.row_free {entry : IndexEntry} (h : Scanned entry) :
    '\n' ∉ (docRow entry).toList ∧ (docRow entry).toList.getLast? = some '|' := by
  rw [h.docRow_eq]
  exact ⟨newline_notMem_rowText fun cell hcell => (h.writtenCells_free cell hcell).2, getLast_rowText _⟩

/-- **The lines of the document** are found again. -/
theorem lines_buildMemoryIndexDoc (h : ∀ entry ∈ entries, Scanned entry) :
    lines (buildMemoryIndexDoc entries) = docLines entries := by
  have hrows : ∀ row ∈ docLines entries, '\n' ∉ row.toList ∧ row.toList.getLast? ≠ some '\r' := by
    intro row hrow
    rw [docLines, List.mem_append] at hrow
    rcases hrow with hrow | hrow
    · have hhead : ∀ row ∈ docHead, '\n' ∉ row.toList ∧ row.toList.getLast? ≠ some '\r' := by
        decide
      exact hhead row hrow
    · split at hrow
      · rw [List.mem_singleton.mp hrow]
        decide
      · obtain ⟨entry, hentry, rfl⟩ := List.mem_map.mp hrow
        obtain ⟨hfree, hlast⟩ := (h entry hentry).row_free
        refine ⟨hfree, ?_⟩
        rw [hlast]
        decide
  rw [buildMemoryIndexDoc, lines_join]
  · simp [docLines, docHead]
  · exact fun row hrow => (hrows row hrow).1
  · rw [docLines]
    intro hlast
    cases hentries : entries with
    | nil =>
      rw [hentries] at hlast
      revert hlast
      decide
    | cons first rest =>
      have hrow : "" ∈ entries.map docRow := by
        rw [hentries, List.isEmpty_cons, if_neg Bool.false_ne_true, List.getLast?_append] at hlast
        refine List.mem_of_getLast? ?_
        rw [hentries]
        cases hrows : ((first :: rest).map docRow).getLast? with
        | none => simp at hrows
        | some row =>
          rw [hrows] at hlast
          exact hlast
      obtain ⟨entry, hentry, hempty⟩ := List.mem_map.mp hrow
      have hbar := (h entry hentry).row_free.2
      rw [hempty] at hbar
      cases hbar
  · exact fun row hrow => (hrows row hrow).2

theorem parseIndexFile_doc (h : ∀ entry ∈ entries, Scanned entry) (hne : entries ≠ []) :
    parseIndexFile (some (buildMemoryIndexDoc entries)) =
      Tables.readRows runtime.classify runtime.read (some docColumns) (entries.map docRow) := by
  rw [parseIndexFile, Dialect.parse, Option.map_some, Option.getD_some, lines_buildMemoryIndexDoc h, docLines,
    if_neg (by simpa using hne), Tables.readRows_append, read_docHead.1, read_docHead.2, List.nil_append]

/-- An entry is read back with its summary trimmed behind its ticks. -/
theorem unticked_readBack (entry : IndexEntry) :
    entry.readBack.unticked = entry.unticked ↔ trim (withoutTicks entry.summary) = withoutTicks entry.summary := by
  have hticks : withoutTicks (stripTicks entry.summary) = stripTicks entry.summary := by
    rw [withoutTicks, filter_stripTicks, String.ofList_toList]
  constructor
  · intro heq
    have hsummary := congrArg IndexEntry.summary heq
    rw [IndexEntry.unticked, IndexEntry.readBack, hticks] at hsummary
    exact hsummary
  · intro htrim
    rw [IndexEntry.unticked, IndexEntry.readBack, hticks, IndexEntry.unticked]
    exact congrArg (fun summary => { entry with summary := summary }) htrim

/-- **When the memory runtime reads the entries back.** -/
theorem runtimeReads_iff (h : ∀ entry ∈ entries, Scanned entry) : RuntimeReads entries ↔
    ∀ entry ∈ entries, ¬NamesColumns entry ∧
      trim (withoutTicks entry.summary) = withoutTicks entry.summary := by
  by_cases hne : entries = []
  · subst hne
    have hblank : Tables.readRows runtime.classify runtime.read (some docColumns) ["| | | | | |"] = [] := by
      decide
    refine iff_of_true ?_ (by simp)
    rw [RuntimeReads, parseIndexFile, Dialect.parse, Option.map_some, Option.getD_some,
      lines_buildMemoryIndexDoc h, docLines, List.isEmpty_nil, if_pos rfl, Tables.readRows_append,
      read_docHead.1, read_docHead.2, List.nil_append, hblank]
  rw [RuntimeReads, parseIndexFile_doc h hne]
  by_cases hnames : ∃ entry ∈ entries, NamesColumns entry
  · obtain ⟨entry, hentry, hnamed⟩ := hnames
    refine iff_of_false (fun hread => ?_) fun hall => (hall entry hentry).1 hnamed
    -- the row says nothing, so an entry is missing
    have hclass := (h entry hentry).classify_docRow
    rw [if_pos hnamed] at hclass
    have hlength := congrArg List.length hread
    have hlt : (Tables.readRows runtime.classify runtime.read (some docColumns)
        (entries.map docRow)).length < (entries.map docRow).length :=
      Tables.length_readRows_lt (List.mem_map_of_mem hentry) hclass
    rw [List.length_map, List.length_map] at hlength
    rw [List.length_map] at hlt
    omega
  · push Not at hnames
    have hrows : ∀ entry ∈ entries, runtime.classify (docRow entry) = .row (readCells entry) := by
      intro entry hentry
      rw [(h entry hentry).classify_docRow, if_neg (hnames entry hentry)]
    have hread : entries.filterMap (fun entry =>
        (some docColumns).bind (runtime.read · (readCells entry))) = entries.map IndexEntry.readBack := by
      simp only [Option.bind_some]
      rw [List.filterMap_congr fun entry hentry => (h entry hentry).read_readCells,
        List.filterMap_eq_map']
    rw [(Tables.readRows_map (some docColumns) hrows).1, hread, List.map_map, List.map_inj_left]
    refine forall₂_congr fun entry hentry => ?_
    rw [Function.comp_apply, unticked_readBack]
    exact ⟨fun htrim => ⟨hnames entry hentry, htrim⟩, fun hboth => hboth.2⟩

end Document

/-! ## The first wave -/

section Wave

variable {entry : IndexEntry} {entries : List IndexEntry}

theorem wave_cleanText_padded (cell : String) (maxLen : ℕ) :
    Wave1.cleanText (String.ofList (padded cell)) maxLen = Wave1.cleanText cell maxLen := by
  have hwords : joinWords (String.ofList (padded cell)) = joinWords cell := by
    rw [Rag.joinWords_eq, Rag.joinWords_eq, String.toList_ofList, padded, Words.joined,
      Words.words_cons_sep (by decide), Words.words_append_cons (by decide), Words.joined]
    have hnone : Words.words isWhitespace ([] : List Char) = [] := Words.words_eq_nil (by simp)
    rw [hnone, List.append_nil]
  rw [Wave1.cleanText, Rag.cleanText, hwords, Rag.cleanText]

/-- A short text without whitespace is clean. -/
theorem wave_cleanText_of_free {s : String} {maxLen : ℕ} (hfree : ∀ c ∈ s.toList, isWhitespace c = false)
    (hlength : s.toList.length ≤ maxLen) : Wave1.cleanText s maxLen = s := by
  have hjoin : joinWords s = s.toList := by
    rw [Rag.joinWords_eq]
    refine Words.joined_eq_self (by decide) (Words.spaced_of_free hfree) ?_ ?_ ?_
    · intro c hc hspace
      rw [hfree c hc] at hspace
      cases hspace
    · exact fun c hc => hfree c (List.mem_of_head? hc)
    · exact fun c hc => hfree c (List.mem_of_getLast? hc)
  rw [Wave1.cleanText, Rag.cleanText, hjoin, List.take_of_length_le hlength, String.ofList_toList,
    trim_eq_self hfree]

theorem Scanned.ticked_fileRel (h : Scanned entry) :
    (∀ c ∈ (ticked entry.fileRel).toList, isWhitespace c = false ∧ c ≠ '"' ∧ c ≠ '\'' ∧ c ≠ '\\') ∧
      (ticked entry.fileRel).toList.length = 29 := by
  constructor
  · intro c hc
    rw [toList_ticked, List.mem_cons, List.mem_append, List.mem_singleton] at hc
    rcases hc with rfl | hc | rfl
    · decide
    · obtain ⟨hspace, hbanned⟩ := of_isPlain (h.plain_fileRel c hc)
      simp only [List.mem_cons, not_or] at hbanned
      exact ⟨hspace, hbanned.2.2.2.2.2.1, hbanned.2.2.2.2.2.2.1, hbanned.2.2.2.2.1⟩
    · decide
  · obtain ⟨name, hname, hfile⟩ := h.fileRel
    rw [isDateMemoryFile, Bool.and_eq_true, beq_iff_eq] at hname
    rw [toList_ticked, hfile, String.toList_append, List.length_cons, List.length_append, List.length_append,
      hname.1]
    rfl

/-- **A file between ticks is no file** to the first wave. -/
theorem Scanned.wave_normalizeFileRef (h : Scanned entry) :
    Wave1.normalizeFileRef (ticked entry.fileRel) = "" := by
  obtain ⟨hchars, hlength⟩ := h.ticked_fileRel
  have hquotes {quote : Char} (hquote : ∀ c ∈ (ticked entry.fileRel).toList, c ≠ quote) :
      trimMatches quote (ticked entry.fileRel).toList = (ticked entry.fileRel).toList :=
    trimMatches_eq_self (fun d hd => hquote d (List.mem_of_head? hd)) fun d hd =>
      hquote d (List.mem_of_getLast? hd)
  have hclean : Wave1.cleanText (ticked entry.fileRel) 260 = ticked entry.fileRel :=
    wave_cleanText_of_free (fun c hc => (hchars c hc).1) (by omega)
  have hslashes : ((ticked entry.fileRel).toList.map fun c => if c = '\\' then '/' else c) =
      (ticked entry.fileRel).toList :=
    (List.map_congr_left fun c hc => if_neg (hchars c hc).2.2.2).trans (List.map_id _)
  have hdots : dropDots (ticked entry.fileRel).toList = (ticked entry.fileRel).toList := by
    rw [toList_ticked]
    rfl
  have hstarts {needle : String} (c : Char) (hhead : needle.toList.head? = some c) (hc : c ≠ '`') :
      startsWith (ticked entry.fileRel) needle = false := by
    obtain ⟨rest, hneedle⟩ := List.head?_eq_some_iff.mp hhead
    rw [startsWith, toList_ticked, hneedle, List.isPrefixOf_cons_cons]
    simp [hc]
  have hends : endsWith (ticked entry.fileRel) ".md" = false := by
    rw [endsWith, Bool.eq_false_iff, ne_eq, List.isSuffixOf_iff_suffix]
    rintro ⟨before, hbefore⟩
    have hlast := congrArg List.getLast? hbefore
    rw [toList_ticked, ← List.cons_append, List.getLast?_concat, List.getLast?_append] at hlast
    cases hlast
  rw [Wave1.normalizeFileRef, hquotes fun c hc => (hchars c hc).2.1, hquotes fun c hc => (hchars c hc).2.2.1,
    String.ofList_toList, hclean, hslashes, hdots, String.ofList_toList]
  have hclient : startsWith (ticked entry.fileRel) "client/memory/" = false := hstarts 'c' rfl (by decide)
  have hmemory : startsWith (ticked entry.fileRel) "memory/" = false := hstarts 'm' rfl (by decide)
  have harchive : startsWith (ticked entry.fileRel) "_archive/" = false := hstarts '_' rfl (by decide)
  simp only [hclient, hmemory, harchive, hends, Bool.and_false, Bool.false_and, Bool.false_eq_true, if_false,
    ite_self]

/-- The lines before the rows name the columns here too. -/
theorem wave_read_docHead : Tables.readRows Wave1.wave1.classify Wave1.wave1.read none docHead = [] ∧
    Tables.namesAfter Wave1.wave1.classify none docHead = some docColumns := by
  constructor
  · decide
  · decide

/-- The first row says nothing: it is a row of names, or its file is none. -/
theorem Scanned.wave_read_first (h : Scanned entry) :
    Tables.readRows Wave1.wave1.classify Wave1.wave1.read (some docColumns) [docRow entry] = [] := by
  have hcells : Wave1.wave1.cellsOf (docRow entry) =
      (writtenCells entry).map fun cell => Wave1.cleanText cell 512 := by
    have hne : writtenCells entry ≠ [] := List.cons_ne_nil _ _
    have hfree : ∀ cell ∈ writtenCells entry, '|' ∉ cell.toList :=
      fun cell hcell => (h.writtenCells_free cell hcell).1
    simp only [Wave1.wave1]
    rw [h.docRow_eq, pieces_of_free hne hfree, List.map_map]
    exact List.map_congr_left fun cell _ => wave_cleanText_padded cell 512
  have hread : Wave1.wave1.read docColumns (Wave1.wave1.cellsOf (docRow entry)) = none := by
    have hfile : Wave1.cleanText (ticked entry.fileRel) 512 = ticked entry.fileRel := by
      obtain ⟨hchars, hlength⟩ := h.ticked_fileRel
      exact wave_cleanText_of_free (fun c hc => (hchars c hc).1) (by omega)
    have hcell := (cellUnder_docColumns (Wave1.cleanText (ticked entry.nodeId) 512)
      (Wave1.cleanText (ticked entry.uid) 512) (Wave1.cleanText (markedTags entry.tags) 512)
      (Wave1.cleanText (ticked entry.fileRel) 512) (Wave1.cleanText entry.summary 512)).2.2.2.1
    have hnone : Wave1.normalizeFileRef (cellUnder docColumns
        ((writtenCells entry).map fun cell => Wave1.cleanText cell 512) "file") = "" := by
      simp only [writtenCells, List.map_cons, List.map_nil]
      rw [hcell, hfile, h.wave_normalizeFileRef]
    rw [hcells, Dialect.read, Wave1.wave1_entry, Wave1.indexEntry]
    simp only [hnone, or_true, if_true]
  have htrim : trim (docRow entry) = docRow entry := by rw [h.docRow_eq, trim_rowText]
  rw [Tables.readRows]
  cases hclass : Wave1.wave1.classify (docRow entry) with
  | skipped => rfl
  | names columns => rfl
  | row cells =>
    have hline := Dialect.classify_eq_row hclass
    rw [htrim] at hline
    dsimp only
    rw [hline, Option.bind_some, hread]
    rfl

/-- **The first wave reads them back only if there are none.** -/
theorem waveReads_iff (h : ∀ entry ∈ entries, Scanned entry) : WaveReads entries ↔ entries = [] := by
  constructor
  · intro hread
    cases hentries : entries with
    | nil => rfl
    | cons first rest =>
      have hlength := congrArg List.length hread
      rw [Wave1.parseIndexFile, Dialect.parse, Option.map_some, Option.getD_some,
        lines_buildMemoryIndexDoc h, docLines, hentries, List.isEmpty_cons, if_neg Bool.false_ne_true,
        Tables.readRows_append, wave_read_docHead.1, wave_read_docHead.2, List.nil_append, List.map_cons,
        ← List.singleton_append, Tables.readRows_append,
        (h first (by simp [hentries])).wave_read_first, List.nil_append, List.length_map, List.length_map,
        List.length_cons] at hlength
      have hle : (Tables.readRows Wave1.wave1.classify Wave1.wave1.read
          (Tables.namesAfter Wave1.wave1.classify (some docColumns) [docRow first]) (rest.map docRow)).length ≤
            (rest.map docRow).length := Tables.length_readRows_le _ _
      rw [List.length_map] at hle
      omega
  · rintro rfl
    have hblank : Tables.readRows Wave1.wave1.classify Wave1.wave1.read (some docColumns) ["| | | | | |"] = [] := by
      decide
    rw [WaveReads, Wave1.parseIndexFile, Dialect.parse, Option.map_some, Option.getD_some,
      lines_buildMemoryIndexDoc h, docLines, List.isEmpty_nil, if_pos rfl, Tables.readRows_append,
      wave_read_docHead.1, wave_read_docHead.2, List.nil_append, hblank]
    rfl

end Wave

/-- The document is read back by both readers. -/
structure RoundTrips (entries : List IndexEntry) : Prop where
  runtime : RuntimeReads entries
  wave : WaveReads entries

/-- **When the entries of a scan come back**: both readers together give them back only if there are
none; the memory runtime does where no row is taken for one of names and no summary has blanks at its ends
behind its ticks. -/
theorem roundTrips_iff (files : List MemoryFile) :
    (RoundTrips (scanDailyEntries files).1 ↔ (scanDailyEntries files).1 = []) ∧
      (RuntimeReads (scanDailyEntries files).1 ↔ ∀ entry ∈ (scanDailyEntries files).1,
        ¬NamesColumns entry ∧ trim (withoutTicks entry.summary) = withoutTicks entry.summary) := by
  have hscanned := scanned_of_mem files
  refine ⟨⟨fun h => (waveReads_iff hscanned).mp h.wave, fun hnil => ⟨?_, ?_⟩⟩, runtimeReads_iff hscanned⟩
  · rw [runtimeReads_iff hscanned, hnil]
    simp
  · exact (waveReads_iff hscanned).mpr hnil

/-- A daily file with one node. -/
def oneNode : MemoryFile where
  name := "2024-01-01.md"
  stat := some { len := 40, modifiedMs := 0, content := some "<!-- NODE -->\nnode_id: a\n# Notes" }

def oneNodeEntry : IndexEntry where
  nodeId := "a"
  uid := ""
  fileRel := "client/memory/2024-01-01.md"
  summary := "Notes"
  tags := []

/-- The memory runtime reads the node of the file back, and the first wave does not. -/
theorem one_node_unread :
    (scanDailyEntries [oneNode]).1 = [oneNodeEntry] ∧ RuntimeReads (scanDailyEntries [oneNode]).1 ∧
      ¬RoundTrips (scanDailyEntries [oneNode]).1 := by
  have hscan : (scanDailyEntries [oneNode]).1 = [oneNodeEntry] := by decide
  have hscanned := scanned_of_mem [oneNode]
  refine ⟨hscan, (runtimeReads_iff hscanned).mpr fun entry hentry => ?_, fun h => ?_⟩
  · rw [hscan, List.mem_singleton] at hentry
    subst hentry
    decide
  · have hnil := (waveReads_iff hscanned).mp h.wave
    rw [hscan] at hnil
    cases hnil

end Protheus.MemoryIndex
