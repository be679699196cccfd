import Protheus.Json
import Protheus.Lib.SqlTable
import Protheus.MemoryIndex.Scan
import Std.Data.ExtTreeMap

/-!
`sync_sqlite_runtime_index` and `load_runtime_index`: the cache of a scan in SQLite.

The index is keyed by node and file, the embeddings by node alone, so a node that stands
in two daily files fills the index and then fails in the embeddings.  A refresh that goes
through leaves the rows of the scan and the signature it was made under.  A signature
says what the names, lengths and modification times of the files are
(`stamps_perm_of_signature`), and the rows of a scan are read back as the scan
(`loadIndexEntries_rows`).
-/

namespace Protheus.MemoryIndex

open RustStd
open Std (ExtTreeMap)

/-- What the process gets from outside: `sha256_hex`, hot state values sealed under the
one key and opened again, the vector of an entry's text, and SQLite's complaint about a
key that is taken. -/
structure Host where
  sha256Hex : String → String
  sealValue : ℕ → Json → String
  openValue : String → Option Json
  vectorBlob : String → List UInt8
  uniqueError : String → String

/-- What is taken of them; the signature, a text, is the one hot state value that is opened. -/
structure Faithful (host : Host) : Prop where
  injective : Function.Injective host.sha256Hex
  ne_empty : ∀ text, host.sha256Hex text ≠ ""
  opened : ∀ nonce text, host.openValue (host.sealValue nonce (.str text)) = some (.str text)

/-! ## Tables -/

/-- A row of `memory_index`; its key is the node and the file. -/
structure IndexRow where
  nodeId : String
  uid : String
  fileRel : String
  summary : String
  tagsJson : Json
  source : String
  updatedTs : String

/-- A row of `embeddings`; its key is the identifier. -/
structure EmbeddingRow where
  embeddingId : String
  nodeId : String
  vectorBlob : List UInt8
  metadataJson : Json
  createdTs : String
  updatedTs : String

structure MemoryDb where
  memoryIndex : List IndexRow := []
  embeddings : List EmbeddingRow := []
  hotState : ExtTreeMap String String := ∅

def indexKey (row : IndexRow) : String × String := (row.nodeId, row.fileRel)

/-- `ORDER BY file_rel ASC, node_id ASC`. -/
def indexOrder (a b : IndexRow) : Prop :=
  a.fileRel < b.fileRel ∨ (a.fileRel = b.fileRel ∧ a.nodeId ≤ b.nodeId)

instance : DecidableRel indexOrder := fun _ _ => inferInstanceAs (Decidable (_ ∨ _))

def dedupeTags (tags : List String) : List String := orderedSet ((tags.map normalizeTag).filter (· ≠ ""))

def tagsJson (tags : List String) : Json := .arr (tags.map .str)

def parseTagsJson (raw : Json) : List String :=
  orderedSet ((((raw.asArray.getD []).mapM Json.asStr).getD []).filter (trim · ≠ ""))

/-- The row of an entry: `to_db_index_entry` and the insert. -/
def toIndexRow (source now : String) (entry : IndexEntry) : IndexRow where
  nodeId := entry.nodeId
  uid := entry.uid
  fileRel := entry.fileRel
  summary := entry.summary
  tagsJson := tagsJson (dedupeTags entry.tags)
  source := source
  updatedTs := now

/-- The entry of a row: the select and `from_db_index_entry`. -/
def fromIndexRow (row : IndexRow) : IndexEntry where
  nodeId := row.nodeId
  uid := row.uid
  fileRel := row.fileRel
  summary := row.summary
  tags := dedupeTags (parseTagsJson row.tagsJson)

def embeddingTextForEntry (entry : IndexEntry) : String :=
  entry.nodeId ++ " " ++ entry.uid ++ " " ++ entry.summary ++ " " ++ " ".intercalate entry.tags

def toEmbeddingRow (host : Host) (source now : String) (entry : IndexEntry) : EmbeddingRow where
  embeddingId := source ++ "::" ++ entry.nodeId
  nodeId := entry.nodeId
  vectorBlob := host.vectorBlob (embeddingTextForEntry entry)
  metadataJson := Json.ofFields
    [("node_id", .str entry.nodeId), ("source", .str source), ("tags", tagsJson entry.tags)]
  createdTs := now
  updatedTs := now

section Statements

variable (host : Host)

def replaceIndexEntries (source now : String) (entries : List IndexEntry) (db : MemoryDb) :
    Except String ℕ × MemoryDb :=
  match SqlTable.replaceAll indexKey db.memoryIndex (entries.map (toIndexRow source now)) with
  | (true, memoryIndex) => (.ok entries.length, { db with memoryIndex })
  | (false, memoryIndex) =>
    (.error ("db_index_insert_failed:" ++ host.uniqueError "memory_index"), { db with memoryIndex })

def replaceEmbeddings (source now : String) (entries : List IndexEntry) (db : MemoryDb) :
    Except String ℕ × MemoryDb :=
  match SqlTable.replaceAll EmbeddingRow.embeddingId db.embeddings
      (entries.map (toEmbeddingRow host source now)) with
  | (true, embeddings) => (.ok entries.length, { db with embeddings })
  | (false, embeddings) =>
    (.error ("db_embedding_insert_failed:" ++ host.uniqueError "embeddings"), { db with embeddings })

/-- `load_index_entries`, as entries. -/
def loadIndexEntries (db : MemoryDb) : List IndexEntry :=
  (SqlTable.select indexOrder db.memoryIndex).map fromIndexRow

def getHotStateJson (db : MemoryDb) (key : String) : Except String (Option Json) :=
  match db.hotState[key]? with
  | none => .ok none
  | some cipher =>
    match host.openValue cipher with
    | some value => .ok (some value)
    | none => .error "db_hot_state_decrypt_failed"

def setHotStateJson (nonce : ℕ) (key : String) (value : Json) (db : MemoryDb) : MemoryDb :=
  { db with hotState := db.hotState.insert key (host.sealValue nonce value) }

end Statements

/-! ## Sync and load -/

/-- The clock and the nonces of a load. -/
structure Load where
  indexTs : String := ""
  embeddingTs : String := ""
  nonce : ℕ → ℕ := id

structure SyncResult where
  indexSources : List String
  tagSources : List String
  rows : ℕ
  wrote : Bool
  signature : String

section Sync

variable (host : Host) (load : Load) (files : List MemoryFile)

/-- A sync of which the signature has changed. -/
def refresh (signature : String) (db : MemoryDb) : Except String SyncResult × MemoryDb :=
  let (entries, filesScanned) := scanDailyEntries files
  match replaceIndexEntries host "daily_scan_authority" load.indexTs entries db with
  | (.error error, db) => (.error error, db)
  | (.ok inserted, db) =>
    match replaceEmbeddings host "daily_scan_authority" load.embeddingTs entries db with
    | (.error error, db) => (.error error, db)
    | (.ok embeddingWritten, db) =>
      let db := setHotStateJson host (load.nonce 0) "daily_scan_signature" (.str signature) db
      let db := setHotStateJson host (load.nonce 1) "index_row_count" (Json.ofNat inserted) db
      let db := setHotStateJson host (load.nonce 2) "embedding_row_count" (Json.ofNat embeddingWritten) db
      let db := setHotStateJson host (load.nonce 3) "index_sync_source" (.str "daily_scan_authority") db
      let db := setHotStateJson host (load.nonce 4) "index_files_scanned" (Json.ofNat filesScanned) db
      (.ok
        { indexSources := ["daily_scan:" ++ toString filesScanned ++ "_files"]
          tagSources := ["daily_scan:frontmatter_tags"]
          rows := inserted
          wrote := true
          signature }, db)

def syncSqliteRuntimeIndex (db : MemoryDb) : Except String SyncResult × MemoryDb :=
  let signature := dailyScanSignature host.sha256Hex files
  match getHotStateJson host db "daily_scan_signature" with
  | .error error => (.error error, db)
  | .ok value =>
    let previous := (value.bind Json.asStr).getD ""
    let existingRows := db.memoryIndex.length
    if 0 < existingRows ∧ signature ≠ "" ∧ signature = previous then
      (.ok
        { indexSources := ["daily_scan:unchanged"]
          tagSources := ["daily_scan:unchanged"]
          rows := existingRows
          wrote := false
          signature }, db)
    else refresh host load files signature db

/-- What `load_runtime_index` gives, as far as it is made of entries. -/
structure RuntimeIndexBundle where
  entries : List IndexEntry := []
  indexSources : List String := []
  tagSources : List String := []
  sqliteSyncRows : ℕ := 0
  sqliteSyncApplied : Bool := false

/-- `load_runtime_index` with the database at a path; `fallback` is what it reads from the
index documents when neither the database nor the daily files have entries. -/
def loadRuntimeIndex (sqlitePath : String) (fallback : RuntimeIndexBundle) (db : MemoryDb) :
    RuntimeIndexBundle × MemoryDb :=
  let (result, db) := syncSqliteRuntimeIndex host load files db
  let (syncRows, applied) := match result with
    | .ok result => (result.rows, result.wrote)
    | .error _ => (0, false)
  if db.memoryIndex.isEmpty then
    let (entries, filesScanned) := scanDailyEntries files
    if entries.isEmpty then
      ({ fallback with sqliteSyncRows := syncRows, sqliteSyncApplied := applied }, db)
    else
      ({ entries
         indexSources := ["daily_scan_fallback:" ++ toString filesScanned ++ "_files"]
         tagSources := ["daily_scan_fallback:frontmatter_tags"]
         sqliteSyncRows := syncRows
         sqliteSyncApplied := applied }, db)
  else
    ({ entries := loadIndexEntries db
       indexSources := ["sqlite:" ++ sqlitePath]
       tagSources := ["sqlite:" ++ sqlitePath]
       sqliteSyncRows := syncRows
       sqliteSyncApplied := applied }, db)

end Sync

/-! ## Rows and entries -/

section Rows

theorem dedupeTags_eq_self {tags : List String} (h : Canonical tags) : dedupeTags tags = tags := by
  have hmap : tags.map normalizeTag = tags :=
    (List.map_congr_left fun tag htag => normalizeTag_eq_self (h.words tag htag).2).trans (List.map_id _)
  rw [dedupeTags, hmap, List.filter_eq_self.mpr fun tag htag => by simpa using (h.words tag htag).1,
    h.orderedSet_eq]

theorem parseTagsJson_tagsJson {tags : List String} (h : Canonical tags) :
    parseTagsJson (tagsJson tags) = tags := by
  have hread : (tags.map Json.str).mapM Json.asStr = some tags := by
    clear h
    induction tags with
    | nil => rfl
    | cons tag tags ih => simp [ih, Json.asStr]
  have hwords : tags.filter (trim · ≠ "") = tags := by
    refine List.filter_eq_self.mpr fun tag htag => ?_
    rw [trim_eq_self fun c hc => (of_isTagChar ((h.words tag htag).2 c hc)).1]
    simpa using (h.words tag htag).1
  rw [parseTagsJson, tagsJson, Json.asArray, Option.getD_some, hread, Option.getD_some, hwords,
    h.orderedSet_eq]

/-- An entry of a scan is read back as it was written. -/
theorem fromIndexRow_toIndexRow {entry : IndexEntry} (h : Canonical entry.tags) (source now : String) :
    fromIndexRow (toIndexRow source now entry) = entry := by
  rw [fromIndexRow, toIndexRow, dedupeTags_eq_self h, parseTagsJson_tagsJson h, dedupeTags_eq_self h]

/-- **The rows of a scan** are read back as the scan. -/
theorem loadIndexEntries_rows {files : List MemoryFile} {db : MemoryDb} {source now : String}
    (h : db.memoryIndex = (scanDailyEntries files).1.map (toIndexRow source now)) :
    loadIndexEntries db = (scanDailyEntries files).1 := by
  have hsorted : db.memoryIndex.Pairwise indexOrder := by
    rw [h]
    exact List.pairwise_map.mpr (sorted_scan files)
  rw [loadIndexEntries, SqlTable.select_eq_self hsorted, h, List.map_map]
  refine (List.map_congr_left fun entry hentry => ?_).trans (List.map_id _)
  exact fromIndexRow_toIndexRow (canonical_of_mem_scan files entry hentry) source now

theorem indexKeys_nodup (files : List MemoryFile) (source now : String) :
    (((scanDailyEntries files).1.map (toIndexRow source now)).map indexKey).Nodup := by
  rw [List.map_map]
  exact nodup_scan files

theorem embeddingIds_nodup_iff (host : Host) (entries : List IndexEntry) (source now : String) :
    ((entries.map (toEmbeddingRow host source now)).map EmbeddingRow.embeddingId).Nodup ↔
      (entries.map IndexEntry.nodeId).Nodup := by
  have hids : (entries.map (toEmbeddingRow host source now)).map EmbeddingRow.embeddingId =
      (entries.map IndexEntry.nodeId).map (source ++ "::" ++ ·) := by
    rw [List.map_map, List.map_map]
    rfl
  rw [hids]
  exact List.nodup_map_iff fun a b h => String.append_right_inj _ |>.mp h

end Rows

/-! ## Signatures -/

section Signatures

theorem bar_notMem_repr (n : ℕ) : '|' ∉ (toString n).toList := RustStd.notMem_toString rfl n

theorem bar_notMem_name {name : String} (h : isDateMemoryFile name = true) : '|' ∉ name.toList := by
  intro hmem
  rw [isDateMemoryFile, Bool.and_eq_true, List.all_eq_true] at h
  obtain ⟨i, hi, hget⟩ := List.mem_iff_getElem.mp hmem
  have hbar := h.2 ('|', i) (List.mem_zipIdx_iff_getElem?.mpr (List.getElem?_eq_some_iff.mpr ⟨hi, hget⟩))
  dsimp only at hbar
  split at hbar
  · cases hbar
  · split at hbar
    · cases hbar
    · split at hbar
      · cases hbar
      · split at hbar
        · cases hbar
        · cases hbar

theorem bar_notMem_stamps (files : List MemoryFile) : ∀ row ∈ stamps files, '|' ∉ row.toList := by
  intro row hrow
  obtain ⟨file, -, hstamp⟩ := List.mem_filterMap.mp hrow
  rw [stamp] at hstamp
  split at hstamp
  · rename_i hname
    obtain ⟨stat, -, rfl⟩ := Option.map_eq_some_iff.mp hstamp
    simp only [String.toList_append, List.mem_append, not_or]
    exact ⟨⟨⟨⟨bar_notMem_name hname, by decide⟩, bar_notMem_repr _⟩, by decide⟩, bar_notMem_repr _⟩
  · cases hstamp

theorem joinRows_inj {rows rows' : List String} (h : ∀ row ∈ rows, '|' ∉ row.toList)
    (h' : ∀ row ∈ rows', '|' ∉ row.toList) (hne : rows ≠ []) (hne' : rows' ≠ [])
    (heq : joinRows rows = joinRows rows') : rows = rows' := by
  have hsplit {rows : List String} (h : ∀ row ∈ rows, '|' ∉ row.toList) (hne : rows ≠ []) :
      (['|'].intercalate (rows.map String.toList)).splitOn '|' = rows.map String.toList := by
    refine List.splitOn_intercalate '|' (fun l hl => ?_) (by simpa using hne)
    obtain ⟨row, hrow, rfl⟩ := List.mem_map.mp hl
    exact h row hrow
  have hlists := String.ofList_injective heq
  have hmap : rows.map String.toList = rows'.map String.toList := by
    rw [← hsplit h hne, hlists, hsplit h' hne']
  exact List.map_injective_iff.mpr (fun _ _ h => String.toList_injective h) hmap

variable {host : Host} {files files' : List MemoryFile}

theorem signature_eq_empty_iff (hfaithful : Faithful host) :
    dailyScanSignature host.sha256Hex files = "" ↔ stamps files = [] := by
  rw [dailyScanSignature]
  split
  · rename_i h
    exact iff_of_true rfl (List.isEmpty_iff.mp h)
  · rename_i h
    exact iff_of_false (hfaithful.ne_empty _) fun hempty => h (List.isEmpty_iff.mpr hempty)

/-- **A signature says** what the names, lengths and modification times are. -/
theorem stamps_perm_of_signature (hfaithful : Faithful host)
    (hne : dailyScanSignature host.sha256Hex files ≠ "")
    (h : dailyScanSignature host.sha256Hex files = dailyScanSignature host.sha256Hex files') :
    (stamps files).Perm (stamps files') := by
  have hrows : stamps files ≠ [] := fun hempty => hne ((signature_eq_empty_iff hfaithful).mpr hempty)
  have hrows' : stamps files' ≠ [] := by
    intro hempty
    exact hne (h.trans ((signature_eq_empty_iff hfaithful).mpr hempty))
  rw [dailyScanSignature, dailyScanSignature, if_neg (by simpa using hrows),
    if_neg (by simpa using hrows')] at h
  have hperm (rows : List String) : (rows.insertionSort (· ≤ ·)).Perm rows := List.perm_insertionSort _ _
  have hsorted : (stamps files).insertionSort (· ≤ ·) = (stamps files').insertionSort (· ≤ ·) := by
    refine joinRows_inj (fun row hrow => ?_) (fun row hrow => ?_) ?_ ?_ (hfaithful.injective h)
    · exact bar_notMem_stamps files row ((hperm _).mem_iff.mp hrow)
    · exact bar_notMem_stamps files' row ((hperm _).mem_iff.mp hrow)
    · exact fun hempty => hrows (List.perm_nil.mp (hempty ▸ (hperm (stamps files)).symm))
    · exact fun hempty => hrows' (List.perm_nil.mp (hempty ▸ (hperm (stamps files')).symm))
  exact (hperm _).symm.trans (hsorted ▸ hperm _)

/-- Files with entries have a signature. -/
theorem signature_ne_empty (hfaithful : Faithful host) (h : (scanDailyEntries files).1 ≠ []) :
    dailyScanSignature host.sha256Hex files ≠ "" := by
  rw [ne_eq, signature_eq_empty_iff hfaithful]
  intro hempty
  have hstat : ∀ file ∈ dailyFiles files, file.stat = none := by
    intro file hfile
    rw [dailyFiles, List.mem_insertionSort, List.mem_filter] at hfile
    have hstamp := List.filterMap_eq_nil_iff.mp hempty file hfile.1
    rw [stamp, if_pos hfile.2] at hstamp
    exact Option.map_eq_none_iff.mp hstamp
  have hfold (found : List MemoryFile) (hfound : ∀ file ∈ found, file.stat = none)
      (acc : List String × List IndexEntry) : found.foldl scanFile acc = acc := by
    induction found with
    | nil => rfl
    | cons file found ih =>
      rw [List.foldl_cons, scanFile, hfound file List.mem_cons_self]
      exact ih fun file hfile => hfound file (List.mem_cons_of_mem _ hfile)
  rw [scanDailyEntries, hfold _ hstat] at h
  exact h rfl

end Signatures

end Protheus.MemoryIndex
