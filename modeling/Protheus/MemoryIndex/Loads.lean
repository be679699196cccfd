import Protheus.Lib.Runs
import Protheus.MemoryIndex.Sync
import Protheus.V8Kernel

/-!
Runs of edits and loads.

`Cached` says that the database holds the rows of a scan and the signature of the files
it was made from.  A refresh leads there from anywhere when no node stands in two files
(`refresh_cached`), and a sync under the same signature changes nothing.  In every run
whose loads find each node in one file, and no files that look as they did at the last
refresh but have other nodes, every load gives the scan (`loads_coherent`).
-/

namespace Protheus.MemoryIndex

open Runs
open Std (ExtTreeMap)

/-- The files and the database, with the files of the last refresh and whether there was
a load since the last edit. -/
structure State where
  files : List MemoryFile
  db : MemoryDb := {}
  refreshed : Option (List MemoryFile) := none
  loaded : Bool := false

inductive Event where
  | edit (files : List MemoryFile)
  | load (load : Load)

def loadStep (host : Host) (state : State) (load : Load) : State :=
  let (result, db) := syncSqliteRuntimeIndex host load state.files state.db
  { state with
    db
    loaded := true
    refreshed := match result with
      | .ok result => if result.wrote then some state.files else state.refreshed
      | .error _ => state.refreshed }

def step (host : Host) (state : State) : Event → State
  | .edit files => { state with files, loaded := false }
  | .load load => loadStep host state load

/-- Each node stands in one file, and files that have the names, lengths and modification times
of the last refresh have its nodes. -/
structure Distinct (state : State) : Prop where
  nodes : ((scanDailyEntries state.files).1.map IndexEntry.nodeId).Nodup
  stamped : ∀ old, state.refreshed = some old → (stamps state.files).Perm (stamps old) →
    (scanDailyEntries state.files).1 = (scanDailyEntries old).1

/-- Every edit leaves a node, and every load meets such files. -/
def LoadsDistinct (state : State) : Event → Prop
  | .edit files => (scanDailyEntries files).1 ≠ []
  | .load _ => Distinct state

/-- A load is in step with the files: the sync succeeds, the entries are those of the
scan, the embeddings have one row for each node, and nothing is written when there was no
edit since the load before. -/
structure Coherent (host : Host) (sqlitePath : String) (fallback : RuntimeIndexBundle) (state : State)
    (load : Load) : Prop where
  entries : (loadRuntimeIndex host load state.files sqlitePath fallback state.db).1.entries =
    (scanDailyEntries state.files).1
  embeddings : ((loadStep host state load).db.embeddings.map EmbeddingRow.nodeId).Perm
    ((scanDailyEntries state.files).1.map IndexEntry.nodeId).dedup
  synced : ∃ result, (syncSqliteRuntimeIndex host load state.files state.db).1 = .ok result ∧
    (state.loaded = true → result.wrote = false ∧ (loadStep host state load).db = state.db)

/-- The database holds the scan of some files and their signature. -/
structure Cached (host : Host) (db : MemoryDb) (files : List MemoryFile) : Prop where
  index : ∃ now, db.memoryIndex =
    (scanDailyEntries files).1.map (toIndexRow "daily_scan_authority" now)
  embeddings : db.embeddings.map EmbeddingRow.nodeId = (scanDailyEntries files).1.map IndexEntry.nodeId
  signature : getHotStateJson host db "daily_scan_signature" =
    .ok (some (.str (dailyScanSignature host.sha256Hex files)))
  nodes : ((scanDailyEntries files).1.map IndexEntry.nodeId).Nodup

section Sync

variable {host : Host} {db : MemoryDb} {files : List MemoryFile} {load : Load}

theorem Cached.rows_pos_iff (h : Cached host db files) :
    0 < db.memoryIndex.length ↔ (scanDailyEntries files).1 ≠ [] := by
  obtain ⟨now, hindex⟩ := h.index
  rw [hindex, List.length_map, List.length_pos_iff]

theorem Cached.entries (h : Cached host db files) :
    loadIndexEntries db = (scanDailyEntries files).1 := by
  obtain ⟨now, hindex⟩ := h.index
  exact loadIndexEntries_rows hindex

/-- A text that was set is read back. -/
theorem getHotStateJson_setHotStateJson_same (hfaithful : Faithful host) (db : MemoryDb) (nonce : ℕ)
    (key text : String) :
    getHotStateJson host (setHotStateJson host nonce key (.str text) db) key = .ok (some (.str text)) := by
  rw [getHotStateJson, setHotStateJson]
  dsimp only
  rw [ExtTreeMap.getElem?_insert_self]
  dsimp only
  rw [hfaithful.opened]

theorem getHotStateJson_setHotStateJson_ne (db : MemoryDb) (nonce : ℕ) {key key' : String}
    (h : key ≠ key') (value : Json) :
    getHotStateJson host (setHotStateJson host nonce key value db) key' = getHotStateJson host db key' := by
  rw [getHotStateJson, setHotStateJson]
  dsimp only
  rw [ExtTreeMap.getElem?_insert, if_neg (by simpa using h), getHotStateJson]

/-- **A refresh** succeeds when no node stands in two files, and caches the scan. -/
theorem refresh_cached (hfaithful : Faithful host)
    (hnodes : ((scanDailyEntries files).1.map IndexEntry.nodeId).Nodup) :
    ∃ result db', refresh host load files (dailyScanSignature host.sha256Hex files) db =
        (.ok result, db') ∧ result.wrote = true ∧ Cached host db' files := by
  have hindex := @SqlTable.replaceAll_eq _ _ _ indexKey db.memoryIndex
    ((scanDailyEntries files).1.map (toIndexRow "daily_scan_authority" load.indexTs))
  rw [if_pos (indexKeys_nodup files _ _)] at hindex
  have hembeddings := @SqlTable.replaceAll_eq _ _ _ EmbeddingRow.embeddingId db.embeddings
    ((scanDailyEntries files).1.map (toEmbeddingRow host "daily_scan_authority" load.embeddingTs))
  rw [if_pos ((embeddingIds_nodup_iff host _ _ _).mpr hnodes)] at hembeddings
  simp only [refresh, replaceIndexEntries, hindex, replaceEmbeddings, hembeddings]
  refine ⟨_, _, rfl, rfl, ⟨⟨load.indexTs, rfl⟩, ?_, ?_, hnodes⟩⟩
  · rw [setHotStateJson, setHotStateJson, setHotStateJson, setHotStateJson, setHotStateJson]
    dsimp only
    rw [List.map_map]
    rfl
  · rw [getHotStateJson_setHotStateJson_ne _ _ (by decide), getHotStateJson_setHotStateJson_ne _ _ (by decide),
      getHotStateJson_setHotStateJson_ne _ _ (by decide), getHotStateJson_setHotStateJson_ne _ _ (by decide),
      getHotStateJson_setHotStateJson_same hfaithful]

/-- A sync under the signature it has cached changes nothing. -/
theorem sync_unchanged {old : List MemoryFile} (h : Cached host db old)
    (hold : (scanDailyEntries old).1 ≠ []) (hne : dailyScanSignature host.sha256Hex files ≠ "")
    (hsame : dailyScanSignature host.sha256Hex files = dailyScanSignature host.sha256Hex old) :
    ∃ result, syncSqliteRuntimeIndex host load files db = (.ok result, db) ∧ result.wrote = false := by
  rw [syncSqliteRuntimeIndex, h.signature]
  dsimp only
  rw [if_pos ⟨h.rows_pos_iff.mpr hold, hne, by simpa [Json.asStr] using hsame⟩]
  exact ⟨_, rfl, rfl⟩

/-- A sync under another signature than the one it has cached, or with no row, refreshes. -/
theorem sync_refresh {value : Option Json}
    (h : getHotStateJson host db "daily_scan_signature" = .ok value)
    (hchanged : 0 < db.memoryIndex.length → dailyScanSignature host.sha256Hex files ≠ "" →
      dailyScanSignature host.sha256Hex files ≠ (value.bind Json.asStr).getD "") :
    syncSqliteRuntimeIndex host load files db =
      refresh host load files (dailyScanSignature host.sha256Hex files) db := by
  rw [syncSqliteRuntimeIndex, h]
  dsimp only
  rw [if_neg]
  rintro ⟨hrows, hne, heq⟩
  exact hchanged hrows hne heq

end Sync

/-! ## Runs -/

/-- What every state of a run is like. -/
structure Inv (host : Host) (state : State) : Prop where
  cached : ∀ old, state.refreshed = some old → Cached host state.db old
  unread : state.refreshed = none → getHotStateJson host state.db "daily_scan_signature" = .ok none
  loaded : state.loaded = true → ∃ old, state.refreshed = some old ∧
    dailyScanSignature host.sha256Hex state.files = dailyScanSignature host.sha256Hex old

section Runs

variable {host : Host} {state : State}

theorem inv_start (files : List MemoryFile) : Inv host { files } where
  cached _ h := by cases h
  unread _ := by simp [getHotStateJson]
  loaded h := by cases h

/-- What a load does: the database holds the scan afterwards, and it is as it was when the
signature was the cached one and there is a node. -/
def LoadsScan (host : Host) (state : State) (load : Load) : Prop :=
  ∃ result db old, syncSqliteRuntimeIndex host load state.files state.db = (.ok result, db) ∧
    (loadStep host state load).refreshed = some old ∧ Cached host db old ∧
    (scanDailyEntries state.files).1 = (scanDailyEntries old).1 ∧
    dailyScanSignature host.sha256Hex state.files = dailyScanSignature host.sha256Hex old ∧
    (state.loaded = true → (scanDailyEntries state.files).1 ≠ [] → result.wrote = false ∧ db = state.db)

theorem loads_scan (hfaithful : Faithful host) (hinv : Inv host state) (hdistinct : Distinct state)
    (load : Load) : LoadsScan host state load := by
  have hrefresh (hsync : syncSqliteRuntimeIndex host load state.files state.db =
      refresh host load state.files (dailyScanSignature host.sha256Hex state.files) state.db)
      (hfresh : state.loaded = true → (scanDailyEntries state.files).1 = []) : LoadsScan host state load := by
    obtain ⟨result, db, hresult, hwrote, hcached⟩ :=
      @refresh_cached host state.db state.files load hfaithful hdistinct.nodes
    rw [hresult] at hsync
    refine ⟨result, db, state.files, hsync, ?_, hcached, rfl, rfl, fun h hne => absurd (hfresh h) hne⟩
    rw [loadStep, hsync]
    dsimp only
    rw [if_pos hwrote]
  cases hrefreshed : state.refreshed with
  | none =>
    refine hrefresh (sync_refresh (hinv.unread hrefreshed) fun _ hne => hne) fun hloaded => ?_
    obtain ⟨old, hold, -⟩ := hinv.loaded hloaded
    rw [hrefreshed] at hold
    cases hold
  | some old =>
    have hcached := hinv.cached old hrefreshed
    -- the signatures agree, and so do the scans
    have hscan (hsame : dailyScanSignature host.sha256Hex state.files = dailyScanSignature host.sha256Hex old)
        (hne : dailyScanSignature host.sha256Hex state.files ≠ "") :
        (scanDailyEntries state.files).1 = (scanDailyEntries old).1 :=
      hdistinct.stamped old hrefreshed (stamps_perm_of_signature hfaithful hne hsame)
    by_cases hquiet : (scanDailyEntries old).1 ≠ [] ∧ dailyScanSignature host.sha256Hex state.files ≠ "" ∧
        dailyScanSignature host.sha256Hex state.files = dailyScanSignature host.sha256Hex old
    · obtain ⟨hold, hne, hsame⟩ := hquiet
      obtain ⟨result, hsync, hwrote⟩ := @sync_unchanged _ _ _ load _ hcached hold hne hsame
      refine ⟨result, state.db, old, hsync, ?_, hcached, hscan hsame hne, hsame, fun _ _ => ⟨hwrote, rfl⟩⟩
      rw [loadStep, hsync]
      dsimp only
      rw [if_neg (by simp [hwrote]), hrefreshed]
    · refine hrefresh (sync_refresh hcached.signature fun hrows hne hsame =>
        hquiet ⟨hcached.rows_pos_iff.mp hrows, hne, hsame⟩) fun hloaded => ?_
      obtain ⟨old', hold', hsame⟩ := hinv.loaded hloaded
      rw [hrefreshed] at hold'
      obtain rfl := Option.some.inj hold'
      by_contra hne
      have hsignature := signature_ne_empty hfaithful hne
      exact hquiet ⟨hscan hsame hsignature ▸ hne, hsignature, hsame⟩

theorem inv_step (hfaithful : Faithful host) (hinv : Inv host state) {event : Event}
    (hguard : LoadsDistinct state event) : Inv host (step host state event) := by
  cases event with
  | edit files => exact ⟨hinv.cached, hinv.unread, fun h => by cases h⟩
  | load load =>
    obtain ⟨result, db, old, hsync, hrefreshed, hcached, -, hsame, -⟩ :=
      loads_scan hfaithful hinv hguard load
    have hdb : (loadStep host state load).db = db := by rw [loadStep, hsync]
    refine ⟨fun old' hold' => ?_, fun hnone => ?_, fun _ => ⟨old, hrefreshed, ?_⟩⟩
    · rw [step, hrefreshed] at hold'
      obtain rfl := Option.some.inj hold'
      rw [step, hdb]
      exact hcached
    · rw [step, hrefreshed] at hnone
      cases hnone
    · rw [step, loadStep, hsync]
      exact hsame

/-- **One load** of such files is in step with them. -/
theorem coherent_of_inv (hfaithful : Faithful host) (hinv : Inv host state) (hdistinct : Distinct state)
    (hne : (scanDailyEntries state.files).1 ≠ []) (sqlitePath : String) (fallback : RuntimeIndexBundle) (load : Load) :
    Coherent host sqlitePath fallback state load := by
  obtain ⟨result, db, old, hsync, -, hcached, hscan, -, hquiet⟩ :=
    loads_scan hfaithful hinv hdistinct load
  have hdb : (loadStep host state load).db = db := by rw [loadStep, hsync]
  refine ⟨?_, ?_, result, by rw [hsync], fun hloaded => ?_⟩
  · have hrows : db.memoryIndex.isEmpty = false := by
      rw [List.isEmpty_eq_false_iff]
      exact List.length_pos_iff.mp (hcached.rows_pos_iff.mpr (hscan ▸ hne))
    rw [loadRuntimeIndex, hsync]
    dsimp only
    rw [hrows, if_neg Bool.false_ne_true, hscan]
    exact hcached.entries
  · rw [hdb, hcached.embeddings, hscan, hcached.nodes.dedup]
  · rw [hdb]
    exact hquiet hloaded hne

/-- After an edit, and before it where the first files have one, there is a node. -/
theorem node_before {files : List MemoryFile} {events : List Event}
    (hmeets : Meets (step host) LoadsDistinct { files } events) {n : ℕ}
    (hnode : (scanDailyEntries files).1 ≠ [] ∨ ∃ m < n, ∃ edited, events[m]? = some (.edit edited)) :
    (scanDailyEntries (before (step host) { files } events n).files).1 ≠ [] := by
  have hstep (k : ℕ) (event : Event) (hevent : events[k]? = some event)
      (h : (scanDailyEntries (before (step host) { files } events k).files).1 ≠ []) :
      (scanDailyEntries (step host (before (step host) { files } events k) event).files).1 ≠ [] := by
    cases event with
    | edit edited => exact hmeets.guard_before hevent
    | load load => exact h
  obtain hne | ⟨m, hlt, edited, hedit⟩ := hnode
  · exact before_induction (step host) (P := fun state => (scanDailyEntries state.files).1 ≠ []) n.zero_le hne
      fun k event _ => hstep k event
  · refine before_induction (step host) (P := fun state => (scanDailyEntries state.files).1 ≠ [])
      (Nat.succ_le_of_lt hlt) ?_ fun k event _ => hstep k event
    rw [before_succ_of_some (step host) hedit]
    exact hmeets.guard_before hedit

end Runs

/-- **Every load is in step with the files** once there is a node, which there is after every
edit, in every run of edits and loads from an empty database whose loads find each node in one
file and no files that look as they did at the last refresh but have other nodes. -/
theorem loads_coherent (host : Host) (hfaithful : Faithful host) (sqlitePath : String)
    (fallback : RuntimeIndexBundle) (files : List MemoryFile) (events : List Event)
    (hmeets : Meets (step host) LoadsDistinct { files } events) {n : ℕ} {load : Load}
    (hload : events[n]? = some (.load load))
    (hnode : (scanDailyEntries files).1 ≠ [] ∨ ∃ m < n, ∃ edited, events[m]? = some (.edit edited)) :
    Coherent host sqlitePath fallback (before (step host) { files } events n) load := by
  have hinv : Inv host (before (step host) { files } events n) :=
    @Meets.before _ _ (step host) LoadsDistinct (Inv host)
      (fun _ _ hinv hguard => inv_step hfaithful hinv hguard) _ _ (inv_start files) hmeets n
  exact coherent_of_inv hfaithful hinv (hmeets.guard_before hload) (node_before hmeets hnode) sqlitePath
    fallback load

/-! ## One file, and two with one node -/

open Classical in
/-- The hot state value that was sealed. -/
noncomputable def unsealed (cipher : String) : Option Json :=
  if h : ∃ value, Json.render V8Kernel.pointed value = cipher then some h.choose else none

/-- A host that writes hot state in the clear. -/
noncomputable def clearHost : Host where
  sha256Hex := V8Kernel.hexText
  sealValue _ := Json.render V8Kernel.pointed
  openValue := unsealed
  vectorBlob text := text.toUTF8.data.toList
  uniqueError table := "UNIQUE constraint failed: " ++ table

theorem clearHost_faithful : Faithful clearHost where
  injective := V8Kernel.hexText_injective
  ne_empty text := (V8Kernel.isHex_hexText text).1
  opened nonce text := by
    have hexists : ∃ value, Json.render V8Kernel.pointed value = Json.render V8Kernel.pointed (.str text) :=
      ⟨_, rfl⟩
    change unsealed (Json.render V8Kernel.pointed (.str text)) = _
    rw [unsealed, dif_pos hexists]
    exact congrArg some (Json.render_injective V8Kernel.floatText_pointed hexists.choose_spec)

def dailyFile (name nodeId : String) : MemoryFile :=
  ⟨name, some ⟨12 + nodeId.length, 0, some ("node_id: " ++ nodeId)⟩⟩

/-- The index is loaded with one daily file, which then gets another node. -/
def grown : List Event :=
  [.load {}, .edit [⟨"2026-01-01.md", some ⟨14, 1, some "node_id: bb"⟩⟩], .load {}]

theorem refreshed_first {host : Host} (hfaithful : Faithful host) (files : List MemoryFile)
    (hnodes : ((scanDailyEntries files).1.map IndexEntry.nodeId).Nodup) (load : Load) :
    (loadStep host { files } load).refreshed = some files := by
  have hstart : getHotStateJson host {} "daily_scan_signature" = .ok none := by
    simp [getHotStateJson]
  obtain ⟨result, db, hresult, hwrote, -⟩ := @refresh_cached host {} files load hfaithful hnodes
  rw [loadStep, sync_refresh hstart fun _ h => h, hresult]
  dsimp only
  rw [if_pos hwrote]

theorem loads_coherent_grown : Coherent clearHost "runtime-index.sqlite" {}
    (before (step clearHost) { files := [dailyFile "2026-01-01.md" "a"] } grown 2) {} := by
  refine loads_coherent clearHost clearHost_faithful "runtime-index.sqlite" {}
    [dailyFile "2026-01-01.md" "a"] grown ⟨?_, ?_, ?_, trivial⟩ (n := 2) rfl (.inr ⟨1, by decide, _, rfl⟩)
  · exact ⟨by decide, fun _ h => by cases h⟩
  · exact (by decide : (scanDailyEntries [⟨"2026-01-01.md", some ⟨14, 1, some "node_id: bb"⟩⟩]).1 ≠ [])
  · refine ⟨by decide, fun old hold hstamps => ?_⟩
    have hfirst := refreshed_first clearHost_faithful [dailyFile "2026-01-01.md" "a"] (by decide) {}
    obtain rfl := Option.some.inj (hold.symm.trans hfirst)
    have hdiffers : ¬(stamps [⟨"2026-01-01.md", some ⟨14, 1, some "node_id: bb"⟩⟩]).Perm
      (stamps [dailyFile "2026-01-01.md" "a"]) := by decide
    exact absurd hstamps hdiffers

/-- The node `a` of two days. -/
def twoDays : List MemoryFile := [dailyFile "2026-01-01.md" "a", dailyFile "2026-01-02.md" "a"]

theorem sync_twoDays :
    (syncSqliteRuntimeIndex clearHost {} twoDays {}).1 =
      .error "db_embedding_insert_failed:UNIQUE constraint failed: embeddings" := by
  have hrows : ¬(((scanDailyEntries twoDays).1.map IndexEntry.nodeId).Nodup) := by decide
  have hindex := @SqlTable.replaceAll_eq _ _ _ indexKey []
    ((scanDailyEntries twoDays).1.map (toIndexRow "daily_scan_authority" ""))
  rw [if_pos (indexKeys_nodup twoDays _ _)] at hindex
  have hembeddings := @SqlTable.replaceAll_eq _ _ _ EmbeddingRow.embeddingId []
    ((scanDailyEntries twoDays).1.map (toEmbeddingRow clearHost "daily_scan_authority" ""))
  rw [if_neg fun h => hrows ((embeddingIds_nodup_iff clearHost _ _ _).mp h)] at hembeddings
  have hstart : getHotStateJson clearHost {} "daily_scan_signature" = .ok none := by
    simp [getHotStateJson]
  rw [sync_refresh hstart fun _ h => h]
  simp only [refresh, replaceIndexEntries, hindex, replaceEmbeddings, hembeddings]
  rfl

/-- The first load after the node was repeated fails. -/
theorem repeated_node_not_coherent : ¬Coherent clearHost "runtime-index.sqlite" {}
    (before (step clearHost) { files := [] } [.edit twoDays, .load {}] 1) {} := by
  intro h
  obtain ⟨result, hresult, -⟩ := h.synced
  have herror := hresult.symm.trans sync_twoDays
  cases herror

end Protheus.MemoryIndex
