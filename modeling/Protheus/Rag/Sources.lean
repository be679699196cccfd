import Protheus.Rag.Ingest

/-!
What `ingest_payload` reads of the index before and what each file adds to the new one.

A run may reuse the chunks of a source that stands in the index once, and then all of
them (`reusableChunks_eq_some`).  The loop over the files is a concatenation
(`foldl_gatherFile`).  The type of a supported file is a matter of its path in the index,
although different files can have one path there (`mime_eq_pathMime`).
-/

namespace Protheus.Rag

open Std (ExtTreeMap)

/-! ## The index before, by source -/

section Previous

theorem chunksBySource_get (chunks : List RagChunk) (p : String) :
    ((chunksBySource chunks)[p]?).getD [] = chunks.filter (·.sourcePath = p) := by
  have hfold (rows : ExtTreeMap String (List RagChunk)) : ((chunks.foldl (fun rows chunk =>
      rows.insert chunk.sourcePath ((rows[chunk.sourcePath]?).getD [] ++ [chunk])) rows)[p]?).getD [] =
        (rows[p]?).getD [] ++ chunks.filter (·.sourcePath = p) := by
    induction chunks generalizing rows with
    | nil => simp
    | cons chunk chunks ih =>
      rw [List.foldl_cons, ih, ExtTreeMap.getElem?_insert]
      by_cases h : chunk.sourcePath = p
      · subst h
        simp
      · simp [h]
  rw [chunksBySource, hfold]
  simp

/-- What the second loop leaves for a path: the chunks of a source that stands alone. -/
theorem takeSource_get (sources : List RagSource)
    (rows : ExtTreeMap String (List RagChunk)) (out : ExtTreeMap String (String × List RagChunk))
    (p : String) :
    (sources.foldl takeSource (rows, out)).2[p]? =
      match sources.filter (·.path = p) with
      | [] => out[p]?
      | [source] => some (source.sha256, (rows[p]?).getD [])
      | _ :: source :: rest => some (((source :: rest).getLastD source).sha256, []) := by
  induction sources generalizing rows out with
  | nil => rfl
  | cons a sources ih =>
    rw [List.foldl_cons, takeSource, ih]
    by_cases h : a.path = p
    · subst h
      rw [List.filter_cons_of_pos (by simp)]
      generalize sources.filter (·.path = a.path) = others
      match others with
      | [] => simp
      | [source] => simp
      | first :: source :: rest => simp [List.getLast?_cons]
    · rw [List.filter_cons_of_neg (by simpa using h)]
      generalize sources.filter (·.path = p) = others
      match others with
      | [] => simp [ExtTreeMap.getElem?_insert, h]
      | [source] => simp [ExtTreeMap.getElem?_erase, h]
      | first :: source :: rest => rfl

/-- **What a run may reuse** are all chunks of a source that stands in the index once. -/
theorem reusableChunks_eq_some {previous : Option RagIndex} {rel sha : String}
    {chunks : List RagChunk} (h : reusableChunks (prevBySource previous) rel sha = some chunks) :
    ∃ index source, previous = some index ∧ index.sources.filter (·.path = rel) = [source] ∧
      source.sha256 = sha ∧ chunks = index.chunks.filter (·.sourcePath = rel) := by
  unfold reusableChunks at h
  split at h
  · cases h
  · rename_i prevSha prevChunks hprev
    split at h
    · rename_i hsame
      obtain rfl := Option.some.inj h
      obtain ⟨rfl, hne⟩ := hsame
      cases previous with
      | none => simp [prevBySource] at hprev
      | some index =>
        refine ⟨index, ?_⟩
        rw [prevBySource, takeSource_get, chunksBySource_get] at hprev
        split at hprev
        · simp at hprev
        · rename_i source hone
          obtain ⟨hsha, hchunks⟩ := Prod.mk.inj (Option.some.inj hprev)
          exact ⟨source, rfl, hone, hsha, hchunks.symm⟩
        · exact absurd (Prod.mk.inj (Option.some.inj hprev)).2.symm hne
    · cases h

end Previous

/-! ## What a file adds -/

section File

variable (host : Host) (base : String)

/-- The path of a file from the root. -/
def relOf (file : Found) : String := normalizeRelPath base file.names

def mimeOf (file : Found) : String := detectMime (file.names.getLastD "")

def textOf (file : Found) : Option String := file.bytes.bind (readTextPayload (mimeOf file))

variable (args : Args) (previous : Option RagIndex)

/-- The chunks taken over for a file. -/
def reuseOf (file : Found) : Option (List RagChunk) :=
  if args.isIncremental then
    file.bytes.bind fun bytes =>
      reusableChunks (prevBySource previous) (relOf base file) (host.sha256Hex bytes)
  else none

/-- The chunks of a file under the settings of a run. -/
def freshOf (file : Found) : Option (List RagChunk) :=
  (textOf file).map fun text =>
    freshChunks host (relOf base file) (mimeOf file) text args.size args.overlap

/-- The chunks a file adds, `none` when it adds no source. -/
def chunksOf (file : Found) : Option (List RagChunk) :=
  (reuseOf host base args previous file).or (freshOf host base args file)

/-- The source a file adds with its chunks. -/
def sourceOf (file : Found) (chunks : List RagChunk) : RagSource where
  path := relOf base file
  mime := mimeOf file
  sha256 := (file.bytes.map host.sha256Hex).getD ""
  chunkIds := chunks.map (·.chunkId)

variable {host base args previous}

theorem bytes_of_chunksOf {file : Found} {chunks : List RagChunk}
    (h : chunksOf host base args previous file = some chunks) : ∃ bytes, file.bytes = some bytes := by
  cases hbytes : file.bytes with
  | some bytes => exact ⟨bytes, rfl⟩
  | none => simp [chunksOf, reuseOf, freshOf, textOf, hbytes] at h

/-- One turn of the loop. -/
theorem gatherFile_eq (host : Host) (base : String) (args : Args) (previous : Option RagIndex)
    (gathered : Gathered) (file : Found) :
    (gatherFile host base args (prevBySource previous) gathered file).chunks =
        gathered.chunks ++ (chunksOf host base args previous file).getD [] ∧
      (gatherFile host base args (prevBySource previous) gathered file).sources = gathered.sources ++
        ((chunksOf host base args previous file).map (sourceOf host base file)).toList ∧
      (gatherFile host base args (prevBySource previous) gathered file).activeSources =
        gathered.activeSources ++ (file.bytes.map fun _ => relOf base file).toList := by
  unfold gatherFile
  cases hbytes : file.bytes with
  | none => simp [chunksOf, reuseOf, freshOf, textOf, hbytes]
  | some bytes =>
    have hreuse : reuseOf host base args previous file = if args.isIncremental then
        reusableChunks (prevBySource previous) (relOf base file) (host.sha256Hex bytes) else none := by
      rw [reuseOf, hbytes, Option.bind_some]
    dsimp only
    rw [chunksOf, hreuse, ← relOf]
    split
    · rename_i chunks hchunks
      rw [hchunks]
      simp [Gathered.add, sourceOf, hbytes, mimeOf]
    · rename_i hchunks
      rw [hchunks, freshOf, textOf, hbytes, Option.bind_some, Option.none_or, ← mimeOf]
      split
      · rename_i htext
        simp [htext]
      · rename_i text htext
        simp [htext, Gathered.add, sourceOf, hbytes]

/-- The whole loop. -/
theorem foldl_gatherFile (host : Host) (base : String) (args : Args) (previous : Option RagIndex)
    (files : List Found) (gathered : Gathered) :
    (files.foldl (gatherFile host base args (prevBySource previous)) gathered).chunks =
        gathered.chunks ++
          (files.flatMap fun file => (chunksOf host base args previous file).getD []) ∧
      (files.foldl (gatherFile host base args (prevBySource previous)) gathered).sources =
        gathered.sources ++ (files.flatMap fun file =>
          ((chunksOf host base args previous file).map (sourceOf host base file)).toList) ∧
      (files.foldl (gatherFile host base args (prevBySource previous)) gathered).activeSources =
        gathered.activeSources ++
          files.flatMap fun file => (file.bytes.map fun _ => relOf base file).toList := by
  induction files generalizing gathered with
  | nil => simp
  | cons file files ih =>
    obtain ⟨hchunks, hsources, hactive⟩ :=
      gatherFile_eq host base args previous gathered file
    obtain ⟨ihchunks, ihsources, ihactive⟩ :=
      ih (gatherFile host base args (prevBySource previous) gathered file)
    rw [List.foldl_cons, ihchunks, ihsources, ihactive, hchunks, hsources, hactive]
    simp only [List.flatMap_cons, List.append_assoc, and_self]

end File

/-! ## The type of a file -/

section Mime

/-- The type that the extension of a path gives. -/
def pathMime (rel : String) : String :=
  mimeOfExtension (RustStd.toAsciiLowercase
    (String.ofList (rel.toList.reverse.takeWhile (· ≠ '.')).reverse))

/-- No supported extension has a backslash. -/
theorem backslash_notMem {ext : String} (h : mimeOfExtension ext ≠ "application/octet-stream") :
    '\\' ∉ ext.toList := by
  unfold mimeOfExtension at h
  split at h
  all_goals first | decide | exact absurd rfl h

theorem exists_intercalate_append (init : List (List Char)) (last : List Char) :
    ∃ front, ['/'].intercalate (init ++ [last]) = front ++ last := by
  induction init with
  | nil => exact ⟨[], by simp [List.intercalate]⟩
  | cons a init ih =>
    obtain ⟨front, ih⟩ := ih
    cases init with
    | nil => exact ⟨a ++ ['/'], by simp [List.intercalate]⟩
    | cons b init =>
      rw [List.cons_append, List.cons_append, Words.intercalate_cons_cons]
      rw [List.cons_append] at ih
      exact ⟨a ++ '/' :: front, by rw [ih, List.append_assoc, List.cons_append]⟩

/-- The extension of a name is what stands behind its last point. -/
theorem extension_eq_some {name ext : String} (h : extension name = some ext) :
    ∃ stem, name.toList.reverse = ext.toList.reverse ++ '.' :: stem ∧ '.' ∉ ext.toList := by
  unfold extension at h
  have hsplit := List.takeWhile_append_dropWhile (p := (· ≠ '.')) (l := name.toList.reverse)
  have hfree : '.' ∉ name.toList.reverse.takeWhile (· ≠ '.') := fun hmem => by
    simpa using List.mem_takeWhile_imp hmem
  have hpoint (c : Char) (stem : List Char) (hdrop : name.toList.reverse.dropWhile (· ≠ '.') = c :: stem) :
      c = '.' := by
    have hne : name.toList.reverse.dropWhile (· ≠ '.') ≠ [] := by
      rw [hdrop]
      exact List.cons_ne_nil c stem
    have hhead := List.head_dropWhile_not (· ≠ '.') hne
    simp only [hdrop, List.head_cons] at hhead
    exact not_not.mp (of_decide_eq_false hhead)
  generalize name.toList.reverse.dropWhile (· ≠ '.') = tail at hsplit hpoint
  generalize name.toList.reverse.takeWhile (· ≠ '.') = front at hsplit hfree h
  dsimp only at h
  rw [← hsplit, List.drop_left] at h
  cases tail with
  | nil => cases h
  | cons c stem =>
    obtain rfl := hpoint c stem rfl
    dsimp only at h
    split at h
    · cases h
    · obtain rfl := Option.some.inj h
      refine ⟨stem, ?_, ?_⟩
      · rw [← hsplit, String.toList_ofList, List.reverse_reverse]
      · rwa [String.toList_ofList, List.mem_reverse]

/-- **A supported file has the type of its path**, however the path was written. -/
theorem mime_eq_pathMime (base : String) {names : List String}
    (h : detectMime (names.getLastD "") ≠ "application/octet-stream") :
    detectMime (names.getLastD "") = pathMime (normalizeRelPath base names) := by
  obtain rfl | ⟨init, name, rfl⟩ := List.eq_nil_or_concat names
  · exact absurd (by decide) h
  rw [List.concat_eq_append, List.getLastD_concat] at h ⊢
  cases hext : extension name with
  | none =>
    rw [detectMime, hext] at h
    exact absurd (by decide) h
  | some ext =>
    rw [detectMime, hext, Option.getD_some] at h ⊢
    obtain ⟨stem, hname, hpoint⟩ := extension_eq_some hext
    have hfree : '\\' ∉ ext.toList := by
      intro hmem
      refine backslash_notMem h ?_
      rw [RustStd.toAsciiLowercase, String.toList_ofList, List.mem_map]
      exact ⟨'\\', hmem, by decide⟩
    have hkeep : ext.toList.reverse.map (fun c => if c = '\\' then '/' else c) = ext.toList.reverse := by
      refine (List.map_congr_left fun c hc => ?_).trans (List.map_id _)
      rw [if_neg]
      · rfl
      · rintro rfl
        exact hfree (List.mem_reverse.mp hc)
    obtain ⟨front, hfront⟩ := exists_intercalate_append (init.map String.toList) name.toList
    have hnames : (init ++ [name]).map String.toList = init.map String.toList ++ [name.toList] :=
      List.map_append
    have hrel : (normalizeRelPath base (init ++ [name])).toList.reverse.takeWhile (· ≠ '.') =
        ext.toList.reverse := by
      rw [normalizeRelPath, String.toList_ofList, hnames, hfront, ← List.append_assoc,
        ← List.map_reverse, List.reverse_append, hname, List.append_assoc, List.map_append, hkeep,
        List.takeWhile_append_of_pos]
      · simp
      · intro c hc
        simp only [ne_eq, decide_not, Bool.not_eq_true', decide_eq_false_iff_not]
        rintro rfl
        exact hpoint (List.mem_reverse.mp hc)
    rw [pathMime, hrel, List.reverse_reverse, String.ofList_toList]

mutual

theorem supported_of_gatherTree : ∀ (tree : Tree) (names : List String),
    ∀ file ∈ gatherTree names tree, mimeOf file ≠ "application/octet-stream"
  | .file bytes, names, file, hfile => by
    rw [gatherTree] at hfile
    split at hfile
    · cases hfile
    · rename_i hmime
      rw [List.mem_singleton.mp hfile]
      exact hmime
  | .dir entries, names, file, hfile => by
    rw [gatherTree] at hfile
    exact supported_of_gatherEntries entries names file hfile

theorem supported_of_gatherEntries : ∀ (entries : List (String × Tree)) (names : List String),
    ∀ file ∈ gatherEntries names entries, mimeOf file ≠ "application/octet-stream"
  | [], names, file, hfile => by
    rw [gatherEntries] at hfile
    cases hfile
  | entry :: rest, names, file, hfile => by
    rw [gatherEntries, List.mem_append] at hfile
    cases hfile with
    | inl hfile => exact supported_of_gatherEntry entry names file hfile
    | inr hfile => exact supported_of_gatherEntries rest names file hfile

theorem supported_of_gatherEntry : ∀ (entry : String × Tree) (names : List String),
    ∀ file ∈ gatherEntry names entry, mimeOf file ≠ "application/octet-stream"
  | (name, tree), names, file, hfile => by
    rw [gatherEntry] at hfile
    exact supported_of_gatherTree tree (names ++ [name]) file hfile

end

theorem mimeOf_eq (base : String) {run : Run} {file : Found} (hfile : file ∈ run.files) :
    mimeOf file = pathMime (relOf base file) := by
  have hmem := List.mem_of_mem_take hfile
  rw [List.mem_insertionSort] at hmem
  exact mime_eq_pathMime base (supported_of_gatherEntries run.entries [] file hmem)

end Mime

end Protheus.Rag
