import Protheus.Lib.Runs
import Protheus.Rag.Sources
import Protheus.V8Kernel

/-!
When an incremental run stores what a full run would.

An index is `Sound` when the chunks of every source that stands in it once were cut from
a text with the digest of the source, under the settings `Tracked` remembers.  Every run
keeps this (`sound_step`), so an incremental run takes over the right text, but cut the
way an earlier run wanted it.  It agrees with a full run exactly when the settings cut
the text alike; and its tombstones are exact exactly when no indexed file has lost its
text (`incremental_iff`).
-/

namespace Protheus.Rag

open Runs

/-- The index with the settings each source was last cut under. -/
structure Tracked where
  index : Option RagIndex := none
  cut : String → Option (ℕ × ℕ) := fun _ => none

/-- Whether a run cuts a file itself. -/
def cutsAnew (host : Host) (base : String) (previous : Option RagIndex) (run : Run) (file : Found) :
    Bool :=
  (reuseOf host base run.args previous file).isNone && (textOf file).isSome

def trackedStep (host : Host) (base : String) (tracked : Tracked) (run : Run) : Tracked where
  index := step host base tracked.index run
  cut path :=
    if run.files.any fun file => relOf base file == path && cutsAnew host base tracked.index run file then
      some (run.args.size, run.args.overlap)
    else tracked.cut path

theorem index_tracked (host : Host) (base : String) (history : List Run) (tracked : Tracked) :
    (Runs.run (trackedStep host base) tracked history).index =
      Runs.run (step host base) tracked.index history := by
  induction history generalizing tracked with
  | nil => rfl
  | cons run history ih =>
    rw [run_cons, run_cons, ih]
    rfl

/-! ## Sorted chunks -/

section Sorted

instance : Std.Total chunkLe where
  total a b := by
    obtain h | h | h := lt_trichotomy a.sourcePath b.sourcePath
    · exact .inl (.inl h)
    · obtain ho | ho := le_total a.offsetStart b.offsetStart
      · exact .inl (.inr ⟨h, ho⟩)
      · exact .inr (.inr ⟨h.symm, ho⟩)
    · exact .inr (.inl h)

instance : IsTrans RagChunk chunkLe where
  trans a b c hab hbc := by
    obtain hab | ⟨hab, hab'⟩ := hab
    · obtain hbc | ⟨hbc, -⟩ := hbc
      · exact .inl (hab.trans hbc)
      · exact .inl (hbc ▸ hab)
    · obtain hbc | ⟨hbc, hbc'⟩ := hbc
      · exact .inl (hab ▸ hbc)
      · exact .inr ⟨hab.trans hbc, hab'.trans hbc'⟩

/-- Chunks of one source whose places are in order are determined by what they are. -/
theorem eq_of_perm {path : String} {chunks chunks' : List RagChunk}
    (hpath : ∀ chunk ∈ chunks, chunk.sourcePath = path)
    (hordered : chunks.Pairwise fun a b => a.offsetStart < b.offsetStart)
    (hsorted : chunks'.Pairwise chunkLe) (hperm : chunks.Perm chunks') : chunks = chunks' := by
  have hle : chunks.Pairwise chunkLe := by
    refine hordered.imp_of_mem fun {a b} ha hb hlt => .inr ⟨?_, hlt.le⟩
    rw [hpath a ha, hpath b hb]
  refine hperm.eq_of_pairwise (fun a b ha hb hab hba => ?_) hle hsorted
  have hb := hperm.mem_iff.mpr hb
  have hsame : a.offsetStart = b.offsetStart := by
    obtain hab | ⟨-, hab⟩ := hab
    · rw [hpath a ha, hpath b hb] at hab
      exact absurd hab (lt_irrefl path)
    · obtain hba | ⟨-, hba⟩ := hba
      · rw [hpath a ha, hpath b hb] at hba
        exact absurd hba (lt_irrefl path)
      · exact le_antisymm hab hba
  have hnodup : (chunks.map (·.offsetStart)).Nodup := List.pairwise_map.mpr (hordered.imp fun hlt => hlt.ne)
  exact List.inj_on_of_nodup_map hnodup ha hb hsame

variable {host : Host} {rel mime text : String} {size overlap : ℕ}

theorem path_of_mem_freshChunks : ∀ chunk ∈ freshChunks host rel mime text size overlap,
    chunk.sourcePath = rel := by
  intro chunk hchunk
  obtain ⟨piece, -, rfl⟩ := List.mem_map.mp hchunk
  rfl

theorem pairwise_freshChunks (hsize : 0 < size) : (freshChunks host rel mime text size overlap).Pairwise
    fun a b => a.offsetStart < b.offsetStart := by
  refine List.pairwise_map.mpr ?_
  rw [chunkText]
  split
  · exact .nil
  · refine pairwise_chunkFrom ?_
    rw [safeOverlap]
    omega

theorem freshChunks_inj {size' overlap' : ℕ} (h : freshChunks host rel mime text size overlap =
    freshChunks host rel mime text size' overlap') :
    chunkText text size overlap = chunkText text size' overlap' := by
  refine List.map_injective_iff.mpr (fun a b hab => ?_) h
  exact Prod.ext (congrArg RagChunk.offsetStart hab)
    (Prod.ext (congrArg RagChunk.offsetEnd hab) (congrArg RagChunk.text hab))

end Sorted

/-! ## Sound indexes -/

theorem le_size (args : Args) : 256 ≤ args.size := Nat.le_max_left ..

/-- The chunks of a source were cut from a text with its digest, under these settings. -/
structure CutFrom (host : Host) (index : RagIndex) (path sha : String) (cut : Option (ℕ × ℕ))
    (bytes : List UInt8) (text : String) (size overlap : ℕ) : Prop where
  settings : cut = some (size, overlap)
  size_pos : 2 ≤ size
  digest : host.sha256Hex bytes = sha
  read : readTextPayload (pathMime path) bytes = some text
  chunks : index.chunks.filter (·.sourcePath = path) =
    freshChunks host path (pathMime path) text size overlap

/-- Every source that stands in the index once was cut as remembered. -/
def Sound (host : Host) (tracked : Tracked) : Prop :=
  ∀ index, tracked.index = some index → ∀ path source, index.sources.filter (·.path = path) = [source] →
    ∃ bytes text size overlap,
      CutFrom host index path source.sha256 (tracked.cut path) bytes text size overlap

section Sound

variable {host : Host} {base : String} {tracked : Tracked} {run : Run} {file : Found}

/-- **What is taken over** is the text of the file, cut under the settings remembered. -/
theorem reuse_sound (hsha : Function.Injective host.sha256Hex) (hsound : Sound host tracked)
    (hfile : file ∈ run.files) {chunks : List RagChunk}
    (h : reuseOf host base run.args tracked.index file = some chunks) :
    ∃ text size overlap, textOf file = some text ∧ 2 ≤ size ∧
      tracked.cut (relOf base file) = some (size, overlap) ∧
      chunks = freshChunks host (relOf base file) (mimeOf file) text size overlap := by
  unfold reuseOf at h
  split at h
  · obtain ⟨bytes, hbytes, hreuse⟩ := Option.bind_eq_some_iff.mp h
    obtain ⟨index, source, hindex, hone, hdigest, rfl⟩ := reusableChunks_eq_some hreuse
    obtain ⟨bytes', text, size, overlap, hcut⟩ := hsound index hindex _ source hone
    obtain rfl : bytes' = bytes := hsha (hcut.digest.trans hdigest)
    have hmime := mimeOf_eq base hfile
    refine ⟨text, size, overlap, ?_, hcut.size_pos, hcut.settings, ?_⟩
    · rw [textOf, hbytes, Option.bind_some, hmime, hcut.read]
    · rw [hcut.chunks, hmime]
  · cases h

/-- A file adds a source exactly when it has a text. -/
theorem chunksOf_isSome (hsha : Function.Injective host.sha256Hex) (hsound : Sound host tracked)
    (hfile : file ∈ run.files) :
    (chunksOf host base run.args tracked.index file).isSome = (textOf file).isSome := by
  rw [chunksOf]
  cases hreuse : reuseOf host base run.args tracked.index file with
  | none => simp [freshOf]
  | some chunks =>
    obtain ⟨text, size, overlap, htext, -⟩ := reuse_sound hsha hsound hfile hreuse
    rw [Option.some_or, htext]
    rfl

/-- What a file adds is cut from its text, under the settings of the run or, when it is
taken over, under those remembered. -/
theorem chunks_of_file (hsha : Function.Injective host.sha256Hex) (hsound : Sound host tracked)
    (hfile : file ∈ run.files) {chunks : List RagChunk}
    (h : chunksOf host base run.args tracked.index file = some chunks) :
    ∃ text size overlap, textOf file = some text ∧ 2 ≤ size ∧
      chunks = freshChunks host (relOf base file) (mimeOf file) text size overlap ∧
      if cutsAnew host base tracked.index run file then
        (size, overlap) = (run.args.size, run.args.overlap)
      else tracked.cut (relOf base file) = some (size, overlap) := by
  rw [chunksOf] at h
  cases hreuse : reuseOf host base run.args tracked.index file with
  | none =>
    rw [hreuse, Option.none_or] at h
    obtain ⟨text, htext, rfl⟩ := Option.map_eq_some_iff.mp h
    have hsize := le_size run.args
    refine ⟨text, run.args.size, run.args.overlap, htext, by omega, rfl, ?_⟩
    simp [cutsAnew, hreuse, htext]
  | some taken =>
    obtain ⟨text, size, overlap, htext, hsize, hcut, rfl⟩ := reuse_sound hsha hsound hfile hreuse
    rw [hreuse, Option.some_or] at h
    obtain rfl := Option.some.inj h
    refine ⟨text, size, overlap, htext, hsize, rfl, ?_⟩
    simp [cutsAnew, hreuse, hcut]

/-! ### One run -/

theorem sources_eq (host : Host) (base : String) (previous : Option RagIndex) (run : Run) :
    (ingestPayload host base previous run).index.sources = (run.files.flatMap fun file =>
      ((chunksOf host base run.args previous file).map (sourceOf host base file)).toList).insertionSort
        fun a b => a.path ≤ b.path := by
  have hloop := (foldl_gatherFile host base run.args previous run.files {}).2.1
  rw [List.nil_append] at hloop
  exact congrArg _ hloop

theorem chunks_eq (host : Host) (base : String) (previous : Option RagIndex) (run : Run) :
    (ingestPayload host base previous run).index.chunks = (run.files.flatMap fun file =>
      (chunksOf host base run.args previous file).getD []).insertionSort chunkLe := by
  have hloop := (foldl_gatherFile host base run.args previous run.files {}).1
  rw [List.nil_append] at hloop
  exact congrArg _ hloop

theorem sources_perm (host : Host) (base : String) (previous : Option RagIndex) (run : Run) :
    (ingestPayload host base previous run).index.sources.Perm (run.files.flatMap fun file =>
      ((chunksOf host base run.args previous file).map (sourceOf host base file)).toList) := by
  rw [sources_eq]
  exact List.perm_insertionSort _ _

theorem chunks_perm (host : Host) (base : String) (previous : Option RagIndex) (run : Run) :
    (ingestPayload host base previous run).index.chunks.Perm (run.files.flatMap fun file =>
      (chunksOf host base run.args previous file).getD []) := by
  rw [chunks_eq]
  exact List.perm_insertionSort _ _

theorem sorted_chunks (previous : Option RagIndex) (run : Run) :
    (ingestPayload host base previous run).index.chunks.Pairwise chunkLe :=
  List.pairwise_insertionSort _ _

/-- A concatenation with one element has one part that is not empty. -/
theorem flatMap_eq_singleton {α β : Type*} {g : α → List β} {x : β} :
    ∀ {l : List α}, l.flatMap g = [x] →
      ∃ before a after, l = before ++ a :: after ∧ g a = [x] ∧ ∀ b ∈ before ++ after, g b = []
  | a :: l, h => by
    rw [List.flatMap_cons, List.append_eq_singleton_iff] at h
    obtain ⟨ha, hl⟩ | ⟨ha, hl⟩ := h
    · obtain ⟨before, b, after, rfl, hb, hothers⟩ := flatMap_eq_singleton hl
      exact ⟨a :: before, b, after, rfl, hb, List.forall_mem_cons.mpr ⟨ha, hothers⟩⟩
    · exact ⟨[], a, l, rfl, ha, List.flatMap_eq_nil_iff.mp hl⟩

theorem path_of_mem_chunksOf (hsha : Function.Injective host.sha256Hex) (hsound : Sound host tracked)
    (hfile : file ∈ run.files) {chunks : List RagChunk}
    (h : chunksOf host base run.args tracked.index file = some chunks) :
    ∀ chunk ∈ chunks, chunk.sourcePath = relOf base file := by
  obtain ⟨text, size, overlap, -, -, rfl, -⟩ := chunks_of_file hsha hsound hfile h
  exact path_of_mem_freshChunks

/-- A file that adds no source under a path adds no chunk under it. -/
theorem chunkless (hsha : Function.Injective host.sha256Hex) (hsound : Sound host tracked)
    (hfile : file ∈ run.files) {path : String}
    (h : chunksOf host base run.args tracked.index file = none ∨ relOf base file ≠ path) :
    ((chunksOf host base run.args tracked.index file).getD []).filter (·.sourcePath = path) = [] := by
  cases hchunks : chunksOf host base run.args tracked.index file with
  | none => rfl
  | some chunks =>
    rw [hchunks] at h
    refine List.filter_eq_nil_iff.mpr fun chunk hchunk => ?_
    rw [path_of_mem_chunksOf hsha hsound hfile hchunks chunk hchunk]
    simpa using h

/-- The file of a source that stands in the index once, and its chunks. -/
theorem file_of_source (hsha : Function.Injective host.sha256Hex) (hsound : Sound host tracked)
    {path : String} {source : RagSource}
    (h : (ingestPayload host base tracked.index run).index.sources.filter (·.path = path) = [source]) :
    ∃ file ∈ run.files, ∃ chunks, chunksOf host base run.args tracked.index file = some chunks ∧
      relOf base file = path ∧ source = sourceOf host base file chunks ∧
      ((ingestPayload host base tracked.index run).index.chunks.filter (·.sourcePath = path)).Perm
        chunks ∧
      ∀ other ∈ run.files, cutsAnew host base tracked.index run other = true →
        relOf base other = path → other = file := by
  have hperm := (sources_perm host base tracked.index run).filter (·.path = path)
  rw [h, List.filter_flatMap] at hperm
  obtain ⟨before, file, after, hfiles, hfile, hothers⟩ :=
    flatMap_eq_singleton (List.perm_singleton.mp hperm.symm)
  have hmem : file ∈ run.files := by simp [hfiles]
  have hin {other : Found} (hother : other ∈ before ++ after) : other ∈ run.files := by
    rw [hfiles]
    obtain hother | hother := List.mem_append.mp hother <;> simp [hother]
  -- the others add no source under this path, and so no chunk
  have hnone {other : Found} (hother : other ∈ before ++ after) :
      chunksOf host base run.args tracked.index other = none ∨ relOf base other ≠ path := by
    have hempty := hothers other hother
    cases hchunks : chunksOf host base run.args tracked.index other with
    | none => exact .inl rfl
    | some chunks =>
      refine .inr fun hpath => ?_
      rw [hchunks] at hempty
      simp [sourceOf, hpath] at hempty
  cases hchunks : chunksOf host base run.args tracked.index file with
  | none =>
    rw [hchunks] at hfile
    cases hfile
  | some chunks =>
    have hpath : relOf base file = path ∧ source = sourceOf host base file chunks := by
      rw [hchunks, Option.map_some, Option.toList_some] at hfile
      have hone : sourceOf host base file chunks ∈ [sourceOf host base file chunks].filter
          (·.path = path) ∧ source = sourceOf host base file chunks := by
        have hsource : source ∈ [sourceOf host base file chunks].filter (·.path = path) := by
          rw [hfile]
          exact List.mem_singleton_self source
        have heq := List.mem_singleton.mp (List.mem_of_mem_filter hsource)
        exact ⟨heq ▸ hsource, heq⟩
      exact ⟨of_decide_eq_true (List.mem_filter.mp hone.1).2, hone.2⟩
    refine ⟨file, hmem, chunks, hchunks, hpath.1, hpath.2, ?_, fun other hother hnew hrel => ?_⟩
    · have hfilter := (chunks_perm host base tracked.index run).filter
        (·.sourcePath = path)
      have hself : chunks.filter (·.sourcePath = path) = chunks :=
        List.filter_eq_self.mpr fun chunk hchunk => by
          simpa using (path_of_mem_chunksOf hsha hsound hmem hchunks chunk hchunk).trans hpath.1
      have hbefore (other : Found) (hother : other ∈ before) :=
        chunkless hsha hsound (hin (List.mem_append_left after hother))
          (hnone (List.mem_append_left after hother))
      have hafter (other : Found) (hother : other ∈ after) :=
        chunkless hsha hsound (hin (List.mem_append_right before hother))
          (hnone (List.mem_append_right before hother))
      rwa [List.filter_flatMap, hfiles, List.flatMap_append, List.flatMap_cons,
        List.flatMap_eq_nil_iff.mpr hbefore, List.flatMap_eq_nil_iff.mpr hafter, hchunks,
        Option.getD_some, List.nil_append, List.append_nil, hself] at hfilter
    · by_contra hne
      have hother' : other ∈ before ++ after := by
        rw [hfiles, List.mem_append, List.mem_cons] at hother
        obtain hother | rfl | hother := hother
        · exact List.mem_append_left _ hother
        · exact absurd rfl hne
        · exact List.mem_append_right _ hother
      obtain hchunks | hpath := hnone hother'
      · have htext := @chunksOf_isSome host base _ _ _ hsha hsound (hin hother')
        rw [hchunks] at htext
        rw [cutsAnew, ← htext] at hnew
        simp at hnew
      · exact hpath hrel

/-- **One run** leaves a sound index. -/
theorem sound_step (hsha : Function.Injective host.sha256Hex) (hsound : Sound host tracked) :
    Sound host (trackedStep host base tracked run) := by
  intro index hindex path source hone
  obtain rfl := Option.some.inj hindex
  obtain ⟨file, hfile, chunks, hchunks, hpath, rfl, hperm, honly⟩ := file_of_source hsha hsound hone
  obtain ⟨text, size, overlap, htext, hsize, rfl, hcut⟩ := chunks_of_file hsha hsound hfile hchunks
  obtain ⟨bytes, hbytes⟩ := bytes_of_chunksOf hchunks
  have hmime := mimeOf_eq base hfile
  rw [hpath] at hperm hcut hmime
  refine ⟨bytes, text, size, overlap, ?_, hsize, ?_, ?_, ?_⟩
  · rw [trackedStep]
    dsimp only
    by_cases hnew : cutsAnew host base tracked.index run file = true
    · rw [if_pos hnew] at hcut
      rw [if_pos (List.any_eq_true.mpr ⟨file, hfile, by simp [hpath, hnew]⟩), hcut]
    · rw [if_neg hnew] at hcut
      rw [if_neg, hcut]
      intro hany
      obtain ⟨other, hother, hboth⟩ := List.any_eq_true.mp hany
      obtain ⟨hrel, hnew'⟩ := Bool.and_eq_true_iff.mp hboth
      exact hnew (honly other hother hnew' (by simpa using hrel) ▸ hnew')
  · simp [sourceOf, hbytes]
  · rw [textOf, hbytes, Option.bind_some, hmime] at htext
    exact htext
  · rw [← hmime]
    exact (eq_of_perm path_of_mem_freshChunks (pairwise_freshChunks (by omega))
      ((sorted_chunks tracked.index run).filter _) hperm.symm).symm

theorem sound_run (hsha : Function.Injective host.sha256Hex) (history : List Run) :
    Sound host (Runs.run (trackedStep host base) {} history) :=
  run_invariant (fun _ _ hsound => sound_step hsha hsound) history {}
    fun index hindex => by cases hindex

end Sound

/-! ## Incremental and full runs -/

/-- A run stores what a full run would, and its tombstones are exact. -/
structure Coherent (host : Host) (base : String) (previous : Option RagIndex) (run : Run) : Prop where
  sources : (ingestPayload host base previous run).index.sources =
    (ingestPayload host base previous run.full).index.sources
  chunks : (ingestPayload host base previous run).index.chunks =
    (ingestPayload host base previous run.full).index.chunks
  tombstones : ∀ path, path ∈ (ingestPayload host base previous run).index.tombstones ↔
    path ∈ previousPaths previous ∧
      path ∉ (ingestPayload host base previous run).index.sources.map (·.path)

/-- Every file that is taken over fits into one chunk or was cut under the same settings,
and no indexed file that can still be read has lost its text. -/
structure Agrees (host : Host) (base : String) (tracked : Tracked) (run : Run) : Prop where
  cut : ∀ file ∈ run.files, (reuseOf host base run.args tracked.index file).isSome →
    ∀ text, textOf file = some text → ∀ size overlap,
      tracked.cut (relOf base file) = some (size, overlap) →
        SameCut size overlap run.args.size run.args.overlap text.toList.length
  kept : ∀ file ∈ run.files, file.bytes.isSome → relOf base file ∈ previousPaths tracked.index →
    ∃ other ∈ run.files, relOf base other = relOf base file ∧ (textOf other).isSome

section Agreement

variable {host : Host} {base : String} {tracked : Tracked} {run : Run}

theorem full_isIncremental (run : Run) : run.full.args.isIncremental = false :=
  (by decide : parseBool (some "0") true = false)

/-- A full run cuts every file itself. -/
theorem chunksOf_full (previous : Option RagIndex) (file : Found) :
    chunksOf host base run.full.args previous file = freshOf host base run.args file := by
  rw [chunksOf, reuseOf, full_isIncremental, if_neg Bool.false_ne_true, Option.none_or]
  rfl

/-- Runs whose files add the same store the same. -/
theorem coherent_of_same {previous : Option RagIndex}
    (h : ∀ file ∈ run.files, chunksOf host base run.args previous file =
      chunksOf host base run.full.args previous file) :
    (ingestPayload host base previous run).index.sources =
        (ingestPayload host base previous run.full).index.sources ∧
      (ingestPayload host base previous run).index.chunks =
        (ingestPayload host base previous run.full).index.chunks := by
  have hfiles : run.full.files = run.files := rfl
  have hsources : (run.files.flatMap fun file =>
        ((chunksOf host base run.args previous file).map (sourceOf host base file)).toList) =
      run.files.flatMap fun file =>
        ((chunksOf host base run.full.args previous file).map (sourceOf host base file)).toList :=
    List.flatMap_congr fun file hfile => by rw [h file hfile]
  have hchunks : (run.files.flatMap fun file => (chunksOf host base run.args previous file).getD []) =
      run.files.flatMap fun file => (chunksOf host base run.full.args previous file).getD [] :=
    List.flatMap_congr fun file hfile => by rw [h file hfile]
  rw [sources_eq, sources_eq, chunks_eq, chunks_eq, hfiles, hsources, hchunks]
  exact ⟨rfl, rfl⟩

variable (hsha : Function.Injective host.sha256Hex) (hsound : Sound host tracked)
include hsha hsound

omit hsound in
/-- What is taken over for two files of one path is cut from one text. -/
theorem same_reuse {file other : Found} (hfile : file ∈ run.files) (hother : other ∈ run.files)
    (hrel : relOf base other = relOf base file) {chunks chunks' : List RagChunk}
    (h : reuseOf host base run.args tracked.index file = some chunks)
    (h' : reuseOf host base run.args tracked.index other = some chunks') :
    chunks' = chunks ∧ freshOf host base run.args other = freshOf host base run.args file := by
  have hmime : mimeOf other = mimeOf file := by
    rw [mimeOf_eq base hother, mimeOf_eq base hfile, hrel]
  have hincremental : run.args.isIncremental = true := by
    by_contra hnot
    rw [reuseOf, if_neg hnot] at h
    cases h
  rw [reuseOf, if_pos hincremental] at h h'
  obtain ⟨bytes, hbytes, hreuse⟩ := Option.bind_eq_some_iff.mp h
  obtain ⟨bytes', hbytes', hreuse'⟩ := Option.bind_eq_some_iff.mp h'
  obtain ⟨index, source, hindex, hone, hdigest, hchunks⟩ := reusableChunks_eq_some hreuse
  obtain ⟨index', source', hindex', hone', hdigest', hchunks'⟩ := reusableChunks_eq_some hreuse'
  rw [hindex] at hindex'
  obtain rfl := Option.some.inj hindex'
  rw [hrel, hone] at hone'
  obtain rfl := List.singleton_inj.mp hone'
  have hsame : bytes' = bytes := hsha (hdigest'.symm.trans hdigest)
  refine ⟨by rw [hchunks, hchunks', hrel], ?_⟩
  rw [freshOf, freshOf, textOf, textOf, hbytes, hbytes', hsame, hmime, hrel]

/-- Where a run stores the chunks a full run would, what it takes over is what it would
have cut. -/
theorem fresh_of_chunks_eq (heq : (ingestPayload host base tracked.index run).index.chunks =
      (ingestPayload host base tracked.index run.full).index.chunks)
    {file : Found} (hfile : file ∈ run.files) {chunks : List RagChunk}
    (h : reuseOf host base run.args tracked.index file = some chunks) :
    freshOf host base run.args file = some chunks := by
  obtain ⟨text, size, overlap, htext, hsize, hcut, hchunks⟩ := reuse_sound hsha hsound hfile h
  obtain ⟨fresh, hfresh⟩ : ∃ fresh, fresh = freshChunks host (relOf base file) (mimeOf file) text
    run.args.size run.args.overlap := ⟨_, rfl⟩
  have hfreshOf : freshOf host base run.args file = some fresh := by
    rw [freshOf, htext, Option.map_some, hfresh]
  have hperm : (run.files.flatMap fun file =>
      (chunksOf host base run.args tracked.index file).getD []).Perm
        (run.files.flatMap fun file => (freshOf host base run.args file).getD []) := by
    have hfull := chunks_perm host base tracked.index run.full
    simp only [chunksOf_full] at hfull
    exact ((chunks_perm host base tracked.index run).symm.trans (.of_eq heq)).trans hfull
  -- each file of this path adds either the same to both or what this file does
  have hcases {other : Found} (hother : other ∈ run.files) (chunk : RagChunk)
      (hpath : chunk.sourcePath = relOf base file) :
      ((chunksOf host base run.args tracked.index other).getD []).count chunk =
          ((freshOf host base run.args other).getD []).count chunk ∨
        (((chunksOf host base run.args tracked.index other).getD []).count chunk = chunks.count chunk ∧
          ((freshOf host base run.args other).getD []).count chunk = fresh.count chunk) := by
    cases hreuse : reuseOf host base run.args tracked.index other with
    | none =>
      rw [chunksOf, hreuse, Option.none_or]
      exact .inl rfl
    | some taken =>
      rw [chunksOf, hreuse, Option.some_or, Option.getD_some]
      by_cases hrel : relOf base other = relOf base file
      · obtain ⟨rfl, hsame⟩ := same_reuse hsha hfile hother hrel h hreuse
        rw [hsame, hfreshOf]
        exact .inr ⟨rfl, rfl⟩
      · obtain ⟨text', size', overlap', htext', -, -, rfl⟩ := reuse_sound hsha hsound hother hreuse
        have hzero (size overlap : ℕ) : (freshChunks host (relOf base other) (mimeOf other) text' size
            overlap).count chunk = 0 := by
          refine List.count_eq_zero.mpr fun hmem => hrel ?_
          rw [← path_of_mem_freshChunks chunk hmem, hpath]
        rw [freshOf, htext', Option.map_some, Option.getD_some, hzero, hzero]
        exact .inl rfl
  have hself : chunksOf host base run.args tracked.index file = some chunks := by
    rw [chunksOf, h, Option.some_or]
  have hcount (chunk : RagChunk) : chunks.count chunk = fresh.count chunk := by
    by_cases hpath : chunk.sourcePath = relOf base file
    · have hsum := hperm.count_eq chunk
      rw [List.count_flatMap, List.count_flatMap] at hsum
      obtain hlt | heq | hlt := lt_trichotomy (chunks.count chunk) (fresh.count chunk)
      · refine absurd hsum (List.sum_lt_sum _ _ (fun other hother => ?_) ⟨file, hfile, ?_⟩).ne
        · obtain hsame | ⟨ha, hb⟩ := hcases hother chunk hpath
          · exact hsame.le
          · simp only [Function.comp_apply, ha, hb]
            exact hlt.le
        · simpa only [Function.comp_apply, hself, hfreshOf, Option.getD_some] using hlt
      · exact heq
      · refine absurd hsum (List.sum_lt_sum _ _ (fun other hother => ?_) ⟨file, hfile, ?_⟩).ne'
        · obtain hsame | ⟨ha, hb⟩ := hcases hother chunk hpath
          · exact hsame.ge
          · simp only [Function.comp_apply, ha, hb]
            exact hlt.le
        · simpa only [Function.comp_apply, hself, hfreshOf, Option.getD_some] using hlt
    · have hzero (size overlap : ℕ) : (freshChunks host (relOf base file) (mimeOf file) text size
          overlap).count chunk = 0 :=
        List.count_eq_zero.mpr fun hmem => hpath (path_of_mem_freshChunks chunk hmem)
      rw [hchunks, hfresh, hzero, hzero]
  have hsize' := le_size run.args
  have hordered : chunks.Pairwise fun a b => a.offsetStart < b.offsetStart :=
    hchunks ▸ pairwise_freshChunks (by omega)
  have hfreshOrdered : fresh.Pairwise fun a b => a.offsetStart < b.offsetStart :=
    hfresh ▸ pairwise_freshChunks (by omega)
  have hpaths : ∀ chunk ∈ fresh, chunk.sourcePath = relOf base file := hfresh ▸ path_of_mem_freshChunks
  rw [hfreshOf]
  refine congrArg some (eq_of_perm hpaths hfreshOrdered ?_ (List.perm_iff_count.mpr hcount).symm)
  refine hordered.imp_of_mem fun {a b} ha hb hlt => .inr ⟨?_, hlt.le⟩
  have hpath : ∀ chunk ∈ chunks, chunk.sourcePath = relOf base file := hchunks ▸ path_of_mem_freshChunks
  rw [hpath a ha, hpath b hb]

/-- **Chunks.**  A run stores what a full run would exactly when every file it takes over
was cut as it would cut it. -/
theorem stores_iff : ((ingestPayload host base tracked.index run).index.sources =
        (ingestPayload host base tracked.index run.full).index.sources ∧
      (ingestPayload host base tracked.index run).index.chunks =
        (ingestPayload host base tracked.index run.full).index.chunks) ↔
    ∀ file ∈ run.files, (reuseOf host base run.args tracked.index file).isSome →
      ∀ text, textOf file = some text → ∀ size overlap,
        tracked.cut (relOf base file) = some (size, overlap) →
          SameCut size overlap run.args.size run.args.overlap text.toList.length := by
  have hclean {file : Found} {text : String} (h : textOf file = some text) : Cleaned text.toList := by
    obtain ⟨bytes, -, hread⟩ := Option.bind_eq_some_iff.mp h
    exact cleaned_readTextPayload hread
  have hsize := le_size run.args
  constructor
  · rintro ⟨-, hchunks⟩ file hfile hreuse text htext size overlap hcut
    obtain ⟨chunks, hreuse⟩ := Option.isSome_iff_exists.mp hreuse
    have hfresh := fresh_of_chunks_eq hsha hsound hchunks hfile hreuse
    obtain ⟨text', size', overlap', htext', hsize', hcut', rfl⟩ :=
      reuse_sound hsha hsound hfile hreuse
    rw [htext'] at htext
    obtain rfl := Option.some.inj htext
    rw [hcut] at hcut'
    obtain ⟨rfl, rfl⟩ := Prod.mk.inj (Option.some.inj hcut')
    rw [freshOf, htext', Option.map_some] at hfresh
    exact (chunkText_eq_iff (hclean htext') hsize' (by omega)).mp
      (freshChunks_inj (Option.some.inj hfresh)).symm
  · intro hcuts
    refine coherent_of_same fun file hfile => ?_
    rw [chunksOf_full, chunksOf]
    cases hreuse : reuseOf host base run.args tracked.index file with
    | none => rw [Option.none_or]
    | some chunks =>
      obtain ⟨text, size, overlap, htext, hsize', hcut, rfl⟩ := reuse_sound hsha hsound hfile hreuse
      have hsame := hcuts file hfile (by rw [hreuse]; rfl) text htext size overlap hcut
      rw [Option.some_or, freshOf, htext, Option.map_some, freshChunks, freshChunks,
        (chunkText_eq_iff (hclean htext) hsize' (by omega)).mpr hsame]

theorem mem_sources_iff (path : String) :
    path ∈ (ingestPayload host base tracked.index run).index.sources.map (·.path) ↔
      ∃ file ∈ run.files, relOf base file = path ∧ (textOf file).isSome := by
  rw [List.mem_map]
  constructor
  · rintro ⟨source, hsource, rfl⟩
    obtain ⟨file, hfile, hadded⟩ := List.mem_flatMap.mp
      ((sources_perm host base tracked.index run).mem_iff.mp hsource)
    obtain ⟨chunks, hchunks, rfl⟩ := Option.map_eq_some_iff.mp (Option.mem_toList.mp hadded)
    refine ⟨file, hfile, rfl, ?_⟩
    rw [← chunksOf_isSome hsha hsound hfile, hchunks]
    rfl
  · rintro ⟨file, hfile, rfl, htext⟩
    rw [← chunksOf_isSome hsha hsound hfile] at htext
    obtain ⟨chunks, hchunks⟩ := Option.isSome_iff_exists.mp htext
    refine ⟨sourceOf host base file chunks, ?_, rfl⟩
    refine (sources_perm host base tracked.index run).mem_iff.mpr (List.mem_flatMap.mpr ⟨file, hfile, ?_⟩)
    rw [hchunks]
    simp

omit hsha hsound in
theorem mem_tombstones_iff (path : String) :
    path ∈ (ingestPayload host base tracked.index run).index.tombstones ↔
      path ∈ previousPaths tracked.index ∧
        ¬ ∃ file ∈ run.files, relOf base file = path ∧ file.bytes.isSome := by
  have hactive : path ∈ (run.files.foldl (gatherFile host base run.args (prevBySource tracked.index))
      {}).activeSources ↔ ∃ file ∈ run.files, relOf base file = path ∧ file.bytes.isSome := by
    rw [(foldl_gatherFile host base run.args tracked.index run.files {}).2.2, List.nil_append,
      List.mem_flatMap]
    refine exists_congr fun file => and_congr_right fun _ => ?_
    cases file.bytes with
    | none => simp
    | some bytes => simp [eq_comm]
  rw [← hactive, ingestPayload]
  simp only [List.mem_filter, List.mem_dedup, List.mem_insertionSort, Bool.not_eq_true',
    ← Bool.not_eq_true, List.contains_iff_mem]

/-- **Tombstones** are exact exactly when no indexed file that can be read has lost its
text. -/
theorem tombstones_iff : (∀ path, path ∈ (ingestPayload host base tracked.index run).index.tombstones ↔
        path ∈ previousPaths tracked.index ∧
          path ∉ (ingestPayload host base tracked.index run).index.sources.map (·.path)) ↔
    ∀ file ∈ run.files, file.bytes.isSome → relOf base file ∈ previousPaths tracked.index →
      ∃ other ∈ run.files, relOf base other = relOf base file ∧ (textOf other).isSome := by
  have hread {file : Found} (h : (textOf file).isSome) : file.bytes.isSome := by
    obtain ⟨text, htext⟩ := Option.isSome_iff_exists.mp h
    obtain ⟨bytes, hbytes, -⟩ := Option.bind_eq_some_iff.mp htext
    rw [hbytes]
    rfl
  simp only [mem_tombstones_iff, mem_sources_iff hsha hsound]
  constructor
  · intro hexact file hfile hbytes hprevious
    by_contra hlost
    exact ((hexact (relOf base file)).mpr ⟨hprevious, hlost⟩).2 ⟨file, hfile, rfl, hbytes⟩
  · intro hkept path
    refine and_congr_right fun hprevious => not_congr ⟨?_, ?_⟩
    · rintro ⟨file, hfile, rfl, hbytes⟩
      exact hkept file hfile hbytes hprevious
    · rintro ⟨file, hfile, hrel, htext⟩
      exact ⟨file, hfile, hrel, hread htext⟩

end Agreement

/-- **Incremental runs.**  After any history of runs, a run stores what a full run would
and names the right tombstones exactly when every file it takes over fits into one chunk
or was cut under the same size and overlap, and no indexed file that can still be read
has lost its text. -/
theorem incremental_iff (host : Host) (hsha : Function.Injective host.sha256Hex) (base : String)
    (history : List Run) (run : Run) :
    Coherent host base (Runs.run (step host base) none history) run ↔
      Agrees host base (Runs.run (trackedStep host base) {} history) run := by
  have hsound : Sound host (Runs.run (trackedStep host base) {} history) := sound_run hsha history
  have hindex := index_tracked host base history {}
  rw [← hindex]
  constructor
  · rintro ⟨hsources, hchunks, htombstones⟩
    exact ⟨(stores_iff hsha hsound).mp ⟨hsources, hchunks⟩, (tombstones_iff hsha hsound).mp htombstones⟩
  · rintro ⟨hcut, hkept⟩
    obtain ⟨hsources, hchunks⟩ := (stores_iff hsha hsound).mpr hcut
    exact ⟨hsources, hchunks, (tombstones_iff hsha hsound).mpr hkept⟩

/-! ## A file that loses its text -/

/-- A host for concrete runs: every digest spells its bytes out. -/
def plainHost : Host where
  sha256Hex bytes := V8Kernel.hexText (String.ofList (bytes.map fun b => Char.ofNat b.toNat))

theorem plainHost_injective : Function.Injective plainHost.sha256Hex := by
  have hchar : Function.Injective fun b : UInt8 => Char.ofNat b.toNat := by
    intro a b h
    have hsmall (c : UInt8) : (Char.ofNat c.toNat).toNat = c.toNat := by
      have hvalid : c.toNat.isValidChar := .inl (c.toNat_lt.trans (by decide))
      rw [Char.ofNat, dif_pos hvalid]
      rfl
    have hnat := congrArg Char.toNat h
    simp only [hsmall] at hnat
    exact UInt8.toNat_inj.mp hnat
  intro a b h
  exact List.map_injective_iff.mpr hchar (String.ofList_injective (V8Kernel.hexText_injective h))

/-- A directory with one file. -/
def noteRun (bytes : List UInt8) : Run where
  entries := [("a.md", .file (some bytes))]

/-- The file is blank in the second run: it stands in no index and in no list of
tombstones. -/
theorem blanked_file_without_tombstone :
    ¬ Coherent plainHost "docs/" (Runs.run (step plainHost "docs/") none [noteRun [0x78]])
      (noteRun [0x20]) := by
  intro hcoherent
  have htombstones := hcoherent.tombstones "docs/a.md"
  revert htombstones
  decide

theorem incremental_iff_blanked :
    Coherent plainHost "docs/" (Runs.run (step plainHost "docs/") none [noteRun [0x78]])
        (noteRun [0x20]) ↔
      Agrees plainHost "docs/" (Runs.run (trackedStep plainHost "docs/") {} [noteRun [0x78]])
        (noteRun [0x20]) :=
  incremental_iff plainHost plainHost_injective "docs/" [noteRun [0x78]] (noteRun [0x20])

end Protheus.Rag
