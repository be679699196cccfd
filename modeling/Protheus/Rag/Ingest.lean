import Mathlib.Data.List.Sort
import Protheus.Rag.Text
import Std.Data.ExtTreeMap

/-!
`ingest_payload` of `rag_runtime.rs`: an index of the files of a directory.

A run gathers the files it supports, in order and at most `max-files`, and cuts the text
of each into chunks.  An incremental run takes the chunks of the index before it for a
file whose bytes have the digest recorded there.  A run names as tombstones the sources
of the index before it that it does not hold for active.

A run sees the directory at one moment, and its index is written and read back as it is.
-/

namespace Protheus.Rag

open Std (ExtTreeMap)

/-- What the process gets from outside: `sha256_hex`. -/
structure Host where
  sha256Hex : List UInt8 → String

def Host.sha256Text (host : Host) (text : String) : String := host.sha256Hex text.toUTF8.toList

structure RagChunk where
  chunkId : String
  sourcePath : String
  mime : String
  offsetStart : ℕ
  offsetEnd : ℕ
  text : String
  sha256 : String
  deriving DecidableEq

structure RagSource where
  path : String
  mime : String
  sha256 : String
  chunkIds : List String
  deriving DecidableEq

structure RagIndex where
  schemaVersion : String
  generatedAt : String
  sourceCount : ℕ
  chunkCount : ℕ
  sources : List RagSource
  chunks : List RagChunk
  tombstones : List String

/-! ## Files -/

/-- A file with its bytes, `none` when it cannot be read, or a directory in the order it
is listed in; one that cannot be listed has no entries. -/
inductive Tree where
  | file (bytes : Option (List UInt8))
  | dir (entries : List (String × Tree))

/-- A file found below a directory: the names that lead to it and its bytes. -/
structure Found where
  names : List String
  bytes : Option (List UInt8)

/-- `Path::extension` of a file name. -/
def extension (name : String) : Option String :=
  let ext := name.toList.reverse.takeWhile (· ≠ '.')
  match name.toList.reverse.drop ext.length with
  | [] => none
  | _ :: stem => if stem = [] then none else some (String.ofList ext.reverse)

/-- The `match` of `detect_mime`. -/
def mimeOfExtension : String → String
  | "md" | "markdown" => "text/markdown"
  | "txt" | "log" | "rst" => "text/plain"
  | "json" => "application/json"
  | "yaml" | "yml" => "application/yaml"
  | "csv" => "text/csv"
  | "pdf" => "application/pdf"
  | "html" | "htm" => "text/html"
  | "rs" | "ts" | "js" | "py" | "go" | "java" | "c" | "cpp" => "text/source"
  | _ => "application/octet-stream"

/-- `detect_mime` of a file name. -/
def detectMime (name : String) : String :=
  mimeOfExtension (RustStd.toAsciiLowercase ((extension name).getD ""))

mutual

/-- `gather_supported_files` of the files below some names. -/
def gatherTree (names : List String) : Tree → List Found
  | .file bytes =>
    if detectMime (names.getLastD "") = "application/octet-stream" then [] else [{ names, bytes }]
  | .dir entries => gatherEntries names entries

def gatherEntries (names : List String) : List (String × Tree) → List Found
  | [] => []
  | entry :: rest => gatherEntry names entry ++ gatherEntries names rest

def gatherEntry (names : List String) : String × Tree → List Found
  | (name, tree) => gatherTree (names ++ [name]) tree

end

/-- `normalize_rel_path`: the path of the directory from the root, with its separator, and
the names below it. -/
def normalizeRelPath (base : String) (names : List String) : String :=
  String.ofList ((base.toList ++ ['/'].intercalate (names.map String.toList)).map
    fun c => if c = '\\' then '/' else c)

/-! ## Settings -/

/-- The settings of a run. -/
structure Args where
  chunkSize : Option String := none
  chunkOverlap : Option String := none
  maxFiles : Option String := none
  incremental : Option String := none

def parseUsize (value : Option String) (min max default : ℕ) : ℕ :=
  let parsed := ((value.bind fun v => RustStd.parseU64 (RustStd.trim v)).map UInt64.toNat).getD default
  Nat.max min (Nat.min max parsed)

def parseBool (value : Option String) (default : Bool) : Bool :=
  (value.map fun v =>
    ["1", "true", "yes", "on"].contains (RustStd.toAsciiLowercase (RustStd.trim v))).getD default

def Args.size (args : Args) : ℕ := parseUsize args.chunkSize 256 4096 900

def Args.overlap (args : Args) : ℕ := parseUsize args.chunkOverlap 0 1024 120

def Args.files (args : Args) : ℕ := parseUsize args.maxFiles 1 10000 1000

def Args.isIncremental (args : Args) : Bool := parseBool args.incremental true

/-- One run: the directory it finds, its settings and its time stamp. -/
structure Run where
  entries : List (String × Tree)
  args : Args := {}
  nowIso : String := ""

/-- The same run without reuse. -/
def Run.full (run : Run) : Run := { run with args := { run.args with incremental := some "0" } }

def Run.files (run : Run) : List Found :=
  ((gatherEntries [] run.entries).insertionSort fun a b => a.names ≤ b.names).take run.args.files

/-! ## The index before -/

/-- `chunks_by_source`. -/
def chunksBySource (chunks : List RagChunk) : ExtTreeMap String (List RagChunk) :=
  chunks.foldl (fun rows chunk => rows.insert chunk.sourcePath
    ((rows[chunk.sourcePath]?).getD [] ++ [chunk])) ∅

/-- One turn of the loop that fills `prev_by_source`. -/
def takeSource (acc : ExtTreeMap String (List RagChunk) × ExtTreeMap String (String × List RagChunk))
    (source : RagSource) :
    ExtTreeMap String (List RagChunk) × ExtTreeMap String (String × List RagChunk) :=
  (acc.1.erase source.path,
    acc.2.insert source.path (source.sha256, (acc.1[source.path]?).getD []))

/-- `prev_by_source`. -/
def prevBySource (previous : Option RagIndex) : ExtTreeMap String (String × List RagChunk) :=
  match previous with
  | none => ∅
  | some prev => (prev.sources.foldl takeSource (chunksBySource prev.chunks, ∅)).2

/-- The paths of the sources of the index before. -/
def previousPaths (previous : Option RagIndex) : List String :=
  (previous.map fun prev => prev.sources.map (·.path)).getD []

/-! ## The loop over the files -/

section Loop

variable (host : Host)

def ragChunk (rel mime : String) : Piece → RagChunk
  | (start, stop, text) =>
    let seed := rel ++ "|" ++ toString start ++ "|" ++ toString stop ++ "|" ++ host.sha256Text text
    { chunkId := "chunk_" ++ String.ofList ((host.sha256Text seed).toList.take 20)
      sourcePath := rel
      mime
      offsetStart := start
      offsetEnd := stop
      text
      sha256 := host.sha256Text text }

/-- The chunks of a text under a size and an overlap. -/
def freshChunks (rel mime text : String) (size overlap : ℕ) : List RagChunk :=
  (chunkText text size overlap).map (ragChunk host rel mime)

/-- The chunks a run may take over for a source with this digest. -/
def reusableChunks (previous : ExtTreeMap String (String × List RagChunk)) (rel sha : String) :
    Option (List RagChunk) :=
  match previous[rel]? with
  | none => none
  | some (prevSha, prevChunks) =>
    if prevSha = sha ∧ prevChunks ≠ [] then some prevChunks else none

structure Gathered where
  sources : List RagSource := []
  chunks : List RagChunk := []
  reusedChunks : ℕ := 0
  generatedChunks : ℕ := 0
  activeSources : List String := []
  parseErrors : List (String × String) := []

/-- A source that the loop adds with its chunks. -/
def Gathered.add (gathered : Gathered) (rel mime sha : String) (chunks : List RagChunk) : Gathered :=
  { gathered with
    sources := gathered.sources ++ [{ path := rel, mime, sha256 := sha, chunkIds := chunks.map (·.chunkId) }]
    chunks := gathered.chunks ++ chunks }

/-- One turn of the loop. -/
def gatherFile (base : String) (args : Args) (previous : ExtTreeMap String (String × List RagChunk))
    (gathered : Gathered) (file : Found) : Gathered :=
  let rel := normalizeRelPath base file.names
  let mime := detectMime (file.names.getLastD "")
  match file.bytes with
  | none => { gathered with parseErrors := gathered.parseErrors ++ [(rel, "read_failed")] }
  | some bytes =>
    let sha := host.sha256Hex bytes
    let gathered := { gathered with activeSources := gathered.activeSources ++ [rel] }
    match if args.isIncremental then reusableChunks previous rel sha else none with
    | some chunks =>
      { gathered.add rel mime sha chunks with
        reusedChunks := gathered.reusedChunks + chunks.length }
    | none =>
      match readTextPayload mime bytes with
      | none =>
        { gathered with parseErrors := gathered.parseErrors ++ [(rel, "unsupported_or_empty")] }
      | some text =>
        let chunks := freshChunks host rel mime text args.size args.overlap
        { gathered.add rel mime sha chunks with
          generatedChunks := gathered.generatedChunks + chunks.length }

end Loop

/-! ## The index -/

/-- The order of `chunks.sort_by`. -/
def chunkLe (a b : RagChunk) : Prop :=
  a.sourcePath < b.sourcePath ∨ (a.sourcePath = b.sourcePath ∧ a.offsetStart ≤ b.offsetStart)

instance : DecidableRel chunkLe := fun _ _ => inferInstanceAs (Decidable (_ ∨ _))

/-- The index of a run, and what the run reports besides. -/
structure Ingested where
  index : RagIndex
  reusedChunks : ℕ
  generatedChunks : ℕ
  parseErrors : List (String × String)

def ingestPayload (host : Host) (base : String) (previous : Option RagIndex) (run : Run) : Ingested :=
  let gathered := run.files.foldl (gatherFile host base run.args (prevBySource previous)) {}
  let sources := gathered.sources.insertionSort fun a b => a.path ≤ b.path
  let chunks := gathered.chunks.insertionSort chunkLe
  let tombstones := ((previousPaths previous).insertionSort (· ≤ ·)).dedup.filter
    fun path => !gathered.activeSources.contains path
  { index :=
      { schemaVersion := "1.0", generatedAt := run.nowIso, sourceCount := sources.length
        chunkCount := chunks.length, sources, chunks, tombstones }
    reusedChunks := gathered.reusedChunks
    generatedChunks := gathered.generatedChunks
    parseErrors := gathered.parseErrors }

/-- A run writes its index over the one before. -/
def step (host : Host) (base : String) (previous : Option RagIndex) (run : Run) : Option RagIndex :=
  some (ingestPayload host base previous run).index

end Protheus.Rag
