import Protheus.LaneUtils
import Protheus.Lib.Tables
import Protheus.MemoryIndex.Scan
import Protheus.Rag.Text

/-!
`parse_index_file` of `memory_runtime/src/main.rs`, and the one of `wave1.rs`.

Both read the tables of a text: a line of dashes is passed over, a line with a cell for the
node and a cell for the file names the columns, and any other line is a row.  They differ in
how a cell is cleaned and in what they take for a file.
-/

namespace Protheus.MemoryIndex

open RustStd

/-! ## Tables -/

/-- What the two readers do each in their way: the cells of a line, the name of a column,
and the entry of a row whose cells are looked up by name. -/
structure Dialect (α : Type) where
  cellsOf : String → List String
  headerCell : String → String
  entry : (String → String) → Option α

/-- A cell of a line of dashes. -/
def isRule (cell : String) : Bool := cell.toList.all fun c => c == '-' || c == ':' || c == ' '

/-- A line of the loop.  A line without cells counts as one of dashes. -/
def Dialect.classify {α : Type} (dialect : Dialect α) (line : String) :
    Tables.Line (List String) (List String) :=
  let trimmed := trim line
  if trimmed.toList.head? ≠ some '|' then .skipped
  else
    let cells := dialect.cellsOf trimmed
    if cells.all isRule then .skipped
    else
      let normalized := cells.map dialect.headerCell
      if normalized.contains "node_id" && normalized.contains "file" then .names normalized
      else .row cells

/-- The cell under a name: of columns of one name the last is the one that is kept. -/
def cellUnder (columns cells : List String) (key : String) : String :=
  columns.zipIdx.foldl (fun found column => if column.1 = key then cells.getD column.2 "" else found) ""

/-- A row under the names in force. -/
def Dialect.read {α : Type} (dialect : Dialect α) (columns cells : List String) : Option α :=
  dialect.entry (cellUnder columns cells)

/-- The loop over the lines of a file; one that cannot be read has none. -/
def Dialect.parse {α : Type} (dialect : Dialect α) (text : Option String) : List α :=
  Tables.readRows dialect.classify dialect.read none ((text.map lines).getD [])

/-- The end of `normalize_header_cell`, given whether the cell names the uid. -/
def columnName (isUid : Bool) (norm : String) : String :=
  if strContains norm "node_id" then "node_id"
  else if isUid then "uid"
  else if "file".toList.isPrefixOf norm.toList then "file"
  else if "summary".toList.isPrefixOf norm.toList || "title".toList.isPrefixOf norm.toList then "summary"
  else if "tags".toList.isPrefixOf norm.toList then "tags"
  else norm

/-- `while raw.starts_with("./")`. -/
def dropDots : List Char → List Char
  | '.' :: '/' :: rest => dropDots rest
  | l => l

def startsWith (s needle : String) : Bool := needle.toList.isPrefixOf s.toList

def endsWith (s needle : String) : Bool := needle.toList.isSuffixOf s.toList

/-- A tag cell or a tag line, given how a tag is normalized. -/
def tagSet (normalize : String → String) (v : String) : List String :=
  orderedSet (((Words.words isWhitespace (v.toList.map fun c => if c = ',' then ' ' else c)).map fun token =>
    normalize (String.ofList token)).filter (· ≠ ""))

/-! ## `main.rs` -/

def cleanCell (s : String) : String := stripTicks (trim s)

/-- The loop of `normalize_header_cell`, given whether it has just put an underscore. -/
def headerRuns : List Char → Bool → List Char
  | [], _ => []
  | c :: rest, filled =>
    if isAlnum c || c == '_' then c :: headerRuns rest false
    else if filled then headerRuns rest true
    else '_' :: headerRuns rest true

def normalizeHeaderCell (v : String) : String :=
  let norm := String.ofList (trimMatches '_' (headerRuns ((cleanCell v).toList.flatMap lowerChar) false))
  columnName (norm = "uid" || endsWith norm "_uid") norm

def normalizeFileRef (v : String) : String :=
  let raw := trimMatches '\'' (trimMatches '"' (cleanCell v).toList)
  if raw = [] then ""
  else
    let raw := String.ofList (dropDots (raw.map fun c => if c = '\\' then '/' else c))
    if startsWith raw "client/memory/" then raw
    else if isDateMemoryFile raw || startsWith raw "_archive/" then "client/memory/" ++ raw
    else if endsWith raw ".md" then raw
    else ""

def parseTagCell : String → List String := tagSet normalizeTag

def parseTableCells (trimmed : String) : List String :=
  let inner := trimMatches '|' trimmed.toList
  if inner = [] then [] else (inner.splitOn '|').map fun cell => cleanCell (String.ofList cell)

def indexEntry (cell : String → String) : Option IndexEntry :=
  let row (key : String) := cleanCell (cell key)
  let nodeId := normalizeNodeId (row "node_id")
  let fileRel := normalizeFileRef (row "file")
  if nodeId = "" ∨ fileRel = "" then none
  else some
    { nodeId, uid := normalizeUid (row "uid"), fileRel, summary := cleanCell (row "summary")
      tags := parseTagCell (row "tags") }

/-- `parse_index_file` reads a file this way. -/
def runtime : Dialect IndexEntry where
  cellsOf := parseTableCells
  headerCell := normalizeHeaderCell
  entry := indexEntry

@[simp] theorem runtime_cellsOf : runtime.cellsOf = parseTableCells := by
  simp only [runtime]

@[simp] theorem runtime_headerCell : runtime.headerCell = normalizeHeaderCell := by
  simp only [runtime]

@[simp] theorem runtime_entry : runtime.entry = indexEntry := by
  simp only [runtime]

def parseIndexFile : Option String → List IndexEntry := runtime.parse

/-! ## `wave1.rs` -/

namespace Wave1

structure IndexEntry where
  nodeId : String
  fileRel : String
  summary : String
  tags : List String
  date : String
  deriving DecidableEq

def cleanText : String → ℕ → String := Rag.cleanText

def normalizeNodeId (raw : String) : String :=
  let candidate := cleanText (String.ofList (raw.toList.filter (· ≠ '`'))) 160
  if candidate.toList.all fun c => isAlnum c || c == '.' || c == '_' || c == '-' then candidate else ""

def normalizeTag (raw : String) : String :=
  String.ofList (((toAsciiLowercase (cleanText raw 80)).toList.dropWhile (· == '#')).filter fun c =>
    isAlnum c || c == '_' || c == '-')

def normalizeHeaderCell (raw : String) : String :=
  let s := String.ofList ((toAsciiLowercase (cleanText raw 80)).toList.map fun c =>
    if isAlnum c || c == '_' then c else '_')
  columnName (startsWith s "uid" || endsWith s "_uid") s

def normalizeFileRef (raw : String) : String :=
  let quoted := String.ofList (trimMatches '\'' (trimMatches '"' raw.toList))
  let out := String.ofList (dropDots ((cleanText quoted 260).toList.map fun c => if c = '\\' then '/' else c))
  if out = "" then ""
  else if startsWith out "client/memory/" then out
  else if startsWith out "memory/" then "client/" ++ out
  else if startsWith out "_archive/" then "client/memory/" ++ out
  else if out.utf8ByteSize = 13 && endsWith out ".md" && out.toList[4]? = some '-' &&
      out.toList[7]? = some '-' then "client/memory/" ++ out
  else if endsWith out ".md" then out
  else ""

def parseTagCell : String → List String := tagSet normalizeTag

def startsWithDate (l : List Char) : Bool :=
  (l.take 10).length == 10 && (l.take 10).zipIdx.all fun (c, off) =>
    if off = 4 ∨ off = 7 then c == '-' else c.isDigit

/-- `parse_date_from_file`. -/
def dateIn : List Char → List Char
  | [] => []
  | c :: rest => if startsWithDate (c :: rest) then (c :: rest).take 10 else dateIn rest

def parseDateFromFile (fileRel : String) : String := String.ofList (dateIn fileRel.toList)

def indexEntry (cell : String → String) : Option IndexEntry :=
  let nodeId := normalizeNodeId (cell "node_id")
  let fileRel := normalizeFileRef (cell "file")
  if nodeId = "" ∨ fileRel = "" then none
  else some
    { nodeId, fileRel, summary := cleanText (cell "summary") 280, tags := parseTagCell (cell "tags")
      date := parseDateFromFile fileRel }

/-- `parse_index_file` reads a file this way. -/
def wave1 : Dialect IndexEntry where
  cellsOf trimmed := ((trimMatches '|' trimmed.toList).splitOn '|').map fun cell =>
    cleanText (String.ofList cell) 512
  headerCell := normalizeHeaderCell
  entry := indexEntry

@[simp] theorem wave1_entry : wave1.entry = indexEntry := by
  simp only [wave1]

def parseIndexFile : Option String → List IndexEntry := wave1.parse

end Wave1

/-! ## Rows -/

/-- A row has the cells of its line. -/
theorem Dialect.classify_eq_row {α : Type} {dialect : Dialect α} {line : String} {cells : List String}
    (h : dialect.classify line = .row cells) : cells = dialect.cellsOf (trim line) := by
  rw [Dialect.classify] at h
  split at h
  · cases h
  · dsimp only at h
    split at h
    · cases h
    · split at h
      · cases h
      · exact (Tables.Line.row.inj h).symm

section Rows

/-- A cell with a blank on each side. -/
def padded (cell : String) : List Char := ' ' :: (cell.toList ++ [' '])

/-- A row with these cells. -/
def rowText (cells : List String) : String :=
  String.ofList ('|' :: (['|'].intercalate (cells.map padded) ++ ['|']))

theorem trim_padded (cell : String) : trim (String.ofList (padded cell)) = trim cell := by
  have hblank : LaneUtils.trimEnd (cell.toList ++ [' ']) = LaneUtils.trimEnd cell.toList := by
    rw [LaneUtils.trimEnd, List.reverse_append, List.reverse_singleton, List.singleton_append,
      List.dropWhile_cons_of_pos (by decide), LaneUtils.trimEnd]
  rw [LaneUtils.trim_ofList, padded, List.dropWhile_cons_of_pos (by decide), ← LaneUtils.dropWhile_trimEnd,
    hblank, LaneUtils.dropWhile_trimEnd, ← LaneUtils.trim_ofList, String.ofList_toList]

theorem cleanCell_padded (cell : String) : cleanCell (String.ofList (padded cell)) = cleanCell cell := by
  rw [cleanCell, trim_padded, cleanCell]

theorem trim_rowText (cells : List String) : trim (rowText cells) = rowText cells := by
  refine LaneUtils.trim_eq_self_of (fun c hc => ?_) fun c hc => ?_
  · rw [rowText, String.toList_ofList] at hc
    rw [← Option.some.inj hc]
    decide
  · rw [rowText, String.toList_ofList, ← List.cons_append, List.getLast?_concat] at hc
    rw [← Option.some.inj hc]
    decide

theorem head_rowText (cells : List String) : (rowText cells).toList.head? = some '|' := by
  rw [rowText, String.toList_ofList, List.head?_cons]

theorem getLast_rowText (cells : List String) : (rowText cells).toList.getLast? = some '|' := by
  rw [rowText, String.toList_ofList, ← List.cons_append, List.getLast?_concat]

/-- A row without line breaks in its cells has none. -/
theorem newline_notMem_rowText {cells : List String} (h : ∀ cell ∈ cells, '\n' ∉ cell.toList) :
    '\n' ∉ (rowText cells).toList := by
  intro hmem
  rw [rowText, String.toList_ofList, List.mem_cons, List.mem_append, List.mem_singleton] at hmem
  rcases hmem with hmem | hmem | hmem
  · cases hmem
  · rcases Words.mem_intercalate hmem with hbar | ⟨cell, hcell, hin⟩
    · cases hbar
    · obtain ⟨text, htext, rfl⟩ := List.mem_map.mp hcell
      rw [padded, List.mem_cons, List.mem_append, List.mem_singleton] at hin
      rcases hin with hin | hin | hin
      · cases hin
      · exact h text htext hin
      · cases hin
  · cases hmem

/-- Without its outer bars a row starts and ends with a blank. -/
theorem intercalate_padded (cells : List String) (hne : cells ≠ []) :
    ∃ middle, ['|'].intercalate (cells.map padded) = ' ' :: middle ∧
      (['|'].intercalate (cells.map padded)).getLast? = some ' ' := by
  induction cells with
  | nil => exact absurd rfl hne
  | cons cell rest ih =>
    cases rest with
    | nil =>
      refine ⟨cell.toList ++ [' '], by simp [padded], ?_⟩
      rw [List.map_singleton, List.intercalate_singleton, padded, ← List.cons_append, List.getLast?_concat]
    | cons next rest =>
      obtain ⟨middle, hmiddle, hlast⟩ := ih (List.cons_ne_nil next rest)
      rw [List.map_cons, List.map_cons, List.intercalate_cons_cons, ← List.map_cons]
      refine ⟨cell.toList ++ [' '] ++ ['|'] ++ ['|'].intercalate ((next :: rest).map padded), ?_, ?_⟩
      · simp [padded]
      · rw [List.getLast?_append, hlast]
        rfl

/-- **The pieces of a row** are the pieces of its cells. -/
theorem pieces_rowText {cells : List String} (hne : cells ≠ []) :
    trimMatches '|' (rowText cells).toList ≠ [] ∧
      (trimMatches '|' (rowText cells).toList).splitOn '|' =
        cells.flatMap fun cell => (padded cell).splitOn '|' := by
  obtain ⟨middle, hmiddle, hlast⟩ := intercalate_padded cells hne
  have hinner : trimMatches '|' (rowText cells).toList = ['|'].intercalate (cells.map padded) := by
    rw [rowText, String.toList_ofList, trimMatches_wrap]
    refine trimMatches_eq_self (fun d hd => ?_) fun d hd => ?_
    · rw [hmiddle] at hd
      rw [← Option.some.inj hd]
      decide
    · rw [hlast] at hd
      rw [← Option.some.inj hd]
      decide
  rw [hinner]
  refine ⟨by rw [hmiddle]; exact List.cons_ne_nil _ _, ?_⟩
  rw [splitOn_intercalate (by simpa using hne), List.flatMap_map]

/-- A cell without a bar is one piece. -/
theorem splitOn_padded {cell : String} (h : '|' ∉ cell.toList) :
    (padded cell).splitOn '|' = [padded cell] := by
  refine List.splitOn_eq_singleton fun hmem => ?_
  rw [padded, List.mem_cons, List.mem_append, List.mem_singleton] at hmem
  rcases hmem with hmem | hmem | hmem
  · cases hmem
  · exact h hmem
  · cases hmem

theorem pieces_of_free {cells : List String} (hne : cells ≠ []) (hfree : ∀ cell ∈ cells, '|' ∉ cell.toList) :
    (trimMatches '|' (rowText cells).toList).splitOn '|' = cells.map padded := by
  rw [(pieces_rowText hne).2]
  refine (List.flatMap_congr fun cell hcell => splitOn_padded (hfree cell hcell)).trans ?_
  exact List.map_eq_flatMap.symm

/-- The cells of a row as the memory runtime reads them. -/
theorem parseTableCells_rowText {cells : List String} (hne : cells ≠ []) :
    parseTableCells (rowText cells) =
      (cells.flatMap fun cell => (padded cell).splitOn '|').map fun cell => cleanCell (String.ofList cell) := by
  rw [parseTableCells, if_neg (pieces_rowText hne).1, (pieces_rowText hne).2]

theorem parseTableCells_of_free {cells : List String} (hne : cells ≠ [])
    (hfree : ∀ cell ∈ cells, '|' ∉ cell.toList) : parseTableCells (rowText cells) = cells.map cleanCell := by
  rw [parseTableCells, if_neg (pieces_rowText hne).1, pieces_of_free hne hfree, List.map_map]
  exact List.map_congr_left fun cell _ => cleanCell_padded cell

end Rows

/-! ## Lines -/

section Lines

/-- `lines` of a text given by its pieces. -/
theorem lines_of_pieces {text : String} {pieces : List (List Char)} (h : text.toList.splitOn '\n' = pieces)
    (hlast : pieces.getLast? ≠ some []) (hreturn : ∀ piece ∈ pieces, piece.getLast? ≠ some '\r') :
    lines text = pieces.map String.ofList := by
  rw [lines, h, if_neg hlast]
  refine List.map_congr_left fun piece hpiece => ?_
  rw [if_neg (hreturn piece hpiece)]

theorem lines_join {rows : List String} (hne : rows ≠ []) (hfree : ∀ row ∈ rows, '\n' ∉ row.toList)
    (hlast : rows.getLast? ≠ some "") (hreturn : ∀ row ∈ rows, row.toList.getLast? ≠ some '\r') :
    lines (String.ofList (['\n'].intercalate (rows.map String.toList))) = rows := by
  have hpieces : (String.ofList (['\n'].intercalate (rows.map String.toList))).toList.splitOn '\n' =
      rows.map String.toList := by
    rw [String.toList_ofList]
    refine List.splitOn_intercalate '\n' (fun l hl => ?_) (by simpa using hne)
    obtain ⟨row, hrow, rfl⟩ := List.mem_map.mp hl
    exact hfree row hrow
  rw [lines_of_pieces hpieces, List.map_map]
  · simp
  · rw [List.getLast?_map]
    intro hnil
    obtain ⟨row, hrow, hempty⟩ := Option.map_eq_some_iff.mp hnil
    exact hlast (by rw [hrow, String.toList_eq_nil_iff.mp hempty])
  · intro piece hpiece
    obtain ⟨row, hrow, rfl⟩ := List.mem_map.mp hpiece
    exact hreturn row hrow

/-- A line without its carriage return. -/
def lineText (piece : List Char) : String :=
  String.ofList (if piece.getLast? = some '\r' then piece.dropLast else piece)

/-- The lines of a text that ends with a line break. -/
theorem lines_closed (a : List Char) :
    lines (String.ofList (a ++ ['\n'])) = (a.splitOn '\n').map lineText := by
  rw [lines, String.toList_ofList, List.splitOn_append_cons_self, if_pos, List.splitOn_nil,
    List.dropLast_concat]
  · rfl
  · rw [List.splitOn_nil, List.getLast?_concat]

/-- **What follows a line break** is read on its own. -/
theorem lines_append (a b : List Char) : lines (String.ofList (a ++ '\n' :: b)) =
    lines (String.ofList (a ++ ['\n'])) ++ lines (String.ofList b) := by
  have hne : b.splitOn '\n' ≠ [] := List.splitOn_ne_nil '\n' b
  have hlast : (a.splitOn '\n' ++ b.splitOn '\n').getLast? = (b.splitOn '\n').getLast? := by
    rw [List.getLast?_append, List.getLast?_eq_some_getLast hne, Option.some_or]
  rw [lines_closed, lines, String.toList_ofList, List.splitOn_append_cons_self, hlast, lines,
    String.toList_ofList]
  split
  · rw [List.dropLast_append_of_ne_nil hne, List.map_append]
    rfl
  · rw [List.map_append]
    rfl

theorem exists_intercalate_concat_nil (c : Char) (first : List Char) (rest : List (List Char)) :
    ∃ middle, [c].intercalate (first :: rest ++ [[]]) = middle ++ [c] := by
  induction rest generalizing first with
  | nil => exact ⟨first, by simp⟩
  | cons next rest ih =>
    obtain ⟨middle, hmiddle⟩ := ih next
    refine ⟨first ++ [c] ++ middle, ?_⟩
    rw [List.cons_append, List.cons_append, List.intercalate_cons_cons, ← List.cons_append, hmiddle,
      List.append_assoc (first ++ [c])]

/-- A line break behind a last line that has none makes no difference. -/
theorem lines_concat {l : List Char} (hne : l ≠ []) (hopen : l.getLast? ≠ some '\n') :
    lines (String.ofList (l ++ ['\n'])) = lines (String.ofList l) := by
  have hlast : (l.splitOn '\n').getLast? ≠ some [] := by
    intro hempty
    obtain ⟨before, hbefore⟩ := List.getLast?_eq_some_iff.mp hempty
    have hjoin : ['\n'].intercalate (l.splitOn '\n') = l := List.intercalate_splitOn '\n'
    rw [hbefore] at hjoin
    cases before with
    | nil => exact hne (by simpa using hjoin.symm)
    | cons first rest =>
      obtain ⟨middle, hmiddle⟩ := exists_intercalate_concat_nil '\n' first rest
      rw [← hjoin, hmiddle, List.getLast?_concat] at hopen
      exact hopen rfl
  rw [lines_closed, lines, String.toList_ofList, if_neg hlast]
  rfl

end Lines

end Protheus.MemoryIndex
