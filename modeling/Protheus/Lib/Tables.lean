import Mathlib.Algebra.Order.Group.Nat

/-!
Tables read line by line.

A line is passed over, names the columns for the lines after it, or is a row, which is read
under the names in force.  What a text says splits where the text does (`readRows_append`):
what stands before a line never depends on what comes after it.
-/

namespace Protheus.Tables

variable {σ ν κ α : Type*}

inductive Line (ν κ : Type*) where
  | skipped
  | names (columns : ν)
  | row (cells : κ)

variable (classify : σ → Line ν κ) (read : ν → κ → Option α)

/-- The names in force after some lines. -/
def namesAfter : Option ν → List σ → Option ν
  | columns, [] => columns
  | columns, line :: rest =>
    match classify line with
    | .names columns => namesAfter (some columns) rest
    | _ => namesAfter columns rest

/-- What the rows of some lines say. -/
def readRows : Option ν → List σ → List α
  | _, [] => []
  | columns, line :: rest =>
    match classify line with
    | .skipped => readRows columns rest
    | .names columns => readRows (some columns) rest
    | .row cells => (columns.bind (read · cells)).toList ++ readRows columns rest

variable {classify read}

theorem readRows_append (columns : Option ν) (lines more : List σ) :
    readRows classify read columns (lines ++ more) =
      readRows classify read columns lines ++
        readRows classify read (namesAfter classify columns lines) more := by
  induction lines generalizing columns with
  | nil => rfl
  | cons line rest ih =>
    rw [List.cons_append, readRows, readRows, namesAfter]
    cases classify line with
    | skipped => exact ih columns
    | names found => exact ih (some found)
    | row cells =>
      dsimp only
      rw [ih, List.append_assoc]

theorem namesAfter_append (columns : Option ν) (lines more : List σ) :
    namesAfter classify columns (lines ++ more) =
      namesAfter classify (namesAfter classify columns lines) more := by
  induction lines generalizing columns with
  | nil => rfl
  | cons line rest ih =>
    rw [List.cons_append, namesAfter, namesAfter]
    cases classify line with
    | skipped => exact ih columns
    | names found => exact ih (some found)
    | row cells => exact ih columns

/-- Lines that are passed over say nothing. -/
theorem readRows_skipped {columns : Option ν} {lines : List σ}
    (h : ∀ line ∈ lines, classify line = .skipped) :
    readRows classify read columns lines = [] ∧ namesAfter classify columns lines = columns := by
  induction lines with
  | nil => exact ⟨rfl, rfl⟩
  | cons line rest ih =>
    rw [readRows, namesAfter, h line List.mem_cons_self]
    exact ih fun line hline => h line (List.mem_cons_of_mem _ hline)

/-- No line says two things. -/
theorem length_readRows_le (columns : Option ν) (lines : List σ) :
    (readRows classify read columns lines).length ≤ lines.length := by
  induction lines generalizing columns with
  | nil => exact le_rfl
  | cons line rest ih =>
    rw [readRows, List.length_cons]
    cases classify line with
    | skipped => exact (ih columns).trans (Nat.le_succ _)
    | names found => exact (ih (some found)).trans (Nat.le_succ _)
    | row cells =>
      dsimp only
      have hone : (columns.bind (read · cells)).toList.length ≤ 1 := by
        cases columns.bind (read · cells) with
        | none => exact Nat.zero_le _
        | some a => exact le_rfl
      rw [List.length_append]
      have hrest := ih columns
      omega

/-- A line that names columns says nothing itself. -/
theorem length_readRows_lt {columns : Option ν} {lines : List σ} {line : σ} {found : ν}
    (hline : line ∈ lines) (hnames : classify line = .names found) :
    (readRows classify read columns lines).length < lines.length := by
  obtain ⟨before, after, rfl⟩ := List.append_of_mem hline
  have hbefore : (readRows classify read columns before).length ≤ before.length := length_readRows_le columns before
  have hafter : (readRows classify read (some found) after).length ≤ after.length := length_readRows_le _ after
  rw [readRows_append, readRows, hnames]
  simp only [List.length_append, List.length_cons]
  omega

section Rows

variable {β : Type*} {row : β → σ} {cells : β → κ} {records : List β}

/-- Rows leave the names in force as they are, and each is read under them. -/
theorem readRows_map (columns : Option ν) (h : ∀ b ∈ records, classify (row b) = .row (cells b)) :
    readRows classify read columns (records.map row) =
        records.filterMap (fun b => columns.bind (read · (cells b))) ∧
      namesAfter classify columns (records.map row) = columns := by
  induction records with
  | nil => exact ⟨rfl, rfl⟩
  | cons b rest ih =>
    obtain ⟨hread, hnames⟩ := ih fun b hb => h b (List.mem_cons_of_mem _ hb)
    rw [List.map_cons, readRows, namesAfter, h b List.mem_cons_self]
    refine ⟨?_, hnames⟩
    dsimp only
    rw [hread, List.filterMap_cons]
    cases columns.bind (read · (cells b)) with
    | none => rfl
    | some a => rfl

end Rows

end Protheus.Tables
