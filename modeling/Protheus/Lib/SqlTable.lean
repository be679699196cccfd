import Mathlib.Data.List.Nodup
import Mathlib.Data.List.Sort

/-!
Tables with a primary key.

A table is the list of its rows as they were inserted.  `insert` fails on a row whose key
is taken, and `replaceAll` is a transaction that deletes every row and inserts others: it
succeeds exactly when their keys are distinct, and leaves the table as it was otherwise.
`insertOrIgnore` keeps the row that stands under the key, and `insertOrReplace` the new one.
`select` reads the rows in an order; a table that was filled in that order is read back
as it was filled.
-/

namespace Protheus.SqlTable

variable {ρ κ : Type*} [DecidableEq κ] (key : ρ → κ)

/-- `INSERT`. -/
def insert (table : List ρ) (row : ρ) : Option (List ρ) :=
  if key row ∈ table.map key then none else some (table ++ [row])

/-- `INSERT OR IGNORE`. -/
def insertOrIgnore (table : List ρ) (row : ρ) : List ρ :=
  if key row ∈ table.map key then table else table ++ [row]

/-- `INSERT OR REPLACE`. -/
def insertOrReplace (table : List ρ) (row : ρ) : List ρ := table.filter (key · ≠ key row) ++ [row]

/-- Several inserts, up to the first that fails. -/
def insertAll (table rows : List ρ) : Option (List ρ) := rows.foldlM (insert key) table

/-- `DELETE` and inserts in one transaction; whether it is committed, and the table after. -/
def replaceAll (table rows : List ρ) : Bool × List ρ :=
  match insertAll key [] rows with
  | some table' => (true, table')
  | none => (false, table)

/-- `SELECT` with `ORDER BY`. -/
def select (order : ρ → ρ → Prop) [DecidableRel order] (table : List ρ) : List ρ :=
  table.insertionSort order

variable {key}

theorem insertAll_eq {table rows : List ρ} (h : (table.map key).Nodup) :
    insertAll key table rows =
      if ((table ++ rows).map key).Nodup then some (table ++ rows) else none := by
  induction rows generalizing table with
  | nil => simp [insertAll, h]
  | cons row rows ih =>
    rw [insertAll, List.foldlM_cons, insert]
    by_cases hkey : key row ∈ table.map key
    · rw [if_pos hkey, if_neg]
      · rfl
      · intro hnodup
        rw [List.map_append, List.nodup_append, List.map_cons] at hnodup
        exact hnodup.2.2 _ hkey _ List.mem_cons_self rfl
    · rw [if_neg hkey]
      have hnext : ((table ++ [row]).map key).Nodup := by
        rw [List.map_append, List.nodup_append]
        refine ⟨h, by simp, fun a ha b hb => ?_⟩
        rw [List.map_singleton, List.mem_singleton] at hb
        rintro rfl
        exact hkey (hb ▸ ha)
      have hrest := ih hnext
      rw [insertAll, List.append_assoc, List.singleton_append] at hrest
      exact hrest

/-- **A replacement** is committed exactly when the keys are distinct. -/
theorem replaceAll_eq (table rows : List ρ) :
    replaceAll key table rows =
      if (rows.map key).Nodup then (true, rows) else (false, table) := by
  rw [replaceAll, insertAll_eq (by simp), List.nil_append]
  split
  · rename_i htable
    split at htable
    · rw [if_pos ‹_›, Option.some.inj htable]
    · cases htable
  · rename_i hnone
    split at hnone
    · cases hnone
    · rw [if_neg ‹_›]

variable {table : List ρ} {row other : ρ}

/-- No row is lost to a row that may be ignored. -/
theorem mem_insertOrIgnore_of_mem (h : other ∈ table) : other ∈ insertOrIgnore key table row := by
  unfold insertOrIgnore
  split
  · exact h
  · exact List.mem_append_left _ h

theorem mem_of_mem_insertOrIgnore (h : other ∈ insertOrIgnore key table row) :
    other ∈ table ∨ other = row := by
  unfold insertOrIgnore at h
  split at h
  · exact .inl h
  · exact (List.mem_append.mp h).imp_right List.mem_singleton.mp

/-- A row that may be ignored is inserted, or one of its key stood in the table. -/
theorem exists_mem_insertOrIgnore (key : ρ → κ) (table : List ρ) (row : ρ) :
    row ∈ insertOrIgnore key table row ∨ ∃ other ∈ table, key other = key row := by
  unfold insertOrIgnore
  split
  · rename_i hkey
    exact .inr (List.mem_map.mp hkey)
  · exact .inl List.mem_concat_self

theorem mem_insertOrReplace :
    other ∈ insertOrReplace key table row ↔ other = row ∨ (other ∈ table ∧ key other ≠ key row) := by
  rw [insertOrReplace, List.mem_append, List.mem_filter, List.mem_singleton, decide_eq_true_iff,
    or_comm]

theorem select_eq_self {order : ρ → ρ → Prop} [DecidableRel order] {table : List ρ}
    (h : table.Pairwise order) : select order table = table :=
  h.insertionSort_eq

end Protheus.SqlTable
