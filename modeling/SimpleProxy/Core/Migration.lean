import SimpleProxy.Core.User
import SimpleProxy.Lib.Prints

/-!
# The statement that creates a table

`create_table_sql` prints into a buffer of 4096 bytes and `column_to_sql` into one of 512.
`createTablePrints` is what is printed where; `statement` is what is meant to be in the
buffer afterwards. Allocations, `strdup` among them, are taken to succeed.
-/

namespace SimpleProxy

open CString Stores Prints

/-- `extra` may be NULL. -/
structure Column where
  name : CStr
  type : CStr
  length : Int
  extra : Option CStr

/-- `column_count` is the number of columns. -/
structure Table where
  name : CStr
  columns : List Column

/-- What `column_to_sql` prints. -/
def Column.text (col : Column) : Bytes :=
  let extra := (col.extra.map CStr.text).getD []
  if 0 < col.length then
    bytes "`" ++ col.name.text ++ bytes "` " ++ col.type.text ++ bytes "(" ++ decimal col.length ++
      bytes ") " ++ extra
  else
    bytes "`" ++ col.name.text ++ bytes "` " ++ col.type.text ++ bytes " " ++ extra

def columnToSql (col : Column) : Bytes := snprintf 512 col.text

/-- The loop of `create_table_sql` from `columns[i]` on, and the end of the statement. -/
def columnPrints (columnCount i : Nat) (len : UInt64) : List Column → List Print
  | [] => [⟨len, 4096 - len, bytes ");"⟩]
  | col :: columns =>
    let text := columnToSql col ++ if i < columnCount - 1 then bytes ", " else []
    ⟨len, 4096 - len, text⟩ ::
      columnPrints columnCount (i + 1) (len + .ofNat text.length) columns

/-- The beginning of the statement. -/
def Table.head (table : Table) : Bytes :=
  bytes "CREATE TABLE IF NOT EXISTS `" ++ table.name.text ++ bytes "` ("

/-- Everything `create_table_sql` prints; `len` starts as the length of the string that is
in the buffer after the first print. -/
def createTablePrints (table : Table) : List Print :=
  ⟨0, 4096, table.head⟩ ::
    columnPrints table.columns.length 0 (.ofNat (cstr (snprintf 4096 table.head)).length)
      table.columns

/-- The stores of `create_table_sql` into its buffer. -/
def createTableStores (table : Table) : List (Store UInt8) :=
  (createTablePrints table).flatMap Print.stores

/-- The complete statement. -/
def Table.statement (table : Table) : Bytes :=
  table.head ++ (bytes ", ").intercalate (table.columns.map Column.text) ++ bytes ");"

/-- A string literal. -/
def literal (s : String) : CStr := ⟨cstr (bytes s), not_mem_cstr _⟩

/-- The table of `db_user_migration`. -/
def usersTable : Table where
  name := ⟨cstr tableName, not_mem_cstr _⟩
  columns :=
    [⟨literal "id", literal "INT", 0, some (literal "PRIMARY KEY AUTO_INCREMENT")⟩,
      ⟨literal "username", literal "VARCHAR", 50, some (literal "NOT NULL UNIQUE")⟩,
      ⟨literal "password", literal "VARCHAR", 100, some (literal "NOT NULL")⟩,
      ⟨literal "created_at", literal "TIMESTAMP", 0, some (literal "DEFAULT CURRENT_TIMESTAMP")⟩,
      ⟨literal "updated_at", literal "TIMESTAMP", 0,
        some (literal "DEFAULT CURRENT_TIMESTAMP ON UPDATE CURRENT_TIMESTAMP")⟩]

/-! ## What is printed -/

/-- The texts of the columns from `columns[i]` on. -/
def columnTexts (columnCount i : Nat) : List Column → List Bytes
  | [] => []
  | col :: columns =>
    (columnToSql col ++ if i < columnCount - 1 then bytes ", " else []) ::
      columnTexts columnCount (i + 1) columns

theorem columnPrints_eq (columnCount i : Nat) (len : UInt64) (columns : List Column) :
    columnPrints columnCount i len columns =
      prints 4096 len (columnTexts columnCount i columns ++ [bytes ");"]) := by
  induction columns generalizing i len with
  | nil => rfl
  | cons col columns ih =>
      rw [columnPrints, ih]
      rfl

/-- The separator stands behind every column but the last one. -/
theorem flatten_columnTexts {columnCount i : Nat} {columns : List Column}
    (h : i + columns.length = columnCount) :
    (columnTexts columnCount i columns).flatten =
      (bytes ", ").intercalate (columns.map columnToSql) := by
  induction columns generalizing i with
  | nil => rfl
  | cons col columns ih =>
      rw [List.length_cons] at h
      rw [columnTexts, List.flatten_cons, ih (by omega), List.map_cons]
      cases columns with
      | nil =>
          rw [List.length_nil] at h
          rw [if_neg (by omega), List.append_nil, List.map_nil, List.intercalate_nil,
            List.intercalate_singleton, List.append_nil]
      | cons next columns =>
          rw [List.length_cons] at h
          rw [if_pos (by omega), List.map_cons, List.intercalate_cons_cons]

theorem length_columnToSql (col : Column) : (columnToSql col).length = min 511 col.text.length :=
  List.length_take

/-- A text of the loop is at most 513 bytes long. -/
theorem length_of_mem_columnTexts {columnCount i : Nat} {columns : List Column} {t : Bytes}
    (h : t ∈ columnTexts columnCount i columns) : t.length ≤ 513 := by
  induction columns generalizing i with
  | nil => cases h
  | cons col columns ih =>
      rcases List.mem_cons.mp h with rfl | h
      · have text := length_columnToSql col
        rw [List.length_append]
        split
        · show _ + 2 ≤ 513
          omega
        · show _ + 0 ≤ 513
          omega
      · exact ih h

/-- What is printed between the beginning and the end of the statement. -/
def Table.printed (table : Table) : Bytes :=
  (bytes ", ").intercalate (table.columns.map columnToSql)

/-- No more is printed than is meant, and less if a column is cut off. -/
theorem length_intercalate_columnToSql (columns : List Column) :
    ((bytes ", ").intercalate (columns.map columnToSql)).length ≤
        ((bytes ", ").intercalate (columns.map Column.text)).length ∧
      (((bytes ", ").intercalate (columns.map columnToSql)).length =
          ((bytes ", ").intercalate (columns.map Column.text)).length →
        ∀ col ∈ columns, col.text.length ≤ 511) := by
  induction columns with
  | nil => exact ⟨Nat.le_refl _, by simp⟩
  | cons col columns ih =>
      have text := length_columnToSql col
      obtain ⟨short, whole⟩ := ih
      cases columns with
      | nil =>
          simp only [List.map_cons, List.map_nil, List.intercalate_singleton,
            List.forall_mem_singleton]
          omega
      | cons next columns =>
          simp only [List.map_cons, List.intercalate_cons_cons, List.length_append] at short whole ⊢
          refine ⟨by omega, fun same => ?_⟩
          rw [List.forall_mem_cons]
          exact ⟨by omega, whole (by omega)⟩

/-- The length of the string in the buffer after the first print. -/
theorem length_printed_head (table : Table) :
    (cstr (snprintf 4096 table.head)).length = min 4095 table.head.length := by
  have clean : 0 ∉ table.head := by
    rw [Table.head, List.mem_append, List.mem_append, not_or, not_or]
    exact ⟨⟨by decide, table.name.nulFree⟩, by decide⟩
  rw [snprintf, cstr_of_not_mem fun member => clean (List.mem_of_mem_take member),
    List.length_take]

theorem columnToSql_of_short {col : Column} (h : col.text.length ≤ 511) :
    columnToSql col = col.text := List.take_of_length_le h

end SimpleProxy
