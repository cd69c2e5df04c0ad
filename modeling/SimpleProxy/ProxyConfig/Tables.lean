import SimpleProxy.Core.Migration
import SimpleProxy.ProxyConfig.Commands

/-!
# Creating and dropping the tables

`cmd_migrate`, `cmd_drop` and `cmd_reset`, with the statements they execute. The query of
`get_all_tables` goes to the database without the mutex of `db_execute`, and is answered in
the same three ways; only the first column of its first row is read.
-/

namespace SimpleProxy

open Interact CString Stores

/-- The string `create_table_sql` leaves in its buffer. -/
def createTableSql (table : Table) : Bytes :=
  cstr ((List.range 4096).map fun i => (contents (createTableStores table) i).getD 0)

def dbUserMigration : ToolProc (Option Bytes) := allocated (createTableSql usersTable)

def tablesQuery : Bytes :=
  bytes "SELECT GROUP_CONCAT(CONCAT('`', table_name, '`') SEPARATOR ', ') " ++
    bytes "FROM information_schema.tables WHERE table_schema = DATABASE();"

def getAllTables : ToolProc (Option Bytes) := do
  match ← toolPerform (.dbExecute tablesQuery) with
  | .rows (some (some tables, _)) => allocated tables
  | _ => return none

def dropText (tables : Bytes) : Bytes := bytes "DROP TABLE IF EXISTS " ++ tables ++ bytes ";"

def dbDropDatabase : ToolProc (Option Bytes) := do
  match ← getAllTables with
  | none => return none
  | some tables => allocated (dropText tables)

def cmdMigrate : ToolProc Int := do
  executed (← dbUserMigration)

def cmdDrop : ToolProc Int := do
  executed (← dbDropDatabase)

/-- Both statements are executed, whatever becomes of the first one. -/
def cmdReset : ToolProc Int := do
  let drop ← dbDropDatabase
  let migrate ← dbUserMigration
  match drop, migrate with
  | some drop, some migrate =>
    let res₁ ← toolPerform (.dbExecute drop)
    let res₂ ← toolPerform (.dbExecute migrate)
    return if res₁ = .done ∧ res₂ = .done then 0 else 1
  | _, _ => return 1

end SimpleProxy
