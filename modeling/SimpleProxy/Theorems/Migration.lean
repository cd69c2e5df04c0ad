import SimpleProxy.Core.Migration

/-!
# The statement of a migration

`create_table_sql` adds up the lengths of the texts, whether they fit or not, and prints the
next one into what it takes for the rest of its buffer. The one table there is fits. For
longer ones a column or the end of the statement is lost, and as soon as the texts are
longer than the buffer the next one is printed behind it.
-/

namespace SimpleProxy.Theorems.Migration

open CString Stores Prints

variable {table : Table}

/-- What `create_table_sql` is for: the length never passes the size of the buffer, every
store hits it, and the complete statement is in it, terminated. -/
structure Complete (table : Table) : Prop where
  within : ∀ p ∈ createTablePrints table, p.start ≤ 4096
  inside : Inside 4096 (createTableStores table)
  text : ∀ i < table.statement.length, contents (createTableStores table) i = table.statement[i]?
  terminated : contents (createTableStores table) table.statement.length = some 0

/-- The columns fit in the buffer of `column_to_sql`, and the statement in its own. -/
def Fits (table : Table) : Prop :=
  (∀ col ∈ table.columns, col.text.length ≤ 511) ∧ table.statement.length ≤ 4095

instance (table : Table) : Decidable (Fits table) :=
  inferInstanceAs (Decidable (_ ∧ _))

/-- Where the prints start decides where they store. -/
theorem inside_iff_within :
    Inside 4096 (createTableStores table) ↔ ∀ p ∈ createTablePrints table, p.start ≤ 4096 := by
  have first : Inside 4096 (Print.stores ⟨0, 4096, table.head⟩) ↔ (0 : UInt64) ≤ 4096 :=
    @inside_print 4096 0 table.head
  have others : ∀ len texts, Inside 4096 ((prints 4096 len texts).flatMap Print.stores) ↔
      ∀ p ∈ prints 4096 len texts, p.start ≤ 4096 := fun len texts => @inside_prints 4096 len texts
  rw [createTableStores, createTablePrints, columnPrints_eq, List.flatMap_cons, inside_append,
    List.forall_mem_cons, first, others]

/-- The length passes the size of the buffer exactly if the texts do. -/
theorem within_iff :
    (∀ p ∈ createTablePrints table, p.start ≤ 4096) ↔
      min 4095 table.head.length + table.printed.length ≤ 4096 := by
  have size : (4096 : UInt64).toNat = 4096 := rfl
  have start : (UInt64.ofNat (min 4095 table.head.length)).toNat = min 4095 table.head.length := by
    rw [UInt64.toNat_ofNat']
    omega
  have bound : UInt64.ofNat (min 4095 table.head.length) ≤ 4096 := by
    rw [UInt64.le_iff_toNat_le, start, size]
    omega
  rw [createTablePrints, columnPrints_eq, length_printed_head, List.forall_mem_cons,
    and_iff_right (show (0 : UInt64) ≤ 4096 by decide), start_le_iff _ bound, start, size,
    flatten_columnTexts (Nat.zero_add _), Table.printed]
  intro t member
  have := length_of_mem_columnTexts member
  rw [size]
  omega

/-- Texts that are not longer than the buffer are left in it. -/
theorem spells_of_fits
    (fits : table.head.length + table.printed.length + 2 ≤ 4095) :
    Spells (createTableStores table) (table.head ++ table.printed ++ bytes ");") := by
  have texts : (columnTexts table.columns.length 0 table.columns ++ [bytes ");"]).flatten =
      table.printed ++ bytes ");" := by
    rw [List.flatten_append, flatten_columnTexts (Nat.zero_add _), Table.printed]
    simp
  have first : Print.stores ⟨0, 4096, table.head⟩ = sequential 0 (table.head ++ [0]) :=
    @stores_of_fits 4096 0 table.head (by show 0 + table.head.length < 4096; omega)
  have start : Spells (Print.stores ⟨0, 4096, table.head⟩) table.head := by
    intro i
    have found := contents_sequential 0 (table.head ++ [0]) i
    rwa [Nat.zero_add, ← first] at found
  have len : (UInt64.ofNat (min 4095 table.head.length)).toNat = table.head.length := by
    rw [UInt64.toNat_ofNat']
    omega
  rw [createTableStores, createTablePrints, columnPrints_eq, length_printed_head,
    List.flatMap_cons, List.append_assoc, ← texts]
  refine spells_prints start len ?_
  rw [texts, List.length_append]
  show table.head.length + (table.printed.length + 2) < 4096
  omega

theorem complete_of_fits (fits : Fits table) : Complete table := by
  obtain ⟨short, whole⟩ := fits
  have printed : table.columns.map columnToSql = table.columns.map Column.text :=
    List.map_congr_left fun col member => columnToSql_of_short (short col member)
  have statement : table.statement = table.head ++ table.printed ++ bytes ");" := by
    rw [Table.statement, Table.printed, printed]
  have sum : table.statement.length = table.head.length + table.printed.length + 2 := by
    rw [statement, List.length_append, List.length_append]
    rfl
  have spells : Spells (createTableStores table) _ := spells_of_fits (by omega)
  have within := within_iff.mpr (show min 4095 table.head.length + table.printed.length ≤ 4096 by
    omega)
  rw [← statement] at spells
  refine ⟨within, inside_iff_within.mpr within, fun i hi => ?_, ?_⟩
  · rw [spells, List.getElem?_append_left hi]
  · rw [spells, List.getElem?_append_right (Nat.le_refl _), Nat.sub_self]
    rfl

theorem fits_of_complete (complete : Complete table) : Fits table := by
  have whole : table.statement.length < 4096 :=
    lt_of_contents complete.inside complete.terminated
  obtain ⟨short, cut⟩ := length_intercalate_columnToSql table.columns
  have sum : table.statement.length = table.head.length +
      ((bytes ", ").intercalate (table.columns.map Column.text)).length + 2 := by
    rw [Table.statement, List.length_append, List.length_append]
    rfl
  have printed : table.printed.length =
      ((bytes ", ").intercalate (table.columns.map columnToSql)).length := rfl
  -- what was printed is in the buffer, and nothing behind it
  have spells : Spells (createTableStores table) _ := spells_of_fits (by omega)
  have last := complete.terminated
  rw [spells] at last
  obtain ⟨there, -⟩ := List.getElem?_eq_some_iff.mp last
  rw [List.length_append, List.length_append, List.length_append] at there
  have two : (bytes ");").length = 2 := rfl
  rw [two, List.length_singleton] at there
  exact ⟨cut (by omega), by omega⟩

/-- **Safety.** The length stays within the buffer, and so does every store, exactly for
tables whose texts are not longer than the buffer. -/
theorem safe_iff (table : Table) :
    (∀ p ∈ createTablePrints table, p.start ≤ 4096) ∧ Inside 4096 (createTableStores table) ↔
      min 4095 table.head.length + table.printed.length ≤ 4096 := by
  rw [inside_iff_within, and_self, within_iff]

/-- **Creating a table.** The complete statement is returned exactly if every column fits
in 511 bytes and the statement in 4095. -/
theorem complete_iff_fits (table : Table) : Complete table ↔ Fits table :=
  ⟨fits_of_complete, complete_of_fits⟩

example : Complete usersTable := complete_of_fits (by decide +kernel)

theorem nulFree_replicate (n : Nat) : 0 ∉ List.replicate n (97 : UInt8) :=
  fun member => absurd (List.eq_of_mem_replicate member) (by decide)

/-- A column of 509 bytes. -/
def wideColumn : Column :=
  ⟨literal "c", literal "TEXT", 0, some ⟨List.replicate 500 97, nulFree_replicate 500⟩⟩

theorem length_wideColumn : wideColumn.text.length = 509 := by
  show (bytes "`" ++ (literal "c").text ++ bytes "` " ++ (literal "TEXT").text ++ bytes " " ++
    List.replicate 500 97).length = 509
  rw [List.length_append, List.length_replicate]
  rfl

/-- Eight of them. -/
def wideTable : Table := ⟨literal "t", List.replicate 8 wideColumn⟩

theorem length_wideTable : wideTable.printed.length = 4086 := by
  have text : columnToSql wideColumn = wideColumn.text :=
    columnToSql_of_short (by rw [length_wideColumn]; decide)
  have separator : (bytes ", ").length = 2 := rfl
  rw [Table.printed, wideTable, List.map_replicate, text]
  simp only [List.replicate, List.intercalate_cons_cons, List.intercalate_singleton,
    List.length_append, length_wideColumn, separator]

/-- The end of the statement is printed behind the buffer. -/
theorem complete_fails :
    (∃ p ∈ createTablePrints wideTable, 4096 < p.start) ∧
      ¬ Inside 4096 (createTableStores wideTable) ∧ ¬ ∀ table, Complete table := by
  have head : wideTable.head.length = 32 := rfl
  have overrun : ¬ ∀ p ∈ createTablePrints wideTable, p.start ≤ 4096 := by
    rw [within_iff, head, length_wideTable]
    decide
  refine ⟨?_, inside_iff_within.not.mpr overrun, fun all => overrun (all wideTable).within⟩
  simp only [not_forall, UInt64.not_le] at overrun
  obtain ⟨p, member, behind⟩ := overrun
  exact ⟨p, member, behind⟩

end SimpleProxy.Theorems.Migration
