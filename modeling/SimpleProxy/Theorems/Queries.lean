import SimpleProxy.Core.User

/-!
# Query injection

The arguments of a query are put between quotes as they are. The statement that
MySQL reads is the intended one only for arguments that stand for themselves
between quotes, and only if it was not cut off at the end of the buffer.
-/

namespace SimpleProxy.Theorems.Queries

open CString

/-- MySQL reads the text of a query as its fixed statement, in which every
placeholder is one string literal with the argument as its value. -/
def ReadsAsTemplate (q : Query) : Prop := Sql.Lexes q.text (Sql.meaning q.template)

/-- **Queries.** A query reads as its template exactly if no argument has a quote,
or a backslash other than in front of a wildcard, and the statement fits into
the buffer. -/
theorem readsAsTemplate_iff (q : Query) :
    ReadsAsTemplate q ↔ (∀ arg ∈ Sql.args q.template, Sql.verbatim arg = true) ∧
      (Sql.render q.template).length < querySize := by
  rw [ReadsAsTemplate, q.text_eq, Sql.lexes_take_iff q.wellFormed_template]
  exact and_congr_right fun _ => Nat.le_pred_iff_lt (show 0 < querySize by decide)

/-- A user name that ends its literal and selects every row of the table. -/
def injection : Bytes := bytes "' OR '1'='1"

theorem readsAsTemplate_fails : ¬ ∀ q : Query, q.Passable → ReadsAsTemplate q := by
  intro claim
  have reads := claim (.get injection) ⟨by decide, by decide, by decide⟩
  rw [ReadsAsTemplate, Query.text_eq, Sql.lexes_take_iff (Query.wellFormed_template _)] at reads
  exact absurd (reads.1 injection List.mem_cons_self) (by decide +kernel)

end SimpleProxy.Theorems.Queries
