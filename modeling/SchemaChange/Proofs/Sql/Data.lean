import SchemaChange.Proofs.Sql.Objects
import SchemaChange.Sql.Data

/-!
# Statements for data in scripts

Rows that are inserted, updated or deleted are spelled out in the statements, which stand for
themselves whatever the values hold.
-/
namespace SchemaChange

open Script Sql

/-- A row without foreign SQL and without names that stand in quotes of their own. -/
structure Row.Fits (row : Row) (q : Quoter) : Prop where
  columns : Unquoted q row.columns
  values : ∀ v ∈ row.values, v.isOwn

section Data

variable {p : Profile} {mark : Char} {tight : Prop} {table : ObjectName} {row : Row}

theorem Row.Fits.entry {q : Quoter} (hrow : row.Fits q) {entry : String × Literal}
    (h : entry ∈ row.entries) : q.isQuoted entry.1 = false ∧ entry.2.isOwn :=
  ⟨hrow.columns _ (List.mem_map_of_mem h), hrow.values _ (List.mem_map_of_mem h)⟩

theorem yields_insertRow (hp : p.Wraps mark) (ht : Unquoted p.quoter table.names)
    (hrow : row.Fits p.quoter) :
    Yields (p.insertRow (p.quoter.object table) row) (Statement p.quoter tight) := by
  have hvalues : Yields (row.values.mapM (Literal.sql p.dialect))
      (∀ part ∈ ·, Woven p.quoter part) :=
    yields_mapM fun v hv => (hp.literal True (hrow.values v hv)).mono fun _ h => h.woven
  refine hvalues.bind fun values hvalues => yields_ok ?_
  simp only [List.append_assoc]
  exact .lead (by decide) (.then (woven_object hp ht) (by decide)
    (.then (hp.wraps.woven_names hrow.columns) (by decide) (.last (.list hvalues) (by decide))))

theorem yields_insertData (hp : p.Wraps mark) (ht : Unquoted p.quoter table.names)
    {rows : List Row} (hrows : ∀ row ∈ rows, row.Fits p.quoter) (identity : Bool) :
    Yields (p.insertData table rows identity) (Statements p.quoter tight) := by
  have hinsert : Yields (rows.mapM (p.insertRow (p.quoter.object table)))
      (Statements p.quoter tight) :=
    (yields_mapM fun row hrow => yields_insertRow hp ht (hrows row hrow)).mono
      fun sqls hsqls sql hsql => .inl (hsqls sql hsql)
  have hswitch : ∀ {state : String}, (isFirm (" " ++ state).toList &&
      isClosed (" " ++ state)) = true → Statement p.quoter tight
        (Profile.identityInsert (p.quoter.object table) state) := by
    intro state hstate
    simp only [Profile.identityInsert, List.append_assoc]
    exact .lead (by decide) (.last (woven_object hp ht) hstate)
  simp only [Profile.insertData, if_neg fun h : p.dialect = .oracle ∧ 1 < rows.length =>
    hp.notOracle h.1]
  refine hinsert.bind fun statements hstatements => ?_
  split
  · exact yields_ok ((Statements.cons (hswitch (by decide)) hstatements).append
      (statements_one (hswitch (by decide))))
  · exact yields_ok hstatements

theorem yields_predicate (hp : p.Wraps mark) {column : String}
    (hc : p.quoter.isQuoted column = false) {v : Literal} (hv : v.isOwn) :
    Yields (p.predicate column v) (Closing p.quoter tight) := by
  rw [Profile.predicate]
  split
  · exact yields_ok (.last (hp.wraps.woven_name hc) (by decide))
  · exact yields_assignment hp hc hv

/-- The condition that selects a row. -/
theorem yields_condition (hp : p.Wraps mark) (hrow : row.Fits p.quoter) :
    Yields (p.condition row) (Closing p.quoter tight) := by
  rw [Profile.condition]
  split
  · exact yields_ok closing_everyRow
  · rename_i hempty
    refine yields_bind _ fun predicates hpredicates => yields_ok (.join (by decide) ?_ ?_)
    · obtain ⟨entry, hentry⟩ := List.exists_mem_of_ne_nil row.entries
        (by simpa [Row.isEmpty] using hempty)
      obtain ⟨predicate, hmem, -⟩ := mem_of_mapM hpredicates hentry
      exact List.ne_nil_of_mem hmem
    · exact yields_mapM (fun entry hentry =>
        yields_predicate hp (hrow.entry hentry).1 (hrow.entry hentry).2) predicates hpredicates

theorem yields_updateData (hp : p.Wraps mark) (ht : Unquoted p.quoter table.names)
    {assignments filter : Row} (ha : assignments.Fits p.quoter) (hf : filter.Fits p.quoter)
    (allRows : Bool) :
    Yields (p.updateData table assignments filter allRows) (Statement p.quoter tight) := by
  have hassign : Yields (assignments.entries.mapM fun entry => p.assignment entry.1 entry.2)
      (∀ part ∈ ·, Closing p.quoter tight part) :=
    yields_mapM fun entry hentry => yields_assignment hp (ha.entry hentry).1 (ha.entry hentry).2
  rw [Profile.updateData]
  refine hassign.bind fun parts hparts => ?_
  have hlist : Woven p.quoter (Sql.list parts) := .list fun part hpart => (hparts part hpart).woven
  dsimp only
  split
  · exact yields_ok (statement_update hp ht hlist closing_everyRow)
  · exact (yields_condition hp hf).bind fun condition hcondition =>
      yields_ok (statement_update hp ht hlist hcondition)

theorem yields_deleteData (hp : p.Wraps mark) (ht : Unquoted p.quoter table.names)
    {rows : List Row} (hrows : ∀ row ∈ rows, row.Fits p.quoter) (allRows : Bool) :
    Yields (p.deleteData table rows allRows) (Statements p.quoter tight) := by
  have hdelete : ∀ {condition}, Closing p.quoter tight condition →
      Statement p.quoter tight (p.delete table condition) := by
    intro condition hcondition
    simp only [Profile.delete, List.append_assoc]
    exact .lead (by decide) (.then (woven_object hp ht) (by decide) hcondition)
  rw [Profile.deleteData]
  split
  · exact yields_ok (statements_one (hdelete closing_everyRow))
  · exact yields_mapM fun row hrow => (yields_condition hp (hrows row hrow)).bind
      fun condition hcondition => yields_ok (.inl (hdelete hcondition))

end Data

end SchemaChange
