import SchemaChange.Proofs.Sql.Statement

/-!
# Statements for schema objects in scripts

Every statement for a table, an index, a constraint or a sequence stands for itself.
-/
namespace SchemaChange

open Script Sql

section Objects

variable {p : Profile} {mark : Char} {tight : Prop} {table : ObjectName}

theorem yields_createForeignKey (hp : p.Wraps mark) {k : ForeignKey}
    (hk : Unquoted p.quoter k.names) :
    Yields (p.createForeignKey k) (Statements p.quoter tight) := by
  have htable : Unquoted p.quoter k.foreignTable.names := fun n hn =>
    hk n (by simp [ForeignKey.names, hn])
  rw [Profile.createForeignKey]
  cases hform : p.forms.addForeignKey with
  | none => exact yields_skip p _
  | some form =>
      exact (yields_foreignKey hp hk).bind fun key hkey => yields_ok
        (statements_one (hp.forms.addForeignKey form hform (woven_object hp htable) hkey))

theorem woven_indexName (hp : p.Wraps mark) {ix : Index} (hix : Unquoted p.quoter ix.names) :
    Woven p.quoter (Sql.name (p.indexName ix)) := by
  rw [Profile.indexName]
  cases hname : ix.name with
  | some name => exact hp.wraps.woven_name (hix name (by simp [Index.names, hname]))
  | none =>
      have hpattern : "IX_{table}_{columns}".toList = 'I' :: "X_{table}_{columns}".toList := by
        decide
      exact (hp.wraps.closing_derived hpattern (by decide) _ hp.length True).woven

theorem woven_indexColumns (hp : p.Wraps mark) {ix : Index} (hix : Unquoted p.quoter ix.names) :
    Woven p.quoter (Sql.list (ix.columns.map Profile.indexColumn)) := by
  refine .list fun part hpart => ?_
  obtain ⟨c, hc, rfl⟩ := List.mem_map.1 hpart
  have hname : p.quoter.isQuoted c.name = false :=
    hix c.name (by simp only [Index.names, List.mem_append, List.mem_map]; exact .inr ⟨c, hc, rfl⟩)
  rw [Profile.indexColumn, List.append_assoc]
  refine .then (hp.wraps.woven_name hname) (by decide) ?_
  cases c.direction <;> exact .word (by decide)

theorem yields_createIndex (hp : p.Wraps mark) {ix : Index} (hix : Unquoted p.quoter ix.names) :
    Yields (p.createIndex ix) (Statements p.quoter tight) := by
  have htable : Unquoted p.quoter ix.table.names := fun n hn => hix n (by simp [Index.names, hn])
  have hword : Yields (p.clusteredWord ix) fun word => word = "" ∨ word = "CLUSTERED " := by
    rw [Profile.clusteredWord]
    split
    · exact yields_ok (.inl rfl)
    · split
      · exact yields_ok (.inr rfl)
      · exact yields_bind _ fun _ _ => yields_ok (.inl rfl)
  rw [Profile.createIndex]
  split
  · refine hword.bind fun clustered hclustered => yields_ok (statements_one ?_)
    simp only [List.append_assoc]
    have hcolumns := woven_indexColumns hp hix
    have hrest : Closing p.quoter tight (Sql.name (p.indexName ix) ++ (" ON " ++
        (p.quoter.object ix.table ++ (" (" ++
          (Sql.list (ix.columns.map Profile.indexColumn) ++ ")"))))) :=
      .then (woven_indexName hp hix) (by decide) (.then (woven_object hp htable) (by decide)
        (.last hcolumns (by decide)))
    rcases hclustered with rfl | rfl <;> cases ix.isUnique <;> exact .lead (by decide) hrest
  · exact yields_skip p _

theorem yields_deleteIndex (hp : p.Wraps mark) (ht : Unquoted p.quoter table.names)
    (hne : table.name ≠ "") {name : String} (hn : p.quoter.isQuoted name = false)
    (hname : name ≠ "") : Yields (p.deleteIndex table name) (Statements p.quoter tight) := by
  have hindex : Unquoted p.quoter ({ table with name } : ObjectName).names := by
    intro n hmem
    rcases List.mem_cons.1 hmem with rfl | hmem
    · exact hn
    · exact ht n (List.mem_cons_of_mem _ hmem)
  rw [Profile.deleteIndex]
  split
  · exact yields_ok (statements_one (hp.forms.dropIndex (hp.wraps.closing_name hn fun _ => hname)
      (hp.object hindex fun _ => hname) (hp.object ht fun _ => hne)))
  · exact yields_skip p _

/-- Foreign keys inside the definition of a table. -/
theorem woven_flatMap {q : Quoter} {x : Sql} (hx : Woven q x) {parts : List Sql}
    (hparts : ∀ part ∈ parts, Woven q part) :
    Woven q (x ++ parts.flatMap fun part => (", " ++ part : Sql)) := by
  induction parts generalizing x with
  | nil => simpa using hx
  | cons part parts ih =>
      rw [List.flatMap_cons, ← List.append_assoc]
      refine ih ?_ fun part hpart => hparts part (List.mem_cons_of_mem _ hpart)
      exact hx.then (by decide) (hparts part (List.mem_cons_self ..))

/-- The definition of a table, with a description in the dialect that has it there. -/
theorem statement_createTable (hp : p.Wraps mark) (ht : Unquoted p.quoter table.names)
    {body : Sql} (hbody : Woven p.quoter body) (description : Option String) :
    Statement p.quoter tight
      (match p.dialect, description with
      | .mySql, some description =>
          p.forms.createTable (p.quoter.object table) body ++ " COMMENT " ++ Sql.text description
      | _, _ => p.forms.createTable (p.quoter.object table) body) := by
  have hcreate : Statement p.quoter tight (p.forms.createTable (p.quoter.object table) body) :=
    hp.forms.createTable (woven_object hp ht) hbody
  split
  · rw [List.append_assoc]
    exact hcreate.then (by decide) (closing_text _ _)
  · exact hcreate

theorem statements_describeNewTable (hp : p.Wraps mark) {t : Table}
    (ht : Unquoted p.quoter t.name.names) (hcolumns : ∀ c ∈ t.columns, c.Fits p.quoter tight) :
    Statements p.quoter tight (p.describeNewTable t) := by
  rw [Profile.describeNewTable]
  refine .append ?_ fun sql hsql => ?_
  · cases t.description with
    | none => exact statements_nil
    | some description => exact statements_describeTable hp ht description false
  · obtain ⟨c, hc, hbind⟩ := List.mem_filterMap.1 hsql
    obtain ⟨description, -, hd⟩ := Option.bind_eq_some_iff.1 hbind
    exact statements_describeColumn hp ht (hcolumns c hc).names.head description false sql
      (Option.mem_toList.2 hd)

/-- The statements that create a table with all that belongs to it. -/
theorem yields_createTable (hp : p.Wraps mark) {t : Table} (ht : Unquoted p.quoter t.names)
    (hcolumns : ∀ c ∈ t.columns, c.Fits p.quoter tight) :
    Yields (p.createTable t) (Statements p.quoter tight) := by
  have htable : Unquoted p.quoter t.name.names := fun n hn => ht n (by simp [Table.names, hn])
  have hkeys : ∀ k ∈ t.foreignKeys, Unquoted p.quoter k.names := fun k hk n hn =>
    ht n (List.mem_append_left _ (List.mem_append_right _ (List.mem_flatMap.2 ⟨k, hk, hn⟩)))
  have hindexes : ∀ ix ∈ t.indexes, Unquoted p.quoter ix.names := fun ix hix n hn =>
    ht n (List.mem_append_right _ (List.mem_flatMap.2 ⟨ix, hix, hn⟩))
  have hdescribed := statements_describeNewTable hp htable hcolumns
  have hindex : Yields (t.indexes.mapM p.createIndex)
      (∀ sqls ∈ ·, Statements p.quoter tight sqls) :=
    yields_mapM fun ix hix => yields_createIndex hp (hindexes ix hix)
  simp only [Profile.createTable, pure_bind]
  refine (yields_columns hp hcolumns t.name.name).bind fun columns hcolumns => ?_
  split
  · -- foreign keys stand inside the definition
    have hinner : Yields (t.foreignKeys.mapM p.foreignKey) (∀ key ∈ ·, Closing p.quoter True key) :=
      yields_mapM fun k hk => yields_foreignKey hp (hkeys k hk)
    refine hinner.bind fun inner hinner => hindex.bind fun indexes hindexes => yields_ok ?_
    have hbody := woven_flatMap hcolumns fun key hkey => (hinner key hkey).woven
    exact .append (.append (.cons (statement_createTable hp htable hbody _) hdescribed)
      statements_nil) (.flatten hindexes)
  · -- foreign keys are added behind it
    have hforeign : Yields (t.foreignKeys.mapM p.createForeignKey)
        (∀ sqls ∈ ·, Statements p.quoter tight sqls) :=
      yields_mapM fun k hk => yields_createForeignKey hp (hkeys k hk)
    refine hforeign.bind fun keys hkeys => hindex.bind fun indexes hindexes => yields_ok ?_
    simp only [List.flatMap_nil, List.append_nil]
    exact .append (.append (.cons (statement_createTable hp htable hcolumns _) hdescribed)
      (.flatten hkeys)) (.flatten hindexes)

theorem yields_deleteTable (hp : p.Wraps mark) (ht : Unquoted p.quoter table.names)
    (hne : table.name ≠ "") (ifExists : Bool) :
    Yields (p.deleteTable table ifExists) (Statements p.quoter tight) := by
  rw [Profile.deleteTable]
  split
  · cases hform : p.forms.dropTableIfExists with
    | none => exact yields_skip p _
    | some form =>
        exact yields_ok (statements_one (hp.forms.dropTableIfExists form hform
          (hp.object ht fun _ => hne)))
  · exact yields_ok (statements_one (.lead (by decide) (hp.object ht fun _ => hne)))

theorem statements_deleteColumns (hp : p.Wraps mark) (ht : Unquoted p.quoter table.names)
    {columns : List String} (hc : Unquoted p.quoter columns) (hne : ∀ c ∈ columns, c ≠ "")
    (hline : p.dialect = .sqlServer → ∀ c ∈ columns, '\n' ∉ c.toList) :
    Statements p.quoter tight (p.deleteColumns table columns) := by
  have hdrops : Statements p.quoter tight
      (columns.map fun c => p.forms.dropColumn (p.quoter.object table) (Sql.name c)) := by
    intro sql hsql
    obtain ⟨c, hmem, rfl⟩ := List.mem_map.1 hsql
    exact .inl (hp.forms.dropColumn (woven_object hp ht)
      (hp.wraps.closing_name (hc c hmem) fun _ => hne c hmem))
  rw [Profile.deleteColumns]
  split
  · rename_i hd
    exact .script (hp.same.trans hd) (whole_dropDefaults (hline hd)) hdrops
  · exact hdrops

section Constraints

variable {c : Constraint}

/-- The name of a constraint to be deleted is not empty. -/
theorem closing_constraintName (hp : p.Wraps mark) (hc : ∀ name, c.name = some name →
    p.quoter.isQuoted name = false) (hne : tight → c.name ≠ some "") :
    Closing p.quoter tight (Sql.name (p.constraintName c)) := by
  rw [Profile.constraintName]
  cases hname : c.name with
  | some name => exact hp.wraps.closing_name (hc name hname) fun ht he => hne ht (he ▸ hname)
  | none =>
      have hprimary : "PK_{table}".toList = 'P' :: "K_{table}".toList := by decide
      have hunique : "UC_{table}_{columns}".toList = 'U' :: "C_{table}_{columns}".toList := by
        decide
      cases c.type with
      | primaryKey => exact hp.wraps.closing_derived hprimary (by decide) _ hp.length tight
      | unique => exact hp.wraps.closing_derived hunique (by decide) _ hp.length tight

theorem yields_createConstraint (hp : p.Wraps mark) (hc : Unquoted p.quoter
    (c.name.toList ++ c.table.names ++ c.columns.names)) :
    Yields (p.createConstraint c) (Statements p.quoter tight) := by
  have htable : Unquoted p.quoter c.table.names := fun n hn => hc n (by simp [hn])
  have hname : Closing p.quoter False (Sql.name (p.constraintName c)) :=
    closing_constraintName hp (fun name h => hc name (by simp [h])) nofun
  have hcolumns : Woven p.quoter (Sql.names c.columns.names) :=
    hp.wraps.woven_names fun n hn => hc n (by simp [hn])
  rw [Profile.createConstraint]
  split
  · refine yields_ok (statements_one ?_)
    simp only [List.append_assoc]
    refine .lead (by decide) (.then (woven_object hp htable) (by decide) (.then hname.woven ?_
      (.last hcolumns (by decide))))
    cases c.type <;> decide
  · exact yields_skip p _

theorem yields_deleteConstraint (hp : p.Wraps mark) (hc : Unquoted p.quoter
    (c.name.toList ++ c.table.names ++ c.columns.names)) (hne : c.name ≠ some "") :
    Yields (p.deleteConstraint c) (Statements p.quoter tight) := by
  have htable : Unquoted p.quoter c.table.names := fun n hn => hc n (by simp [hn])
  have hname : Closing p.quoter tight (Sql.name (p.constraintName c)) :=
    closing_constraintName hp (fun name h => hc name (by simp [h])) fun _ => hne
  have hobject := woven_object hp htable
  simp only [Profile.deleteConstraint, List.append_assoc]
  split
  · cases c.type with
    | primaryKey => exact yields_ok (statements_one (.lead (by decide) (.last hobject (by decide))))
    | unique =>
        exact yields_ok (statements_one (.lead (by decide) (.then hobject (by decide) hname)))
  · split
    · exact yields_ok (statements_one (.lead (by decide) (.then hobject (by decide) hname)))
    · exact yields_skip p _

end Constraints

section Defaults

variable {column : String}

theorem yields_alterDefault (hp : p.Wraps mark) (ht : Unquoted p.quoter table.names)
    (htne : table.name ≠ "") (hc : p.quoter.isQuoted column = false) (hne : column ≠ "")
    {v : Literal} (hv : v.isOwn)
    (hline : p.dialect = .sqlServer → ∀ c ∈ [column], '\n' ∉ c.toList) :
    Yields (p.alterDefault table column v) (Statements p.quoter tight) := by
  rw [Profile.alterDefault]
  split
  · rename_i hd
    have hadd : Yields (p.addDefault table column v) (Statement p.quoter tight) :=
      yields_addDefault hp ht hc hne hv
    exact hadd.bind fun add hadd => yields_ok (.script (hp.same.trans hd)
      (whole_dropDefaults (hline hd)) (statements_one hadd))
  · cases hform : p.forms.setDefault with
    | none => exact yields_skip p _
    | some form =>
        exact (hp.literal tight hv).bind fun sql hsql => yields_ok (statements_one
          (hp.forms.setDefault form hform (hp.object ht fun _ => htne)
            (hp.wraps.closing_name hc fun _ => hne) hsql))

theorem yields_deleteDefault (hp : p.Wraps mark) (ht : Unquoted p.quoter table.names)
    (hc : p.quoter.isQuoted column = false)
    (hline : p.dialect = .sqlServer → ∀ c ∈ [column], '\n' ∉ c.toList) :
    Yields (p.deleteDefault table column) (Statements p.quoter tight) := by
  rw [Profile.deleteDefault]
  split
  · rename_i hd
    exact yields_ok (.script (hp.same.trans hd) (whole_dropDefaults (hline hd)) statements_nil)
  · cases hform : p.forms.dropDefault with
    | none => exact yields_skip p _
    | some form =>
        exact yields_ok (statements_one (hp.forms.dropDefault form hform (woven_object hp ht)
          (hp.wraps.woven_name hc)))

end Defaults

section Sequences

variable {s : Sequence}

theorem yields_sequenceOption (hp : p.Wraps mark) (s : Sequence) {word : String}
    (hword : isFirm (" " ++ word ++ " ").toList = true) (portable : Bool) (value : Option Int64) :
    Yields (p.sequenceOption s word portable value) (Optional p.quoter) := by
  rw [Profile.sequenceOption.eq_def]
  split
  · exact yields_ok (.inl rfl)
  · rename_i n
    split
    · exact yields_bind _ fun _ _ => yields_ok (.inl rfl)
    · rw [if_neg fun h => hp.notOracle h.2.1]
      refine yields_ok (.inr ⟨_, rfl, ?_, ?_⟩)
      · rw [String.toList_append]
        exact (firm hword).append (numeral_int _).firm
      · exact isClosed_append _ (numeral_int _).ends

theorem yields_sequenceCycle (p : Profile) (s : Sequence) :
    Yields (p.sequenceCycle s) (Optional p.quoter) := by
  rw [Profile.sequenceCycle]
  split
  · exact yields_ok (.inl rfl)
  · split
    · exact yields_bind _ fun _ _ => yields_ok (.inl rfl)
    · exact yields_ok (optional_word (by decide))

theorem yields_createSequence (hp : p.Wraps mark) (hs : Unquoted p.quoter s.name.names)
    (hne : s.name.name ≠ "") : Yields (p.createSequence s) (Statements p.quoter tight) := by
  rw [Profile.createSequence]
  split
  · refine (yields_sequenceOption hp s (by decide) _ _).bind fun increment h₁ =>
      (yields_sequenceOption hp s (by decide) _ _).bind fun minValue h₂ =>
      (yields_sequenceOption hp s (by decide) _ _).bind fun maxValue h₃ =>
      (yields_sequenceOption hp s (by decide) _ _).bind fun start h₄ =>
      (yields_sequenceOption hp s (by decide) _ _).bind fun cache h₅ =>
      (yields_sequenceCycle p s).bind fun cycle h₆ => yields_ok (statements_one ?_)
    have hobject : Statement p.quoter tight ("CREATE SEQUENCE " ++ p.quoter.object s.name) :=
      .lead (by decide) (hp.object hs fun _ => hne)
    exact (((((hobject.optional h₁).optional h₂).optional h₃).optional h₄).optional h₅).optional h₆
  · exact yields_skip p _

end Sequences

end Objects

end SchemaChange
