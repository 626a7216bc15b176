import SchemaChange.Proofs.Sql.Leniency
import SchemaChange.Proofs.Sql.Scripts

/-!
# Strict and emulate mode

The statements of a change in the two modes of a dialect. Emulate mode only ever takes failures
away: what succeeds in strict mode gives the same statements, a failure for any reason other than
a missing feature stays the same failure, and what is still missing is a system method.
-/
namespace SchemaChange

section Columns

variable {values : List Literal} {p : Profile} {c : Column}

theorem missesNothing_columnType (c : Column) : MissesNothing values (p.columnType c) := by
  unfold Profile.columnType
  split
  · exact missesNothing_ok _
  · exact missesNothing_nativeType c

theorem missesNothing_defaultClause (hc : c.literals ⊆ values) (table : String) :
    MissesNothing values (p.defaultClause c table) := by
  unfold Profile.defaultClause
  split
  · exact missesNothing_ok _
  · rename_i v hv
    have hmem : v ∈ values := hc (by simp [Column.literals, hv])
    refine (missesNothing_literal p.dialect hmem).bind fun sql => ?_
    split <;> exact missesNothing_ok _

theorem missesNothing_clause (hc : c.literals ⊆ values) (table : String) (inlineKey : Bool)
    (clause : Clause) : MissesNothing values (p.clause c table inlineKey clause) := by
  cases clause with
  | type => exact missesNothing_columnType c
  | default => exact missesNothing_defaultClause hc table
  | name | collation | nullable | primaryKey | identity | description =>
      exact missesNothing_ok _

theorem eases_column (hc : c.literals ⊆ values) (table : String) (inlineKey : Bool) :
    Eases values ((p.inMode .strict).column c table inlineKey)
      ((p.inMode .emulate).column c table inlineKey) := by
  have hparts : MissesNothing values (p.clauseOrder.mapM (p.clause c table inlineKey)) :=
    missesNothing_mapM fun clause _ => missesNothing_clause hc table inlineKey clause
  have hwritten := hparts.bind fun parts =>
    missesNothing_ok (Sql.join " " (parts.filter (!p.isVoid ·)))
  simp only [Profile.column, Profile.inMode_dialect, Profile.inMode_clauseOrder,
    Profile.inMode_clause, Profile.inMode_isVoid]
  exact eases_after p _ hwritten.eases

theorem eases_addColumn (hc : c.literals ⊆ values) (table : ObjectName) :
    Eases values ((p.inMode .strict).addColumn table c)
      ((p.inMode .emulate).addColumn table c) := by
  unfold Profile.addColumn
  exact (eases_column hc table.name true).bind fun _ => eases_ok _

theorem eases_columns {columns : List Column} (hc : ∀ c ∈ columns, c.literals ⊆ values)
    (table : String) : Eases values ((p.inMode .strict).columns columns table)
      ((p.inMode .emulate).columns columns table) := by
  simp only [Profile.columns, Profile.inMode_hoistsKey]
  have hparts := eases_mapM fun c h => eases_column (p := p) (hc c h) table
    (!p.hoistsKey columns)
  exact hparts.bind fun parts => eases_ok _

end Columns

section ForeignKeys

variable {values : List Literal} (p : Profile) (k : ForeignKey)

theorem eases_onDelete : Eases values ((p.inMode .strict).onDelete k)
    ((p.inMode .emulate).onDelete k) := by
  simp only [Profile.onDelete, Profile.inMode_dialect, Profile.inMode_foreignKeyName]
  split
  · exact eases_ok []
  · refine eases_ite (fun _ => ?_) fun _ => eases_ok _
    exact (eases_unsupported p _).bind fun _ => eases_ok []

theorem eases_onUpdate : Eases values ((p.inMode .strict).onUpdate k)
    ((p.inMode .emulate).onUpdate k) := by
  simp only [Profile.onUpdate, Profile.inMode_dialect, Profile.inMode_foreignKeyName]
  split
  · exact eases_ok []
  · refine eases_ite (fun _ => ?_) fun _ => eases_ok _
    exact (eases_unsupported p _).bind fun _ => eases_ok []

theorem eases_foreignKey : Eases values ((p.inMode .strict).foreignKey k)
    ((p.inMode .emulate).foreignKey k) := by
  simp only [Profile.foreignKey, Profile.inMode_quoter, Profile.inMode_foreignKeyName]
  have hcheck : Eases values (Check.orFail k.check) (Check.orFail k.check) :=
    (missesNothing_check k.check).eases
  exact hcheck.bind fun _ => (eases_onDelete p k).bind fun _ =>
    (eases_onUpdate p k).bind fun _ => eases_ok _

theorem eases_createForeignKey : Eases values ((p.inMode .strict).createForeignKey k)
    ((p.inMode .emulate).createForeignKey k) := by
  simp only [Profile.createForeignKey, Profile.inMode_forms, Profile.inMode_quoter]
  split
  · exact eases_skip p _
  · exact (eases_foreignKey p k).bind fun _ => eases_ok _

end ForeignKeys

section Indexes

variable {values : List Literal} (p : Profile)

theorem eases_clusteredWord (ix : Index) : Eases values ((p.inMode .strict).clusteredWord ix)
    ((p.inMode .emulate).clusteredWord ix) := by
  simp only [Profile.clusteredWord, Profile.inMode_dialect, Profile.inMode_indexName]
  refine eases_ite (fun _ => eases_ok "") fun _ => ?_
  refine eases_ite (fun _ => eases_ok _) fun _ => ?_
  exact (eases_unsupported p _).bind fun _ => eases_ok ""

theorem eases_createIndex (ix : Index) : Eases values ((p.inMode .strict).createIndex ix)
    ((p.inMode .emulate).createIndex ix) := by
  simp only [Profile.createIndex, Profile.inMode_forms, Profile.inMode_quoter,
    Profile.inMode_indexName]
  refine eases_ite (fun _ => ?_) fun _ => eases_skip p _
  exact (eases_clusteredWord p ix).bind fun _ => eases_ok _

theorem eases_deleteIndex (table : ObjectName) (name : String) :
    Eases values ((p.inMode .strict).deleteIndex table name)
      ((p.inMode .emulate).deleteIndex table name) := by
  simp only [Profile.deleteIndex, Profile.inMode_forms, Profile.inMode_quoter]
  exact eases_ite (fun _ => eases_ok _) fun _ => eases_skip p _

end Indexes

section Tables

variable {values : List Literal} {p : Profile}

theorem eases_createTable {t : Table} (hc : ∀ c ∈ t.columns, c.literals ⊆ values) :
    Eases values ((p.inMode .strict).createTable t) ((p.inMode .emulate).createTable t) := by
  have hkeys : Eases values (t.foreignKeys.mapM (p.inMode .strict).foreignKey)
      (t.foreignKeys.mapM (p.inMode .emulate).foreignKey) :=
    eases_mapM fun k _ => eases_foreignKey p k
  have hlater : Eases values (t.foreignKeys.mapM (p.inMode .strict).createForeignKey)
      (t.foreignKeys.mapM (p.inMode .emulate).createForeignKey) :=
    eases_mapM fun k _ => eases_createForeignKey p k
  have hindexes : Eases values (t.indexes.mapM (p.inMode .strict).createIndex)
      (t.indexes.mapM (p.inMode .emulate).createIndex) :=
    eases_mapM fun ix _ => eases_createIndex p ix
  simp only [Profile.createTable, Profile.inMode_dialect, Profile.inMode_forms,
    Profile.inMode_quoter, Profile.inMode_describeNewTable]
  refine (eases_columns hc t.name.name).bind fun columns => ?_
  refine eases_ite (fun _ => ?_) fun _ => ?_
  · refine hkeys.bind fun inner => eases_ite (fun _ => ?_) fun h => absurd ‹_› h
    exact (eases_ok []).bind fun keys => hindexes.bind fun indexes => eases_ok _
  · refine (eases_ok []).bind fun inner => eases_ite (fun h => absurd h ‹_›) fun _ => ?_
    exact hlater.bind fun keys => hindexes.bind fun indexes => eases_ok _

theorem eases_deleteTable (table : ObjectName) (ifExists : Bool) :
    Eases values ((p.inMode .strict).deleteTable table ifExists)
      ((p.inMode .emulate).deleteTable table ifExists) := by
  simp only [Profile.deleteTable, Profile.inMode_forms, Profile.inMode_quoter]
  refine eases_ite (fun _ => ?_) fun _ => eases_ok _
  split
  · exact eases_ok _
  · exact eases_skip p _

end Tables

section Alterations

variable {values : List Literal} {p : Profile} {c : Column}

theorem eases_alterBoundColumn (hc : c.literals ⊆ values) (table : ObjectName) :
    Eases values ((p.inMode .strict).alterBoundColumn table c)
      ((p.inMode .emulate).alterBoundColumn table c) := by
  have hplain : ({ c with defaultValue := none, isIdentity := false } : Column).literals ⊆
      values := by
    intro v hv
    refine hc (List.mem_append_right _ ?_)
    simpa [Column.literals] using hv
  simp only [Profile.alterBoundColumn, Profile.inMode_quoter, Profile.inMode_dropDefaults,
    Profile.inMode_addDefault]
  cases hdefault : c.defaultValue with
  | none =>
      refine eases_after p _ ?_
      exact (eases_column hplain table.name false).bind fun definition => eases_ok _
  | some value =>
      have hmem : value ∈ values := hc (by simp [Column.literals, hdefault])
      have hbound := missesNothing_addDefault (p := p) table c.name hmem
      refine eases_after p _ ?_
      exact (eases_column hplain table.name false).bind fun definition =>
        hbound.eases.bind fun bound => eases_ok _

theorem missesNothing_alterColumnParts (hc : c.literals ⊆ values) (table : ObjectName) :
    MissesNothing values (p.alterColumnParts table c) := by
  unfold Profile.alterColumnParts
  refine (missesNothing_nativeType c).bind fun type => ?_
  dsimp only
  split
  · rename_i value hvalue
    have hmem : value ∈ values := hc (by simp [Column.literals, hvalue])
    exact (missesNothing_literal p.dialect hmem).bind fun _ => missesNothing_ok _
  · exact missesNothing_ok _

theorem eases_alterTypeAndNull (table : ObjectName) :
    Eases values ((p.inMode .strict).alterTypeAndNull table c)
      ((p.inMode .emulate).alterTypeAndNull table c) := by
  simp only [Profile.alterTypeAndNull, Profile.inMode_quoter, Profile.inMode_nativeType]
  refine eases_after p _ ?_
  exact (missesNothing_nativeType c).eases.bind fun type => eases_ok _

theorem eases_alterColumn (hc : c.literals ⊆ values) (table : ObjectName) :
    Eases values ((p.inMode .strict).alterColumn table c)
      ((p.inMode .emulate).alterColumn table c) := by
  simp only [Profile.alterColumn, Profile.inMode_dialect, Profile.inMode_describeColumn,
    Profile.inMode_forms, Profile.inMode_quoter, Profile.inMode_alterColumnParts]
  split
  · exact (eases_alterBoundColumn hc table).bind fun _ => eases_ok _
  · exact (missesNothing_alterColumnParts hc table).eases.bind fun _ => eases_ok _
  · exact (eases_alterTypeAndNull table).bind fun _ => eases_ok _
  · split
    · exact eases_skip p _
    · exact (eases_column hc table.name false).bind fun _ => eases_ok _

/-- The statements that add a column, fill it and restore its definition. -/
theorem eases_createColumn (hc : c.literals ⊆ values) (table : ObjectName) :
    Eases values ((p.inMode .strict).createColumn table c)
      ((p.inMode .emulate).createColumn table c) := by
  -- the value for existing rows leaves the definition once it is written
  have hfresh : ∀ nullable description, ({ c with existingRows := none, nullable, description } :
      Column).literals ⊆ values := by
    intro nullable description v hv
    refine hc (List.mem_append_left _ ?_)
    simpa [Column.literals] using hv
  have hplain : Eases values
      (do return (← (p.inMode .strict).addColumn table c) ::
        (c.description.bind fun d => p.describeColumn table c.name d false).toList)
      (do return (← (p.inMode .emulate).addColumn table c) ::
        (c.description.bind fun d => p.describeColumn table c.name d false).toList) :=
    (eases_addColumn hc table).bind fun _ => eases_ok _
  simp only [Profile.createColumn, Profile.inMode_describeColumn, Profile.inMode_update,
    Profile.inMode_assignment, Profile.inMode_clauseOrder]
  split
  · rename_i value hvalue
    have hmem : value ∈ values := hc (by simp [Column.literals, hvalue])
    refine eases_ite (fun _ => ?_) fun _ => hplain
    refine (eases_addColumn (hfresh (some true) c.description) table).bind fun add => ?_
    refine (missesNothing_assignment c.name hmem).eases.bind fun fill => ?_
    have hrestored : (if p.clauseOrder.contains .description then { c with existingRows := none }
        else { c with existingRows := none, description := none }).literals ⊆ values := by
      split
      · exact hfresh c.nullable c.description
      · exact hfresh c.nullable none
    exact (eases_alterColumn hrestored table).bind fun alter => eases_ok _
  · exact hplain

end Alterations

section Constraints

variable {values : List Literal} (p : Profile)

theorem eases_createConstraint (c : Constraint) :
    Eases values ((p.inMode .strict).createConstraint c)
      ((p.inMode .emulate).createConstraint c) := by
  simp only [Profile.createConstraint, Profile.inMode_forms, Profile.inMode_quoter,
    Profile.inMode_constraintName]
  exact eases_ite (fun _ => eases_ok _) fun _ => eases_skip p _

theorem eases_deleteConstraint (c : Constraint) :
    Eases values ((p.inMode .strict).deleteConstraint c)
      ((p.inMode .emulate).deleteConstraint c) := by
  simp only [Profile.deleteConstraint, Profile.inMode_dialect, Profile.inMode_forms,
    Profile.inMode_quoter, Profile.inMode_constraintName]
  refine eases_ite (fun _ => ?_) fun _ => ?_
  · cases c.type <;> exact eases_ok _
  · exact eases_ite (fun _ => eases_ok _) fun _ => eases_skip p _

theorem eases_alterDefault (table : ObjectName) (column : String) {v : Literal}
    (hv : v ∈ values) : Eases values ((p.inMode .strict).alterDefault table column v)
      ((p.inMode .emulate).alterDefault table column v) := by
  simp only [Profile.alterDefault, Profile.inMode_dialect, Profile.inMode_forms,
    Profile.inMode_quoter, Profile.inMode_dropDefaults, Profile.inMode_addDefault]
  refine eases_ite (fun _ => ?_) fun _ => ?_
  · exact (missesNothing_addDefault table column hv).eases.bind fun _ => eases_ok _
  · split
    · exact eases_skip p _
    · exact (missesNothing_literal p.dialect hv).eases.bind fun _ => eases_ok _

theorem eases_deleteDefault (table : ObjectName) (column : String) :
    Eases values ((p.inMode .strict).deleteDefault table column)
      ((p.inMode .emulate).deleteDefault table column) := by
  simp only [Profile.deleteDefault, Profile.inMode_dialect, Profile.inMode_forms,
    Profile.inMode_quoter, Profile.inMode_dropDefaults]
  refine eases_ite (fun _ => eases_ok _) fun _ => ?_
  split
  · exact eases_skip p _
  · exact eases_ok _

end Constraints

section Sequences

variable {values : List Literal} (p : Profile) (s : Sequence)

theorem eases_sequenceOption (word : String) (portable : Bool) (value : Option Int64) :
    Eases values ((p.inMode .strict).sequenceOption s word portable value)
      ((p.inMode .emulate).sequenceOption s word portable value) := by
  cases value with
  | none => exact eases_ok []
  | some n =>
      simp only [Profile.sequenceOption, Profile.inMode_dialect]
      refine eases_ite (fun _ => ?_) fun _ => eases_ite (fun _ => eases_ok _) fun _ => eases_ok _
      exact (eases_unsupported p _).bind fun _ => eases_ok []

theorem eases_sequenceCycle : Eases values ((p.inMode .strict).sequenceCycle s)
    ((p.inMode .emulate).sequenceCycle s) := by
  simp only [Profile.sequenceCycle, Profile.inMode_dialect]
  refine eases_ite (fun _ => eases_ok []) fun _ => eases_ite (fun _ => ?_) fun _ => eases_ok _
  exact (eases_unsupported p _).bind fun _ => eases_ok []

theorem eases_createSequence : Eases values ((p.inMode .strict).createSequence s)
    ((p.inMode .emulate).createSequence s) := by
  simp only [Profile.createSequence, Profile.inMode_forms, Profile.inMode_quoter]
  refine eases_ite (fun _ => ?_) fun _ => eases_skip p _
  exact (eases_sequenceOption p s _ _ _).bind fun increment =>
    (eases_sequenceOption p s _ _ _).bind fun minValue =>
    (eases_sequenceOption p s _ _ _).bind fun maxValue =>
    (eases_sequenceOption p s _ _ _).bind fun start =>
    (eases_sequenceOption p s _ _ _).bind fun cache =>
    (eases_sequenceCycle p s).bind fun cycle => eases_ok _

end Sequences

section Data

variable {values : List Literal} {p : Profile}

theorem missesNothing_rowValues {row : Row} (hrow : row.values ⊆ values) :
    MissesNothing values (row.values.mapM (Literal.sql p.dialect)) :=
  missesNothing_mapM fun _ h => missesNothing_literal p.dialect (hrow h)

theorem missesNothing_insertData {rows : List Row} (hrows : ∀ row ∈ rows, row.values ⊆ values)
    (table : ObjectName) (identity : Bool) :
    MissesNothing values (p.insertData table rows identity) := by
  have hlines : MissesNothing values (rows.mapM (p.intoLine (p.quoter.object table))) :=
    missesNothing_mapM fun row h =>
      (missesNothing_rowValues (hrows row h)).bind fun _ => missesNothing_ok _
  have hstatements : MissesNothing values (rows.mapM (p.insertRow (p.quoter.object table))) :=
    missesNothing_mapM fun row h =>
      (missesNothing_rowValues (hrows row h)).bind fun _ => missesNothing_ok _
  have hdone : ∀ statements : List Sql, MissesNothing values
      (if identity ∧ p.dialect = .sqlServer ∧ statements ≠ [] then
        .ok (Profile.withIdentityInsert (Profile.identityInsert (p.quoter.object table)) statements)
      else .ok statements) := by
    intro statements
    split <;> exact missesNothing_ok _
  unfold Profile.insertData
  dsimp only
  split
  · exact (hlines.bind fun _ => missesNothing_ok _).bind fun _ => missesNothing_ok _
  · exact hstatements.bind hdone

theorem missesNothing_condition {row : Row} (hrow : row.values ⊆ values) :
    MissesNothing values (p.condition row) := by
  have hpredicate : ∀ entry ∈ row.entries, MissesNothing values (p.predicate entry.1 entry.2) := by
    intro entry hentry
    have hmem : entry.2 ∈ values := hrow (List.mem_map_of_mem hentry)
    unfold Profile.predicate
    split
    · exact missesNothing_ok _
    · exact missesNothing_assignment entry.1 hmem
  unfold Profile.condition
  split
  · exact missesNothing_ok _
  · exact (missesNothing_mapM hpredicate).bind fun _ => missesNothing_ok _

theorem missesNothing_updateData {assignments filter : Row} (ha : assignments.values ⊆ values)
    (hf : filter.values ⊆ values) (table : ObjectName) (allRows : Bool) :
    MissesNothing values (p.updateData table assignments filter allRows) := by
  have hassignment : ∀ entry ∈ assignments.entries,
      MissesNothing values (p.assignment entry.1 entry.2) := fun entry hentry =>
    missesNothing_assignment entry.1 (ha (List.mem_map_of_mem hentry))
  unfold Profile.updateData
  refine (missesNothing_mapM hassignment).bind fun parts => ?_
  split
  · exact missesNothing_ok _
  · exact (missesNothing_condition hf).bind fun _ => missesNothing_ok _

theorem missesNothing_deleteData {rows : List Row} (hrows : ∀ row ∈ rows, row.values ⊆ values)
    (table : ObjectName) (allRows : Bool) :
    MissesNothing values (p.deleteData table rows allRows) := by
  unfold Profile.deleteData
  split
  · exact missesNothing_ok _
  · exact missesNothing_mapM fun row h =>
      (missesNothing_condition (hrows row h)).bind fun _ => missesNothing_ok _

end Data

section Changes

variable (p : Profile) (change : Change)

theorem eases_routine {values : List Literal} (feature : Feature) (statement : Sql) :
    Eases values ((p.inMode .strict).routine feature statement)
      ((p.inMode .emulate).routine feature statement) := by
  simp only [Profile.routine, Profile.inMode_forms]
  exact eases_ite (fun _ => eases_ok _) fun _ => eases_skip p _

theorem eases_statementsOfValid :
    Eases change.literals ((p.inMode .strict).statementsOfValid change)
      ((p.inMode .emulate).statementsOfValid change) := by
  have hcolumn : ∀ c ∈ change.columns, c.literals ⊆ change.literals := by
    intro c hc v hv
    cases change with
    | createTable | createColumn | alterColumn => exact List.mem_flatMap.2 ⟨c, hc, hv⟩
    | _ => cases hc
  cases change with
  | createSchema | deleteSchema | alterSchema | deleteForeignKey =>
      simp only [Profile.statementsOfValid, Profile.inMode_forms, Profile.inMode_quoter]
      split
      · exact eases_ok _
      · exact eases_skip p _
  | createTable table => exact eases_createTable hcolumn
  | deleteTable table ifExists => exact eases_deleteTable table ifExists
  | createColumn table column => exact eases_createColumn (hcolumn column (.head _)) table
  | alterColumn table column => exact eases_alterColumn (hcolumn column (.head _)) table
  | createForeignKey key => exact eases_createForeignKey p key
  | createIndex index => exact eases_createIndex p index
  | deleteIndex table name => exact eases_deleteIndex p table name
  | createConstraint c => exact eases_createConstraint p c
  | deleteConstraint c => exact eases_deleteConstraint p c
  | alterDefaultConstraint table column value =>
      exact eases_alterDefault p table column (.head _)
  | deleteDefaultConstraint table column => exact eases_deleteDefault p table column
  | createSequence sequence => exact eases_createSequence p sequence
  | deleteSequence name =>
      simp only [Profile.statementsOfValid, Profile.inMode_forms, Profile.inMode_quoter]
      exact eases_ite (fun _ => eases_ok _) fun _ => eases_skip p _
  | insertData table rows identity =>
      have hrows : ∀ row ∈ rows, row.values ⊆ rows.flatMap Row.values := fun row h v hv =>
        List.mem_flatMap.2 ⟨row, h, hv⟩
      exact (missesNothing_insertData hrows table identity).eases
  | updateData table assignments filter allRows =>
      have hstatement := missesNothing_updateData (p := p)
        (List.subset_append_left assignments.values filter.values)
        (List.subset_append_right assignments.values filter.values) table allRows
      exact (hstatement.bind fun _ => missesNothing_ok _).eases
  | deleteData table rows allRows =>
      have hrows : ∀ row ∈ rows, row.values ⊆ rows.flatMap Row.values := fun row h v hv =>
        List.mem_flatMap.2 ⟨row, h, hv⟩
      exact (missesNothing_deleteData hrows table allRows).eases
  | createFunction | deleteFunction | createProcedure | deleteProcedure =>
      exact eases_routine p _ _
  | alterTable | renameTable | deleteColumn | renameColumn | createView | deleteView
  | executeSql | performDbOperation => exact eases_ok _

theorem eases_statementTexts :
    Eases change.literals ((p.inMode .strict).statementTexts change)
      ((p.inMode .emulate).statementTexts change) := by
  simp only [Profile.statementTexts, Profile.statements, Profile.inMode_quoter]
  have hstatements := (missesNothing_check change.check).eases.bind fun _ =>
    eases_statementsOfValid p change
  exact hstatements.bind fun _ => eases_ok _

end Changes

/-- Emulate mode only takes failures away, and then nothing is missing but system methods. -/
theorem emulate_eases_strict (d : Dialect) (o : Options) (change : Change) :
    let strict := (Profile.of d .strict o).statementTexts change
    let emulate := (Profile.of d .emulate o).statementTexts change
    (∀ texts, strict = .ok texts → emulate = .ok texts) ∧
      (∀ e, strict = .error e → e.isUnsupported = false → emulate = .error e) ∧
      (∀ e, emulate = .error e → e.isUnsupported = true →
        ∃ m, Literal.systemMethod m ∈ change.literals) := by
  intro strict emulate
  have heases : Eases change.literals strict emulate := by
    have h := eases_statementTexts (.of d .strict o) change
    rwa [← Profile.of_eq_inMode, ← Profile.of_eq_inMode] at h
  exact ⟨fun _ => heases.ok, fun _ => heases.error, heases.missesNothing⟩

/-- A sequence, a type without a native one, and a value that one dialect cannot compute. -/
theorem emulate_eases_strict_column :
    let sequence : Change := .createSequence (.ofName "s")
    let typed : Change := .createColumn ⟨"t", none⟩ (.ofType "c" .uint16)
    let computed : Change := .alterColumn ⟨"t", none⟩
      ((Column.ofType "c" .guid).withDefault (.systemMethod .newSequentialId))
    (Profile.of .snowflake .emulate {}).statementTexts sequence =
        .ok ["CREATE SEQUENCE \"PUBLIC\".\"s\""] ∧
      (Profile.of .sqlServer .emulate {}).statementTexts typed =
        .error (.noType (.unknown .sqlServer .uint16)) ∧
      (Profile.of .mySql .emulate {}).statementTexts computed =
        .error (.noSystemMethod .mySql .newSequentialId) ∧
      ∃ m, Literal.systemMethod m ∈ computed.literals := by
  intro sequence typed computed
  have hcomputed : (Profile.of .mySql .emulate {}).statementTexts computed =
      .error (.noSystemMethod .mySql .newSequentialId) := by decide +kernel
  obtain ⟨hok, -, -⟩ := emulate_eases_strict .snowflake {} sequence
  obtain ⟨-, herror, -⟩ := emulate_eases_strict .sqlServer {} typed
  obtain ⟨-, -, hmissing⟩ := emulate_eases_strict .mySql {} computed
  exact ⟨hok _ (by decide +kernel), herror _ (by decide +kernel) rfl, hcomputed,
    hmissing _ hcomputed rfl⟩

end SchemaChange
