import SchemaChange.Proofs.Naming.Pattern
import SchemaChange.Proofs.Sql.FilledColumn

/-!
# Names of constraints

A constraint is dropped under the name that it is created with, its own or the conventional one,
shortened alike in both statements. The constraint that holds the default of a column has one name
too, whether it comes with the column, with a new default or with an altered column.
-/
namespace SchemaChange

open Sql

/-- The name that a constraint without one of its own gets. -/
def Constraint.conventionalName (c : Constraint) : String :=
  match c.type with
  | .primaryKey => "PK_" ++ c.table.name
  | .unique => "UC_" ++ c.table.name ++ "_" ++ "_".intercalate c.columns.names

namespace Profile

/-- The quoted name of a constraint. -/
def quotedConstraint (p : Profile) (c : Constraint) : String :=
  p.quoter.quote (c.name.getD (Naming.truncate c.conventionalName p.maxNameLength))

/-- How a statement goes on that drops a constraint; one dialect drops keys as keys. -/
def dropWords (p : Profile) (c : Constraint) : String :=
  if p.dialect = .mySql then
    match c.type with
    | .primaryKey => " DROP PRIMARY KEY"
    | .unique => " DROP INDEX " ++ p.quotedConstraint c
  else " DROP CONSTRAINT " ++ p.quotedConstraint c

/-- A constraint with its name, its kind and its columns. -/
def namedConstraint (p : Profile) (c : Constraint) : String :=
  "CONSTRAINT " ++ p.quotedConstraint c ++ " " ++ c.type.sql ++ " (" ++
    ", ".intercalate (c.columns.names.map p.quoter.quote) ++ ")"

/-- A constraint is created and deleted under one name. -/
structure NamesConstraint (p : Profile) (c : Constraint) : Prop where
  created : p.statementTexts (.createConstraint c) = .ok
    ["ALTER TABLE " ++ p.quoter.quoteObject c.table ++ " ADD " ++ p.namedConstraint c]
  deleted : p.statementTexts (.deleteConstraint c) = .ok
    ["ALTER TABLE " ++ p.quoter.quoteObject c.table ++ p.dropWords c]

/-- A default and the constraint that binds it to a column. -/
def defaultBinding (p : Profile) (table column value : String) : String :=
  "CONSTRAINT " ++ p.quoter.quote (Naming.truncate ("DF_" ++ table ++ "_" ++ column) 128) ++
    " DEFAULT " ++ value

/-- The words of a definition that number a column or make it the key. -/
def markWords (c : Column) (inlineKey : Bool) : List String :=
  (if c.isIdentity then ["IDENTITY(1,1)"] else []) ++
    if inlineKey && c.isPrimaryKey then ["PRIMARY KEY"] else []

/-- The definition of a column with a default. Its name, its type and its collation are left out
where nothing is written for them. -/
def boundDefinition (p : Profile) (table : ObjectName) (c : Column) (type : Sql)
    (inlineKey : Bool) (written : String) : String :=
  let lead := [p.quoter.quote c.name, type.write p.quoter, (p.collationClause c).write p.quoter]
  " ".intercalate (lead.filter (!·.isEmpty) ++
    [if c.isNotNull then "NOT NULL" else "NULL", p.defaultBinding table.name c.name written] ++
    markWords c inlineKey)

/-- The statement that binds a default to a column. -/
def addBinding (p : Profile) (table : ObjectName) (column value : String) : String :=
  "ALTER TABLE " ++ p.quoter.quoteObject table ++ " ADD " ++
    p.defaultBinding table.name column value ++ " FOR " ++ p.quoter.quote column

/-- The statements that alter a column with a default: it is dropped first and bound again. -/
def reboundTexts (p : Profile) (table : ObjectName) (c : Column) (definition : Sql)
    (written : String) : List String :=
  [(p.dropDefaults table [c.name]).write p.quoter,
    "ALTER TABLE " ++ p.quoter.quoteObject table ++ " ALTER COLUMN " ++
      definition.write p.quoter,
    p.addBinding table c.name written] ++
    (c.description.bind fun d => p.describeColumn table c.name d true).toList.map
      (Sql.write p.quoter)

/-- The constraint that holds the default of a column has one name wherever it is written: in the
definition of the column, when the default is changed and when the column is altered. -/
structure NamesDefault (p : Profile) (table : ObjectName) (c : Column) (value : Literal)
    (written : String) : Prop where
  defined : ∀ inlineKey definition, p.column c table.name inlineKey = .ok definition →
    ∃ type, p.nativeType c = .ok type ∧
      definition.write p.quoter = p.boundDefinition table c type inlineKey written
  changed : (Change.alterDefaultConstraint table c.name value).check = .ok () →
    p.statementTexts (.alterDefaultConstraint table c.name value) = .ok
      [(p.dropDefaults table [c.name]).write p.quoter, p.addBinding table c.name written]
  altered : (Change.alterColumn table c).check = .ok () → ∀ texts,
    p.statementTexts (.alterColumn table c) = .ok texts ↔
      (c.isIdentity = true → p.mode = .emulate) ∧ ∃ definition,
        p.column { c with defaultValue := none, isIdentity := false } table.name false =
          .ok definition ∧ texts = p.reboundTexts table c definition written

end Profile

section Constraints

variable {d : Dialect} {mode : Mode} {o : Options} {c : Constraint}

theorem quote_constraintName (p : Profile) (c : Constraint) :
    p.quoter.quote (p.constraintName c) = p.quotedConstraint c := by
  rw [Profile.quotedConstraint, Profile.constraintName, Profile.fitName,
    Constraint.conventionalName]
  cases c.type with
  | primaryKey => rw [Naming.primaryKeyName_eq]
  | unique =>
      dsimp only
      rw [Naming.uniqueName_eq, Naming.joinNames]

/-- A change with one statement. -/
theorem statementTexts_one {p : Profile} {change : Change} {sql : Sql}
    (hcheck : change.check = .ok ()) (hsqls : p.statementsOfValid change = .ok [sql])
    (hworded : sql.isWorded = true) :
    p.statementTexts change = .ok [sql.write p.quoter] := by
  have hall : ∀ each ∈ [sql], each.isWorded = true := List.forall_mem_singleton.2 hworded
  exact (statementTexts_of_isWorded hcheck hsqls hall).2

theorem isWorded_alter (table rest : Sql) :
    Sql.isWorded ("ALTER TABLE " ++ table ++ rest) = true := by
  rw [List.append_assoc]
  exact isWorded_append (by decide) _

theorem hasConstraints_of (hd : d ≠ .sqlite) :
    (Profile.of d mode o).forms.hasConstraints = true := by
  cases d with
  | sqlite => exact absurd rfl hd
  | sqlServer | postgres | mySql | oracle | hana | snowflake => rfl

theorem addConstraint_eq : " ADD CONSTRAINT " = " ADD " ++ "CONSTRAINT " := by decide

theorem write_namedConstraint (p : Profile) (c : Constraint) :
    Sql.write p.quoter (" ADD CONSTRAINT " ++ Sql.name (p.constraintName c) ++
      (" " ++ c.type.sql ++ " (" : String) ++ Sql.names c.columns.names ++ ")") =
        " ADD " ++ p.namedConstraint c := by
  rw [Profile.namedConstraint, ← quote_constraintName, addConstraint_eq]
  simp only [write_append, write_code, write_name, write_names, String.append_assoc]

theorem created_of (hd : d ≠ .sqlite) (hcheck : (Change.createConstraint c).check = .ok ()) :
    let p := Profile.of d mode o
    p.statementTexts (.createConstraint c) = .ok
      ["ALTER TABLE " ++ p.quoter.quoteObject c.table ++ " ADD " ++ p.namedConstraint c] := by
  intro p
  have hsqls : p.statementsOfValid (.createConstraint c) = .ok
      ["ALTER TABLE " ++ p.quoter.object c.table ++ (" ADD CONSTRAINT " ++
        Sql.name (p.constraintName c) ++ (" " ++ c.type.sql ++ " (" : String) ++
        Sql.names c.columns.names ++ ")")] := by
    simp only [← List.append_assoc]
    exact if_pos (hasConstraints_of hd)
  rw [statementTexts_one hcheck hsqls (isWorded_alter _ _), write_append, write_append, write_code,
    write_namedConstraint, Quoter.quoteObject, ← String.append_assoc]

/-- The words of the dialect stand behind the name of the table. -/
theorem exists_drop (hd : d ≠ .sqlite) (mode : Mode) (o : Options) (c : Constraint) :
    let p := Profile.of d mode o
    ∃ drop : Sql, p.deleteConstraint c = .ok ["ALTER TABLE " ++ p.quoter.object c.table ++ drop] ∧
      drop.write p.quoter = p.dropWords c := by
  intro p
  rw [Profile.deleteConstraint, Profile.dropWords]
  by_cases hmySql : p.dialect = .mySql
  · rw [if_pos hmySql, if_pos hmySql]
    cases c.type with
    | primaryKey => exact ⟨_, rfl, write_code _ _⟩
    | unique =>
        refine ⟨" DROP INDEX " ++ Sql.name (p.constraintName c), ?_, ?_⟩
        · dsimp only
          rw [List.append_assoc]
        · rw [write_append, write_code, write_name, quote_constraintName]
  · rw [if_neg hmySql, if_neg hmySql, if_pos (hasConstraints_of hd)]
    refine ⟨" DROP CONSTRAINT " ++ Sql.name (p.constraintName c), ?_, ?_⟩
    · rw [List.append_assoc]
    · rw [write_append, write_code, write_name, quote_constraintName]

theorem deleted_of (hd : d ≠ .sqlite) (hcheck : (Change.deleteConstraint c).check = .ok ()) :
    let p := Profile.of d mode o
    p.statementTexts (.deleteConstraint c) = .ok
      ["ALTER TABLE " ++ p.quoter.quoteObject c.table ++ p.dropWords c] := by
  intro p
  obtain ⟨drop, hsqls, hdrop⟩ := exists_drop hd mode o c
  rw [statementTexts_one hcheck hsqls (isWorded_alter _ _), write_append, write_append, write_code,
    hdrop, Quoter.quoteObject]

/-- The engine that cannot alter constraints has neither statement. -/
theorem skipped_sqlite (hcreate : (Change.createConstraint c).check = .ok ())
    (hdelete : (Change.deleteConstraint c).check = .ok ()) :
    let p := Profile.of .sqlite mode o
    (∃ feature, p.statements (.createConstraint c) = p.skip feature) ∧
      ∃ feature, p.statements (.deleteConstraint c) = p.skip feature := by
  intro p
  constructor
  · refine ⟨.addConstraint c.type.sql c.table.name, ?_⟩
    rw [Profile.statements, Change.validate, hcreate]
    rfl
  · refine ⟨.dropConstraint (p.constraintName c) c.table.name, ?_⟩
    rw [Profile.statements, Change.validate, hdelete]
    rfl

end Constraints

section Defaults

variable {p : Profile} {table : ObjectName} {c : Column} {value : Literal} {sql : Sql}

/-- The parts of a definition that are not empty, with blanks between them. -/
theorem write_joined (p : Profile) (parts : List Sql) :
    Sql.write p.quoter (Sql.join " " (parts.filter (!p.isVoid ·))) =
      " ".intercalate ((parts.map (Sql.write p.quoter)).filter (!·.isEmpty)) := by
  rw [write_join, write_code, List.filter_map]
  rfl

theorem write_binding (hlimit : p.maxNameLength = 128) (table column : String) (sql : Sql) :
    Sql.write p.quoter ("CONSTRAINT " ++ Sql.name (p.defaultConstraintName table column) ++
      " DEFAULT " ++ sql) = p.defaultBinding table column (sql.write p.quoter) := by
  rw [write_append, write_append, write_append, write_code, write_name, write_code,
    Profile.defaultConstraintName, Profile.fitName, Naming.defaultName_eq, hlimit,
    Profile.defaultBinding]

theorem isWorded_dropDefaults (p : Profile) (table : ObjectName) (columns : List String) :
    (p.dropDefaults table columns).isWorded = true :=
  isWorded_append (by decide +kernel) _

/-- The statement that binds a default again. -/
theorem exists_addDefault (hlimit : p.maxNameLength = 128)
    (hvalue : value.sql p.dialect = .ok sql) (table : ObjectName) (column : String) :
    ∃ add, p.addDefault table column value = .ok add ∧ add.isWorded = true ∧
      add.write p.quoter = p.addBinding table column (sql.write p.quoter) := by
  have hadd : p.addDefault table column value = .ok ("ALTER TABLE " ++ p.quoter.object table ++
      " ADD CONSTRAINT " ++ Sql.name (p.defaultConstraintName table.name column) ++ " DEFAULT " ++
      sql ++ " FOR " ++ Sql.name column) := by
    rw [Profile.addDefault, hvalue]
    rfl
  refine ⟨_, hadd, ?_, ?_⟩
  · simp only [List.append_assoc]
    exact isWorded_append (by decide) _
  · have hbinding := write_binding hlimit table.name column sql
    simp only [write_append, write_code, write_name] at hbinding ⊢
    rw [Profile.addBinding, ← hbinding, addConstraint_eq, Quoter.quoteObject]
    simp only [String.append_assoc]

section Words

variable (hd : p.dialect = .sqlServer)

include hd

theorem write_nullableClause : (p.nullableClause c).write p.quoter =
    if c.isNotNull then "NOT NULL" else "NULL" := by
  rw [Profile.nullableClause, if_pos hd]
  split
  · exact write_code _ _
  · exact write_code _ _

theorem write_identityMark : (p.identityMark c).write p.quoter =
    if c.isIdentity then "IDENTITY(1,1)" else "" := by
  rw [Profile.identityMark, hd]
  split
  · exact write_code _ _
  · rfl

theorem write_primaryKeyMark (inlineKey : Bool) :
    (p.primaryKeyMark c inlineKey).write p.quoter =
      if inlineKey && c.isPrimaryKey then "PRIMARY KEY" else "" := by
  rw [Profile.primaryKeyMark, hd]
  split
  · exact write_code _ _
  · rfl

end Words

section Bound

variable (hd : p.dialect = .sqlServer) (hlimit : p.maxNameLength = 128)
  (hvalue : value.sql p.dialect = .ok sql)

include hd hlimit hvalue

theorem defaultClause_of (hdefault : c.defaultValue = some value) {clause : Sql}
    (h : p.defaultClause c table.name = .ok clause) :
    clause.write p.quoter = p.defaultBinding table.name c.name (sql.write p.quoter) := by
  rw [Profile.defaultClause, hdefault] at h
  dsimp only at h
  rw [hvalue] at h
  obtain rfl : _ = clause := Except.ok.inj ((if_pos hd).symm.trans h)
  exact write_binding hlimit table.name c.name sql

theorem defined_of (hdefault : c.defaultValue = some value)
    (horder : p.clauseOrder =
      [.name, .type, .collation, .nullable, .default, .identity, .primaryKey])
    {inlineKey : Bool} {definition : Sql}
    (h : p.column c table.name inlineKey = .ok definition) :
    ∃ type, p.nativeType c = .ok type ∧ definition.write p.quoter =
      p.boundDefinition table c type inlineKey (sql.write p.quoter) := by
  obtain ⟨parts, hmapped, rfl⟩ := exists_parts h
  have hparts := forall₂_of_mapM hmapped
  rw [horder] at hparts
  simp only [List.forall₂_cons_left_iff, List.forall₂_nil_left_iff] at hparts
  obtain ⟨_, _, ⟨⟩, ⟨type, _, htype, ⟨_, _, ⟨⟩, ⟨_, _, ⟨⟩, ⟨bound, _, hbound, ⟨_, _, ⟨⟩,
    ⟨_, _, ⟨⟩, rfl, rfl⟩, rfl⟩, rfl⟩, rfl⟩, rfl⟩, rfl⟩, rfl⟩ := hparts
  refine ⟨type, ?_, ?_⟩
  · have hother : ¬ (Dialect.sqlServer = .postgres ∧ c.isIdentity = true ∧ c.customType = none) :=
      fun h => absurd h.1 (by decide)
    rwa [Profile.clause, Profile.columnType, hd, if_neg hother] at htype
  -- The words for NULL and the default are never empty; the last two clauses may be.
  have hkept : ∀ word ∈ [if c.isNotNull then "NOT NULL" else "NULL",
      p.defaultBinding table.name c.name (sql.write p.quoter)], (!word.isEmpty) = true := by
    rw [List.forall_mem_cons, List.forall_mem_singleton]
    constructor
    · split <;> rfl
    · simp [Profile.defaultBinding]
  have hmarks : ([if c.isIdentity then "IDENTITY(1,1)" else "",
      if inlineKey && c.isPrimaryKey then "PRIMARY KEY" else ""].filter (!·.isEmpty)) =
        Profile.markWords c inlineKey := by
    rw [Profile.markWords]
    cases c.isIdentity <;> cases inlineKey && c.isPrimaryKey <;> decide
  rw [write_joined, Profile.boundDefinition, ← hmarks, ← List.filter_eq_self.2 hkept,
    ← List.filter_append, ← List.filter_append]
  simp only [List.map_cons, List.map_nil, write_name, write_nullableClause hd,
    defaultClause_of hd hlimit hvalue hdefault hbound, write_identityMark hd,
    write_primaryKeyMark hd, List.cons_append, List.nil_append]

theorem changed_of (column : String)
    (hcheck : (Change.alterDefaultConstraint table column value).check = .ok ()) :
    p.statementTexts (.alterDefaultConstraint table column value) = .ok
      [(p.dropDefaults table [column]).write p.quoter,
        p.addBinding table column (sql.write p.quoter)] := by
  obtain ⟨add, hadd, hworded, htext⟩ := exists_addDefault hlimit hvalue table column
  have hsqls : p.statementsOfValid (.alterDefaultConstraint table column value) = .ok
      [p.dropDefaults table [column], add] := by
    change p.alterDefault table column value = _
    rw [Profile.alterDefault, if_pos hd, hadd]
    rfl
  rw [(statementTexts_of_isWorded hcheck hsqls ?_).2, List.map_cons, List.map_singleton, htext]
  rw [List.forall_mem_cons, List.forall_mem_singleton]
  exact ⟨isWorded_dropDefaults p table [column], hworded⟩

end Bound

section Altered

/-- A column that cannot be numbered any more is altered only where that is passed over. -/
theorem alterBoundColumn_iff (hdefault : c.defaultValue = some value) {add : Sql}
    (hadd : p.addDefault table c.name value = .ok add) {sqls : List Sql} :
    p.alterBoundColumn table c = .ok sqls ↔
      (c.isIdentity = true → p.mode = .emulate) ∧ ∃ definition,
        p.column { c with defaultValue := none, isIdentity := false } table.name false =
          .ok definition ∧
        sqls = [p.dropDefaults table [c.name],
          "ALTER TABLE " ++ p.quoter.object table ++ " ALTER COLUMN " ++ definition, add] := by
  have hplain : (do
      let definition ←
        p.column { c with defaultValue := none, isIdentity := false } table.name false
      let add ← p.addDefault table c.name value
      return [p.dropDefaults table [c.name],
        "ALTER TABLE " ++ p.quoter.object table ++ " ALTER COLUMN " ++ definition, add]) =
        Except.ok sqls ↔ ∃ definition,
          p.column { c with defaultValue := none, isIdentity := false } table.name false =
            .ok definition ∧
          sqls = [p.dropDefaults table [c.name],
            "ALTER TABLE " ++ p.quoter.object table ++ " ALTER COLUMN " ++ definition, add] := by
    constructor
    · intro h
      obtain ⟨definition, hdefinition, h⟩ := exists_of_bind h
      rw [hadd] at h
      cases h
      exact ⟨definition, hdefinition, rfl⟩
    · rintro ⟨definition, hdefinition, rfl⟩
      rw [hdefinition, hadd]
      rfl
  rw [← hplain, Profile.alterBoundColumn, hdefault]
  cases hidentity : c.isIdentity with
  | false => simp
  | true =>
      rw [if_pos rfl, Profile.unsupported]
      cases p.mode with
      | strict =>
          constructor
          · intro h
            cases h
          · intro h
            cases h.1 rfl
      | emulate => exact (and_iff_right fun _ => rfl).symm

/-- The statements of an altered column with a default: it is dropped first and bound again. -/
theorem alterColumn_iff (hd : p.dialect = .sqlServer) (hdefault : c.defaultValue = some value)
    {add : Sql} (hadd : p.addDefault table c.name value = .ok add) {sqls : List Sql} :
    p.alterColumn table c = .ok sqls ↔
      (c.isIdentity = true → p.mode = .emulate) ∧ ∃ definition,
        p.column { c with defaultValue := none, isIdentity := false } table.name false =
          .ok definition ∧
        sqls = [p.dropDefaults table [c.name],
          "ALTER TABLE " ++ p.quoter.object table ++ " ALTER COLUMN " ++ definition, add] ++
          (c.description.bind fun d => p.describeColumn table c.name d true).toList := by
  have hchanged : p.alterColumn table c = .ok sqls ↔
      ∃ changed, p.alterBoundColumn table c = .ok changed ∧ sqls = changed ++
        (c.description.bind fun d => p.describeColumn table c.name d true).toList := by
    unfold Profile.alterColumn
    dsimp only
    rw [hd]
    constructor
    · intro h
      obtain ⟨changed, hchanged, h⟩ := exists_of_bind h
      cases h
      exact ⟨changed, hchanged, rfl⟩
    · rintro ⟨changed, hchanged, rfl⟩
      rw [hchanged]
      rfl
  rw [hchanged]
  simp only [alterBoundColumn_iff hdefault hadd]
  constructor
  · rintro ⟨_, ⟨hmode, definition, hdefinition, rfl⟩, rfl⟩
    exact ⟨hmode, definition, hdefinition, rfl⟩
  · rintro ⟨hmode, definition, hdefinition, rfl⟩
    exact ⟨_, ⟨hmode, definition, hdefinition, rfl⟩, rfl⟩

theorem isWorded_described {described : Sql} (h : described ∈
    (c.description.bind fun d => p.describeColumn table c.name d true).toList) :
    described.isWorded = true := by
  obtain ⟨description, -, hdescribed⟩ := Option.bind_eq_some_iff.1 (Option.mem_toList.1 h)
  have hopens : p.DescribesColumn table c.name description described := ⟨true, hdescribed⟩
  exact isWorded_of_head (List.mem_append_right _ hopens.opens.1)

theorem altered_iff (hd : p.dialect = .sqlServer) (hlimit : p.maxNameLength = 128)
    (hvalue : value.sql p.dialect = .ok sql) (hdefault : c.defaultValue = some value)
    (hcheck : (Change.alterColumn table c).check = .ok ()) (texts : List String) :
    p.statementTexts (.alterColumn table c) = .ok texts ↔
      (c.isIdentity = true → p.mode = .emulate) ∧ ∃ definition,
        p.column { c with defaultValue := none, isIdentity := false } table.name false =
          .ok definition ∧ texts = p.reboundTexts table c definition (sql.write p.quoter) := by
  obtain ⟨add, hadd, haddWorded, haddText⟩ := exists_addDefault hlimit hvalue table c.name
  let described := (c.description.bind fun d => p.describeColumn table c.name d true).toList
  let changed (definition : Sql) : List Sql := [p.dropDefaults table [c.name],
    "ALTER TABLE " ++ p.quoter.object table ++ " ALTER COLUMN " ++ definition, add]
  have hworded : ∀ definition, ∀ sql ∈ changed definition ++ described, sql.isWorded = true := by
    intro definition sql hsql
    rcases List.mem_append.1 hsql with hsql | hsql
    · simp only [changed, List.mem_cons, List.not_mem_nil, or_false] at hsql
      rcases hsql with rfl | rfl | rfl
      · exact isWorded_dropDefaults p table [c.name]
      · simp only [List.append_assoc]
        exact isWorded_append (by decide) _
      · exact haddWorded
    · exact isWorded_described hsql
  have hwritten : ∀ definition, (changed definition ++ described).map (Sql.write p.quoter) =
      p.reboundTexts table c definition (sql.write p.quoter) := by
    intro definition
    simp only [changed, described, List.map_append, List.map_cons, List.map_nil, write_append,
      write_code, haddText, Quoter.quoteObject, Profile.reboundTexts]
  constructor
  · intro htexts
    obtain ⟨sqls, -, hsqls, hmap⟩ := exists_statements htexts
    obtain ⟨hmode, definition, hdefinition, rfl⟩ := (alterColumn_iff hd hdefault hadd).1 hsqls
    exact ⟨hmode, definition, hdefinition, (hmap (hworded definition)).trans (hwritten definition)⟩
  · rintro ⟨hmode, definition, hdefinition, rfl⟩
    have hsqls : p.statementsOfValid (.alterColumn table c) =
        .ok (changed definition ++ described) :=
      (alterColumn_iff hd hdefault hadd).2 ⟨hmode, definition, hdefinition, rfl⟩
    rw [(statementTexts_of_isWorded hcheck hsqls (hworded definition)).2, hwritten]

end Altered

end Defaults

/-- Statements that create and delete a constraint agree on its name, and so do the statements
that bind a default to a column where defaults are constraints. -/
theorem constraintNames_agree (mode : Mode) (o : Options) :
    (∀ d c, (Change.createConstraint c).check = .ok () →
      (Change.deleteConstraint c).check = .ok () →
      let p := Profile.of d mode o
      (d ≠ .sqlite → p.NamesConstraint c) ∧
        (d = .sqlite → (∃ feature, p.statements (.createConstraint c) = p.skip feature) ∧
          ∃ feature, p.statements (.deleteConstraint c) = p.skip feature)) ∧
    ∀ table c value sql, c.defaultValue = some value → value.sql .sqlServer = .ok sql →
      let p := Profile.of .sqlServer mode o
      p.NamesDefault table c value (sql.write p.quoter) := by
  constructor
  · intro d c hcreate hdelete
    refine ⟨fun hd => ⟨created_of hd hcreate, deleted_of hd hdelete⟩, ?_⟩
    rintro rfl
    exact skipped_sqlite hcreate hdelete
  · intro table c value sql hdefault hvalue
    exact ⟨fun _ _ h => defined_of rfl rfl hvalue hdefault rfl h, changed_of rfl rfl hvalue c.name,
      altered_iff rfl rfl hvalue hdefault⟩

/-- A key whose name is shortened, and a default that is bound in three places. -/
theorem constraintNames_agree_shortened :
    let table : ObjectName := ⟨"größenänderungen_der_buchungsverwaltung", none⟩
    let key : Constraint := ⟨.unique, none, table, .ofList ["rechnungsschlüssel", "änderung"]⟩
    let column := (Column.ofType "betrag" .int32).withDefault (.int 0)
    let mySql := Profile.of .mySql .strict {}
    let sqlServer := Profile.of .sqlServer .strict {}
    (Change.createConstraint key).check = .ok () ∧ (Change.deleteConstraint key).check = .ok () ∧
      mySql.NamesConstraint key ∧
      mySql.quotedConstraint key =
        "`UC_größenänderungen_der_buchungsverwaltung_rechnungs_990bca96`" ∧
      sqlServer.NamesDefault table column (.int 0) "0" ∧
      (∃ definition, sqlServer.column column table.name true = .ok definition ∧
        definition.write sqlServer.quoter = "[betrag] INT NOT NULL CONSTRAINT " ++
          "[DF_größenänderungen_der_buchungsverwaltung_betrag] DEFAULT 0") ∧
      (Change.alterColumn table column).check = .ok () := by
  intro table key column mySql sqlServer
  have hcreate : (Change.createConstraint key).check = .ok () := by decide +kernel
  have hdelete : (Change.deleteConstraint key).check = .ok () := by decide +kernel
  have hnames := ((constraintNames_agree .strict {}).1 .mySql key hcreate hdelete).1 (by decide)
  have hbinds := (constraintNames_agree .strict {}).2 table column (.int 0) "0" rfl rfl
  exact ⟨hcreate, hdelete, hnames, by decide +kernel, hbinds, ⟨_, rfl, by decide +kernel⟩,
    by decide +kernel⟩

end SchemaChange
