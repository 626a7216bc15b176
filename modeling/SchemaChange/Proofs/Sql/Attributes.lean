import SchemaChange.Proofs.Sql.Failure

/-!
# Descriptions and collations in statements

A strict profile writes the descriptions and collations of a change into its statements, each
in the place that the dialect has for it: a clause of the definition, a part of a statement that
alters a column, or a statement of its own. One dialect stores no descriptions at all.
-/
namespace SchemaChange

open Sql

namespace Sql

/-- The words stand somewhere in the SQL. -/
def Holds (q : Quoter) (words : String) (sql : Sql) : Prop := words.toList <:+: sql.chars q

theorem Holds.within {q : Quoter} {words : String} {x y : Sql} (hx : Holds q words x)
    (h : x <:+: y) : Holds q words y := by
  obtain ⟨before, after, rfl⟩ := h
  rw [Holds, chars_append, chars_append]
  exact hx.trans (List.infix_append ..)

theorem holds_text (q : Quoter) (s : String) : Holds q (q.string s) (Sql.text s) := by
  rw [Holds, Sql.text, chars_singleton]
  exact List.infix_refl _

theorem infix_join (separator : Sql) {part : Sql} {parts : List Sql} (h : part ∈ parts) :
    part <:+: join separator parts := by
  fun_induction join separator parts with
  | case1 => cases h
  | case2 other =>
      obtain rfl := List.mem_singleton.1 h
      exact List.infix_refl _
  | case3 first others hne ih =>
      rcases List.mem_cons.1 h with rfl | h
      · rw [List.append_assoc]
        exact (List.prefix_append ..).isInfix
      · exact (ih h).trans (List.suffix_append ..).isInfix

/-- The words stand in some statement. -/
def Mentions (q : Quoter) (words : String) (sqls : List Sql) : Prop :=
  ∃ sql ∈ sqls, Holds q words sql

end Sql

namespace Profile

/-- The words that give a column its collation. -/
def collationWords (p : Profile) (collation : String) : String :=
  "COLLATE " ++ if p.dialect = .postgres then p.quoter.quote collation else collation

/-- A strict profile whose definitions have room for collations and perhaps for descriptions, and
whose statements hold the definitions that they are made of. -/
structure Retains (p : Profile) : Prop where
  strict : p.mode = .strict
  description : .description ∈ p.clauseOrder ↔ p.dialect = .mySql
  collation : p.dialect ≠ .hana → .collation ∈ p.clauseOrder
  createTable : ∀ table body, body <:+: p.forms.createTable table body
  addColumn : ∀ table column, column <:+: p.forms.addColumn table column
  alterColumn : ∀ form ∈ p.forms.alterColumn, ∀ table column, column <:+: form table column

/-- Options do not touch the order of clauses. -/
theorem clauseOrder_of (d : Dialect) (mode : Mode) (o : Options) :
    (Profile.of d mode o).clauseOrder = (Profile.of d .strict {}).clauseOrder := by
  cases d <;> rfl

/-- Every strict profile does. -/
theorem retains_of (d : Dialect) (o : Options) : (Profile.of d .strict o).Retains where
  strict := by cases d <;> rfl
  description := by
    rw [clauseOrder_of, dialect_of]
    cases d <;> decide
  collation := by
    rw [clauseOrder_of, dialect_of]
    cases d <;> decide
  createTable := by cases d <;> exact fun _ _ => ⟨_, _, rfl⟩
  addColumn := by
    cases d with
    | hana => exact fun _ _ => ⟨_, _, rfl⟩
    | _ => exact fun _ _ => (List.suffix_append ..).isInfix
  alterColumn := by
    cases d with
    | sqlite => nofun
    | hana =>
        rintro _ ⟨⟩ _ _
        exact ⟨_, _, rfl⟩
    | sqlServer | postgres | mySql | oracle | snowflake =>
        rintro _ ⟨⟩ _ _
        exact (List.suffix_append ..).isInfix

end Profile

section Columns

variable {p : Profile} {c : Column} {words : String}

/-- A clause stands in every definition. -/
theorem yields_column_holds {table : String} {inlineKey : Bool} {clause : Clause} {part : Sql}
    (hclause : clause ∈ p.clauseOrder) (hpart : p.clause c table inlineKey clause = .ok part)
    (hholds : Holds p.quoter words part) (hwords : Text.allBlank words = false) :
    Yields (p.column c table inlineKey) (Holds p.quoter words) := by
  have hvoid : p.isVoid part = false := by
    obtain ⟨ch, hch, -⟩ := List.all_eq_false.1 hwords
    exact isVoid_of_mem (hholds.subset hch)
  unfold Profile.column
  refine yields_after (yields_bind _ fun parts hparts => yields_ok ?_)
  obtain ⟨part', hmem, hpart'⟩ := mem_of_mapM hparts hclause
  obtain rfl : part = part' := Except.ok.inj (hpart.symm.trans hpart')
  have hkept : part ∈ parts.filter (!p.isVoid ·) := List.mem_filter.2 ⟨hmem, by rw [hvoid]; rfl⟩
  exact hholds.within (infix_join _ hkept)

/-- The words stand in every definition of a column with these attributes. -/
def Column.Writes (c : Column) (p : Profile) (words : String) : Prop :=
  ∀ c' : Column, c'.description = c.description → c'.collation = c.collation →
    ∀ table inlineKey, Yields (p.column c' table inlineKey) (Holds p.quoter words)

theorem allBlank_string (q : Quoter) (s : String) : Text.allBlank (q.string s) = false := by
  rw [Text.allBlank, Quoter.string, String.toList_ofList]
  exact List.all_eq_false.2 ⟨'\x27', by simp, by decide⟩

theorem allBlank_collationWords (p : Profile) (collation : String) :
    Text.allBlank (p.collationWords collation) = false := by
  rw [Text.allBlank, Profile.collationWords, String.toList_append]
  exact List.all_eq_false.2 ⟨'C', by simp, by decide⟩

theorem holds_collation (p : Profile) (collation : String) :
    Holds p.quoter (p.collationWords collation) ("COLLATE " ++ p.collationName collation) := by
  have hwords : Sql.write p.quoter ("COLLATE " ++ p.collationName collation) =
      p.collationWords collation := by
    unfold Profile.collationWords Profile.collationName
    split <;> simp [Sql.write, Sql.name, Sql.verbatim, Piece.write]
  exact ⟨[], [], by rw [List.nil_append, List.append_nil, ← toList_write, hwords]⟩

theorem writes_collation (hp : p.Retains) (hd : p.dialect ≠ .hana) {collation : String}
    (hc : c.collation = some collation) : c.Writes p (p.collationWords collation) := by
  intro c' _ hsame table inlineKey
  have hclause : p.clause c' table inlineKey .collation =
      .ok ("COLLATE " ++ p.collationName collation) := by
    rw [Profile.clause, Profile.collationClause, hsame, hc]
  exact yields_column_holds (hp.collation hd) hclause (holds_collation p collation)
    (allBlank_collationWords p collation)

theorem writes_description (hp : p.Retains) (hd : p.dialect = .mySql) {description : String}
    (hc : c.description = some description) : c.Writes p (p.quoter.string description) := by
  intro c' hsame _ table inlineKey
  have hclause : p.clause c' table inlineKey .description =
      .ok ("COMMENT " ++ Sql.text description) := by
    rw [Profile.clause, Profile.descriptionClause, hsame, hc]
  exact yields_column_holds (hp.description.2 hd) hclause
    ((holds_text _ _).within (List.suffix_append ..).isInfix) (allBlank_string _ _)

theorem yields_columns_holds {columns : List Column} (hmem : c ∈ columns)
    (hc : c.Writes p words) (table : String) :
    Yields (p.columns columns table) (Holds p.quoter words) := by
  unfold Profile.columns
  refine yields_bind _ fun parts hparts => yields_ok ?_
  obtain ⟨part, hpart, hcolumn⟩ := mem_of_mapM hparts hmem
  refine (hc c rfl rfl _ _ part hcolumn).within (infix_join _ ?_)
  split
  · exact List.mem_append_left _ hpart
  · exact hpart

end Columns

section Descriptions

variable {p : Profile} (table : ObjectName) (description : String)

theorem infix_extendedProperty (column : Option String) (replace : Bool) :
    Sql.text description <:+: p.extendedProperty table column description replace := by
  have hadd : ∀ code levels : Sql, Sql.text description <:+:
      code ++ Sql.text description ++ ", " ++ levels := by
    intro code levels
    simp only [List.append_assoc]
    exact List.infix_append' ..
  unfold Profile.extendedProperty
  dsimp only
  split
  · exact (hadd _ _).trans (List.suffix_append ..).isInfix
  · exact hadd _ _

/-- The description of a table has a statement, save where it is part of the definition. -/
theorem exists_describeTable (hd : p.dialect ≠ .sqlite) (replace : Bool)
    (hreplace : p.dialect = .mySql → replace = true) :
    ∃ sql, p.describeTable table description replace = some sql ∧
      Holds p.quoter (p.quoter.string description) sql := by
  have hholds := holds_text p.quoter description
  unfold Profile.describeTable
  cases hdialect : p.dialect with
  | sqlite => exact absurd hdialect hd
  | mySql =>
      rw [hreplace hdialect]
      exact ⟨_, rfl, hholds.within (List.suffix_append ..).isInfix⟩
  | sqlServer => exact ⟨_, rfl, hholds.within (infix_extendedProperty ..)⟩
  | postgres | oracle | hana | snowflake =>
      exact ⟨_, rfl, hholds.within (List.suffix_append ..).isInfix⟩

/-- The description of a column has a statement, save where it is part of the definition. -/
theorem exists_describeColumn (hd : p.dialect ≠ .sqlite) (hclause : p.dialect ≠ .mySql)
    (column : String) (replace : Bool) :
    ∃ sql, p.describeColumn table column description replace = some sql ∧
      Holds p.quoter (p.quoter.string description) sql := by
  have hholds := holds_text p.quoter description
  unfold Profile.describeColumn
  cases hdialect : p.dialect with
  | sqlite => exact absurd hdialect hd
  | mySql => exact absurd hdialect hclause
  | sqlServer => exact ⟨_, rfl, hholds.within (infix_extendedProperty ..)⟩
  | postgres | oracle | hana | snowflake =>
      exact ⟨_, rfl, hholds.within (List.suffix_append ..).isInfix⟩

end Descriptions

section Statements

variable {p : Profile} {c : Column} {words : String} (table : ObjectName)

theorem yields_addColumn_holds (hp : p.Retains) (hc : c.Writes p words) (c' : Column)
    (hdescription : c'.description = c.description) (hcollation : c'.collation = c.collation) :
    Yields (p.addColumn table c') (Holds p.quoter words) := by
  unfold Profile.addColumn
  refine (hc c' hdescription hcollation _ _).bind fun definition hdefinition => yields_ok ?_
  exact hdefinition.within (hp.addColumn _ _)

/-- The column is added with its attributes, whatever is altered later. -/
theorem yields_createColumn_mentions (hp : p.Retains) (hc : c.Writes p words) :
    Yields (p.createColumn table c) (Mentions p.quoter words) := by
  have hplain := yields_addColumn_holds table hp hc c rfl rfl
  unfold Profile.createColumn
  dsimp only
  split
  · split
    · have hadd := yields_addColumn_holds table hp hc
        { c with nullable := some true, existingRows := none } rfl rfl
      refine hadd.bind fun add hadd => yields_bind _ fun fill _ => yields_bind _ fun alter _ => ?_
      exact yields_ok ⟨add, by simp, hadd⟩
    · exact hplain.bind fun add hadd => yields_ok ⟨add, .head _, hadd⟩
  · exact hplain.bind fun add hadd => yields_ok ⟨add, .head _, hadd⟩

theorem yields_createColumn_describes (c : Column) : Yields (p.createColumn table c) fun sqls =>
    (c.description.bind fun d => p.describeColumn table c.name d false).toList ⊆ sqls := by
  unfold Profile.createColumn
  dsimp only
  split
  · split
    · exact yields_bind _ fun add _ => yields_bind _ fun fill _ => yields_bind _ fun alter _ =>
        yields_ok (List.subset_append_right ..)
    · exact yields_bind _ fun add _ => yields_ok (List.subset_cons_self ..)
  · exact yields_bind _ fun add _ => yields_ok (List.subset_cons_self ..)

/-- In strict mode a column that cannot be altered is a failure. -/
theorem yields_skip_strict (hp : p.Retains) (feature : Feature) {holds : List Sql → Prop} :
    Yields (p.skip feature) holds := by
  unfold Profile.skip Profile.unsupported
  rw [hp.strict]
  exact yields_error _

theorem yields_alterColumn_describes (hp : p.Retains) (c : Column) :
    Yields (p.alterColumn table c) fun sqls =>
      (c.description.bind fun d => p.describeColumn table c.name d true).toList ⊆ sqls := by
  unfold Profile.alterColumn
  dsimp only
  split
  · exact yields_bind _ fun alter _ => yields_ok (List.subset_append_right ..)
  · exact yields_bind _ fun alter _ => yields_ok (List.subset_cons_self ..)
  · exact yields_bind _ fun alter _ => yields_ok (List.subset_cons_self ..)
  · split
    · exact yields_skip_strict hp _
    · exact yields_bind _ fun alter _ => yields_ok (List.subset_cons_self ..)

theorem yields_alterBoundColumn_mentions (hc : c.Writes p words) :
    Yields (p.alterBoundColumn table c) (Mentions p.quoter words) := by
  unfold Profile.alterBoundColumn
  have hplain := hc { c with defaultValue := none, isIdentity := false } rfl rfl table.name false
  refine yields_after (hplain.bind fun definition hdefinition => ?_)
  have halter := hdefinition.within (y := "ALTER TABLE " ++ p.quoter.object table ++
    " ALTER COLUMN " ++ definition) (List.suffix_append ..).isInfix
  dsimp only
  split
  · exact yields_ok ⟨_, .head _, halter⟩
  · exact yields_bind _ fun bound _ => yields_ok ⟨_, .tail _ (.head _), halter⟩

/-- Where a column is altered by its definition, its attributes are written again. -/
theorem yields_alterColumn_mentions (hp : p.Retains) (hc : c.Writes p words)
    (hpostgres : p.dialect ≠ .postgres) (hsnowflake : p.dialect ≠ .snowflake) :
    Yields (p.alterColumn table c) (Mentions p.quoter words) := by
  unfold Profile.alterColumn
  dsimp only
  split
  · refine (yields_alterBoundColumn_mentions table hc).bind fun alter halter => yields_ok ?_
    obtain ⟨sql, hsql, hholds⟩ := halter
    exact ⟨sql, List.mem_append_left _ hsql, hholds⟩
  · exact absurd ‹_› hpostgres
  · exact absurd ‹_› hsnowflake
  · split
    · exact yields_skip_strict hp _
    · rename_i form hform
      refine (hc c rfl rfl table.name false).bind fun definition hdefinition => yields_ok ?_
      exact ⟨_, .head _, hdefinition.within (hp.alterColumn form hform _ _)⟩

/-- Where a column is altered part by part, the collation stands behind the type. -/
theorem yields_alterColumn_collation (hpostgres : p.dialect = .postgres) {collation : String}
    (hc : c.collation = some collation) :
    Yields (p.alterColumn table c) (Mentions p.quoter (p.collationWords collation)) := by
  have hparts : Yields (p.alterColumnParts table c)
      (Holds p.quoter (p.collationWords collation)) := by
    have hname : Holds p.quoter (p.collationWords collation)
        (" COLLATE " ++ p.collationName collation) := by
      refine (holds_collation p collation).trans ?_
      simp only [chars_append, chars_singleton]
      exact ⟨[' '], [], by simp [Piece.write]⟩
    unfold Profile.alterColumnParts
    refine yields_bind _ fun type _ => ?_
    have htype : Holds p.quoter (p.collationWords collation) ("ALTER " ++ Sql.name c.name ++
        " TYPE " ++ (type ++ " COLLATE " ++ p.collationName collation)) := by
      refine hname.within ((List.IsSuffix.trans ?_ (List.suffix_append ..)).isInfix)
      rw [List.append_assoc]
      exact List.suffix_append ..
    rw [hc]
    dsimp only
    split
    · refine yields_bind _ fun sql _ => yields_ok ?_
      exact (htype.within (infix_join _ (.head _))).within (List.suffix_append ..).isInfix
    · exact yields_ok
        ((htype.within (infix_join _ (.head _))).within (List.suffix_append ..).isInfix)
  unfold Profile.alterColumn
  rw [hpostgres]
  exact hparts.bind fun alter halter => yields_ok ⟨alter, .head _, halter⟩

/-- The statements of a new table hold its columns and describe it, in its definition or behind. -/
structure Table.Created (t : Table) (p : Profile) (sqls : List Sql) : Prop where
  columns : ∃ columns, p.columns t.columns t.name.name = .ok columns ∧
    ∃ create ∈ sqls, columns <:+: create
  description : p.dialect = .mySql → ∀ d, t.description = some d →
    ∃ create ∈ sqls, Sql.text d <:+: create
  describes : p.describeNewTable t ⊆ sqls

theorem yields_createTable_created (hp : p.Retains) (t : Table) :
    Yields (p.createTable t) (t.Created p) := by
  unfold Profile.createTable
  refine yields_bind _ fun columns hcolumns => ?_
  have hcreate : ∀ keys, columns <:+: p.forms.createTable (p.quoter.object t.name)
      (columns ++ keys) := fun keys =>
    (List.prefix_append columns keys).isInfix.trans (hp.createTable _ _)
  have hdone : ∀ (create : Sql) (keys indexes : List Sql), columns <:+: create →
      (p.dialect = .mySql → ∀ d, t.description = some d → Sql.text d <:+: create) →
      t.Created p (create :: p.describeNewTable t ++ keys ++ indexes) := by
    intro create keys indexes h hdescription
    refine ⟨⟨columns, hcolumns, create, .head _, h⟩,
      fun hd d hsome => ⟨create, .head _, hdescription hd d hsome⟩, fun sql hsql => ?_⟩
    exact .tail _ (List.mem_append_left _ (List.mem_append_left _ hsql))
  dsimp only
  split
  · rename_i hsqlite
    refine yields_bind _ fun inner _ => yields_bind (.ok []) fun keys _ =>
      yields_bind _ fun indexes _ => yields_ok (hdone _ _ _ ?_ ?_)
    · rw [hsqlite]
      exact hcreate _
    · rw [hsqlite]
      nofun
  · refine yields_bind (.ok []) fun inner _ => yields_bind _ fun keys _ =>
      yields_bind _ fun indexes _ => yields_ok (hdone _ _ _ ?_ ?_)
    · -- the description stands behind the columns
      split
      · rw [List.append_assoc]
        exact (hcreate _).trans (List.prefix_append ..).isInfix
      · exact hcreate _
    · intro hd d hsome
      rw [hd, hsome]
      exact (List.suffix_append ..).isInfix

theorem yields_createTable_mentions (hp : p.Retains) {t : Table} (hmem : c ∈ t.columns)
    (hc : c.Writes p words) : Yields (p.createTable t) (Mentions p.quoter words) := by
  refine (yields_createTable_created hp t).mono fun sqls hcreated => ?_
  obtain ⟨columns, hcolumns, create, hcreate, hinfix⟩ := hcreated.columns
  exact ⟨create, hcreate, (yields_columns_holds hmem hc _ columns hcolumns).within hinfix⟩

end Statements

namespace Change

/-- The description that a change gives a table. -/
def tableDescription : Change → Option String
  | createTable table => table.description
  | alterTable _ description => description
  | _ => none

/-- The descriptions that a change gives a table and its columns. -/
def descriptions (change : Change) : List String :=
  change.tableDescription.toList ++ change.columns.filterMap (·.description)

/-- The collations of the columns that a change defines. -/
def collations (change : Change) : List String := change.columns.filterMap (·.collation)

end Change

section Changes

variable {p : Profile} {change : Change}

theorem yields_tableDescription (hp : p.Retains) (hd : p.dialect ≠ .sqlite) {description : String}
    (h : change.tableDescription = some description) :
    Yields (p.statementsOfValid change) (Mentions p.quoter (p.quoter.string description)) := by
  cases change with
  | createTable t =>
      refine (yields_createTable_created hp t).mono fun sqls hcreated => ?_
      by_cases hmySql : p.dialect = .mySql
      · obtain ⟨create, hcreate, hinfix⟩ := hcreated.description hmySql description h
        exact ⟨create, hcreate, (holds_text _ _).within hinfix⟩
      · obtain ⟨sql, hsql, hholds⟩ :=
          exists_describeTable t.name description hd false fun h => absurd h hmySql
        refine ⟨sql, hcreated.describes (List.mem_append_left _ ?_), hholds⟩
        rw [show t.description = some description from h, Option.bind_some, hsql]
        exact .head _
  | alterTable table other =>
      obtain rfl : other = some description := h
      obtain ⟨sql, hsql, hholds⟩ := exists_describeTable table description hd true fun _ => rfl
      refine yields_ok ⟨sql, ?_, hholds⟩
      rw [Option.bind_some, hsql]
      exact .head _
  | _ => cases h

theorem yields_columnDescription (hp : p.Retains) (hd : p.dialect ≠ .sqlite) {c : Column}
    (hc : c ∈ change.columns) {description : String} (h : c.description = some description) :
    Yields (p.statementsOfValid change) (Mentions p.quoter (p.quoter.string description)) := by
  by_cases hmySql : p.dialect = .mySql
  · -- the description is a clause of the definition
    have hwrites := writes_description hp hmySql h
    cases change with
    | createTable t => exact yields_createTable_mentions hp hc hwrites
    | createColumn table column =>
        obtain rfl : c = column := List.mem_singleton.1 hc
        exact yields_createColumn_mentions table hp hwrites
    | alterColumn table column =>
        obtain rfl : c = column := List.mem_singleton.1 hc
        exact yields_alterColumn_mentions table hp hwrites (by rw [hmySql]; decide)
          (by rw [hmySql]; decide)
    | _ => cases hc
  · -- the description is a statement of its own
    cases change with
    | createTable t =>
        obtain ⟨sql, hsql, hholds⟩ :=
          exists_describeColumn t.name description hd hmySql c.name false
        refine (yields_createTable_created hp t).mono fun sqls hcreated => ?_
        refine ⟨sql, hcreated.describes (List.mem_append_right _ ?_), hholds⟩
        exact List.mem_filterMap.2 ⟨c, hc, by rw [h, Option.bind_some, hsql]⟩
    | createColumn table column =>
        obtain rfl : c = column := List.mem_singleton.1 hc
        obtain ⟨sql, hsql, hholds⟩ :=
          exists_describeColumn table description hd hmySql c.name false
        refine (yields_createColumn_describes table c).mono fun sqls hsub => ?_
        exact ⟨sql, hsub (by rw [h, Option.bind_some, hsql]; exact .head _), hholds⟩
    | alterColumn table column =>
        obtain rfl : c = column := List.mem_singleton.1 hc
        obtain ⟨sql, hsql, hholds⟩ :=
          exists_describeColumn table description hd hmySql c.name true
        refine (yields_alterColumn_describes table hp c).mono fun sqls hsub => ?_
        exact ⟨sql, hsub (by rw [h, Option.bind_some, hsql]; exact .head _), hholds⟩
    | _ => cases hc

theorem yields_collation (hp : p.Retains) (hhana : p.dialect ≠ .hana)
    (hsnowflake : p.dialect = .snowflake → ∀ table column, change ≠ .alterColumn table column)
    {c : Column} (hc : c ∈ change.columns) {collation : String}
    (h : c.collation = some collation) :
    Yields (p.statementsOfValid change) (Mentions p.quoter (p.collationWords collation)) := by
  have hwrites := writes_collation hp hhana h
  cases change with
  | createTable t => exact yields_createTable_mentions hp hc hwrites
  | createColumn table column =>
      obtain rfl : c = column := List.mem_singleton.1 hc
      exact yields_createColumn_mentions table hp hwrites
  | alterColumn table column =>
      obtain rfl : c = column := List.mem_singleton.1 hc
      by_cases hpostgres : p.dialect = .postgres
      · exact yields_alterColumn_collation table hpostgres h
      · exact yields_alterColumn_mentions table hp hwrites hpostgres
          fun hd => hsnowflake hd table c rfl
  | _ => cases hc

end Changes

/-- The words stand in some text. -/
def Mentioned (words : String) (texts : List String) : Prop :=
  ∃ text ∈ texts, words.toList <:+: text.toList

instance (words : String) (texts : List String) : Decidable (Mentioned words texts) :=
  inferInstanceAs (Decidable (∃ text ∈ texts, words.toList <:+: text.toList))

/-- No statement with words in it is left out as blank. -/
theorem mentioned_of_mentions {p : Profile} {change : Change} {words : String}
    (hwords : Text.allBlank words = false)
    (h : Yields (p.statementsOfValid change) (Mentions p.quoter words)) :
    Yields (p.statementTexts change) (Mentioned words) := by
  have hstatements : Yields (p.statements change) (Mentions p.quoter words) := by
    unfold Profile.statements
    exact yields_bind _ fun _ _ => h
  unfold Profile.statementTexts
  refine hstatements.bind fun sqls hmentions => yields_ok ?_
  obtain ⟨sql, hsql, hholds⟩ := hmentions
  rw [Holds, ← toList_write] at hholds
  have hblank : Text.allBlank (sql.write p.quoter) = false := by
    obtain ⟨ch, hch, hvisible⟩ := List.all_eq_false.1 hwords
    exact List.all_eq_false.2 ⟨ch, hholds.subset hch, hvisible⟩
  exact ⟨_, List.mem_filter.2 ⟨List.mem_map_of_mem hsql, by rw [hblank]; rfl⟩, hholds⟩

end SchemaChange
