import SchemaChange.Proofs.Sql.Attributes

/-!
# Attributes in strict mode

Strict mode drops no description or collation that the dialect has a place for. The dialect
without descriptions does the same as if there were none. Where there are no statements, the
dialect lacks something, or a type or a number cannot be written.
-/
namespace SchemaChange

open Sql

/-- The column without its description. -/
def Column.undescribed (c : Column) : Column := { c with description := none }

/-- The table without descriptions. -/
def Table.undescribed (t : Table) : Table :=
  { t with description := none, columns := t.columns.map Column.undescribed }

/-- The change without the descriptions that it gives. -/
def Change.undescribed : Change → Change
  | createTable table => createTable table.undescribed
  | alterTable table _ => alterTable table none
  | createColumn table column => createColumn table column.undescribed
  | alterColumn table column => alterColumn table column.undescribed
  | change => change

section Undescribed

variable (mode : Mode) (o : Options)

theorem checkColumns_undescribed (table : String) (seen : List String) (columns : List Column) :
    checkColumns table seen (columns.map Column.undescribed) =
      checkColumns table seen columns := by
  induction columns generalizing seen with
  | nil => rfl
  | cons c columns ih =>
      rw [List.map_cons, checkColumns, checkColumns]
      simp only [ih]
      rfl

theorem check_undescribed (change : Change) : change.undescribed.check = change.check := by
  cases change with
  | createTable t =>
      simp only [Change.undescribed, Change.check, Table.check, Table.undescribed,
        checkColumns_undescribed, List.isEmpty_map]
  | _ => rfl

theorem hoistsKey_undescribed (p : Profile) (columns : List Column) :
    p.hoistsKey (columns.map Column.undescribed) = p.hoistsKey columns := by
  have hkeys : (columns.map Column.undescribed).filter (·.isPrimaryKey) =
      (columns.filter (·.isPrimaryKey)).map Column.undescribed := List.filter_map
  simp only [Profile.hoistsKey, hkeys]
  generalize columns.filter (·.isPrimaryKey) = keys
  match keys with
  | [] | [_] => rfl
  | _ :: _ :: keys => simp

theorem keyClause_undescribed (columns : List Column) :
    Profile.keyClause (columns.map Column.undescribed) = Profile.keyClause columns := by
  simp only [Profile.keyClause, List.filter_map, List.map_map, List.findSome?_map]
  rfl

theorem columns_undescribed (columns : List Column) (table : String) :
    (Profile.of .sqlite mode o).columns (columns.map Column.undescribed) table =
      (Profile.of .sqlite mode o).columns columns table := by
  simp only [Profile.columns, hoistsKey_undescribed, keyClause_undescribed, List.mapM_map]
  rfl

theorem describeNewTable_sqlite (t : Table) :
    (Profile.of .sqlite mode o).describeNewTable t = [] := by
  have htable : ∀ d, (Profile.of .sqlite mode o).describeTable t.name d false = none :=
    fun _ => rfl
  have hcolumn : ∀ c d, (Profile.of .sqlite mode o).describeColumn t.name c d false = none :=
    fun _ _ => rfl
  simp [Profile.describeNewTable, htable, hcolumn]

theorem createTable_undescribed (t : Table) :
    (Profile.of .sqlite mode o).createTable t.undescribed =
      (Profile.of .sqlite mode o).createTable t := by
  simp only [Profile.createTable, describeNewTable_sqlite]
  simp only [Table.undescribed, columns_undescribed]
  rfl

theorem statementsOfValid_undescribed (change : Change) :
    (Profile.of .sqlite mode o).statementsOfValid change.undescribed =
      (Profile.of .sqlite mode o).statementsOfValid change := by
  cases change with
  | createTable t => exact createTable_undescribed mode o t
  | alterTable table description => cases description <;> rfl
  | createColumn table c =>
      obtain ⟨_, _, _, _, _, _, _, _, _, _, _, description, _⟩ := c
      cases description <;> rfl
  | alterColumn table c => rfl
  | _ => rfl

/-- Descriptions change nothing where there is no place for them. -/
theorem statementTexts_undescribed (change : Change) :
    (Profile.of .sqlite mode o).statementTexts change.undescribed =
      (Profile.of .sqlite mode o).statementTexts change := by
  simp only [Profile.statementTexts, Profile.statements, Change.validate, check_undescribed,
    statementsOfValid_undescribed]

end Undescribed

/-- What strict mode writes of a valid definition, and why it fails if it does. -/
theorem strict_attributes {d : Dialect} {o : Options} {change : Change}
    (hcheck : change.check = .ok ()) (hdefinition : change.isDefinition = true) :
    let p := Profile.of d .strict o
    (∀ texts, p.statementTexts change = .ok texts →
      (d ≠ .sqlite → ∀ description ∈ change.descriptions,
        Mentioned (p.quoter.string description) texts) ∧
      (d ≠ .hana → (d = .snowflake → ∀ table column, change ≠ .alterColumn table column) →
        ∀ collation ∈ change.collations, Mentioned (p.collationWords collation) texts)) ∧
    (d = .sqlite → p.statementTexts change.undescribed = p.statementTexts change) ∧
    ∀ e, p.statementTexts change = .error e →
      e.isUnsupported = true ∨
      (∃ cause, e = .noType cause ∧ ∃ c ∈ change.columns, p.nativeType c = .error e) ∨
      ∃ x, .float x ∈ change.literals ∧ x.isFinite = false ∧
        e = .invalid (.notFinite x.toPlain) := by
  intro p
  have hp : p.Retains := Profile.retains_of d o
  have hd : p.dialect = d := Profile.dialect_of d .strict o
  refine ⟨fun texts htexts => ⟨fun hsqlite description hmem => ?_,
    fun hhana hsnowflake collation hmem => ?_⟩, ?_, fun e he => ?_⟩
  · refine mentioned_of_mentions (allBlank_string _ _) ?_ texts htexts
    rcases List.mem_append.1 hmem with htable | hcolumn
    · exact yields_tableDescription hp (hd ▸ hsqlite) (Option.mem_toList.1 htable)
    · obtain ⟨c, hc, hdescription⟩ := List.mem_filterMap.1 hcolumn
      exact yields_columnDescription hp (hd ▸ hsqlite) hc hdescription
  · obtain ⟨c, hc, hcollation⟩ := List.mem_filterMap.1 hmem
    exact mentioned_of_mentions (allBlank_collationWords p collation)
      (yields_collation hp (hd ▸ hhana) (hd ▸ hsnowflake) hc hcollation) texts htexts
  · rintro rfl
    exact statementTexts_undescribed .strict o change
  · cases failsBy_statementTexts p hcheck hdefinition e he with
    | missing h => exact .inl h
    | type hc h =>
        obtain ⟨cause, hcause⟩ := exists_noType h
        exact .inr (.inl ⟨cause, hcause, _, hc, h⟩)
    | value hv h =>
        rcases literal_error h with h | ⟨x, rfl, hx⟩
        · exact .inl h
        · exact .inr (.inr ⟨x, hv, hx⟩)

/-- A described table whose one column is described and has a collation. -/
theorem strict_attributes_createTable :
    let name : Column :=
      ((Column.ofType "name" .string).withCollation "utf8_bin").withDescription "full name"
    let change : Change :=
      .createTable (((Table.ofName "users").withColumn name).withDescription "all users")
    let texts := ["CREATE TABLE \x60users\x60 (\x60name\x60 NVARCHAR(255) COLLATE utf8_bin " ++
      "NOT NULL COMMENT 'full name') ENGINE = INNODB COMMENT 'all users'"]
    change.check = .ok () ∧ change.isDefinition = true ∧
      (Profile.of .mySql .strict {}).statementTexts change = .ok texts ∧
      Mentioned "'all users'" texts ∧ Mentioned "'full name'" texts ∧
      Mentioned "COLLATE utf8_bin" texts := by
  intro name change texts
  have hcheck : change.check = .ok () := by decide +kernel
  have hdefinition : change.isDefinition = true := rfl
  have htexts : (Profile.of .mySql .strict {}).statementTexts change = .ok texts := by
    decide +kernel
  obtain ⟨hkept, -, -⟩ := strict_attributes (d := .mySql) (o := {}) hcheck hdefinition
  obtain ⟨hdescriptions, hcollations⟩ := hkept texts htexts
  exact ⟨hcheck, hdefinition, htexts, hdescriptions nofun "all users" (.head _),
    hdescriptions nofun "full name" (.tail _ (.head _)),
    hcollations nofun nofun "utf8_bin" (.head _)⟩

/-- The texts of a change hold every description and collation, and nothing but what the dialect
lacks keeps them from being written. -/
structure Profile.Keeps (p : Profile) (change : Change) : Prop where
  descriptions : ∀ texts, p.statementTexts change = .ok texts →
    ∀ description ∈ change.descriptions, Mentioned (p.quoter.string description) texts
  collations : ∀ texts, p.statementTexts change = .ok texts →
    ∀ collation ∈ change.collations, Mentioned (p.collationWords collation) texts
  failures : ∀ e, p.statementTexts change = .error e → e.isUnsupported = true

/-- The dialect without descriptions, the one whose definitions have no collation, the one that
alters columns without their collation, a type that a dialect does not have, and a default that is
not finite. -/
theorem not_keeps_attributes :
    let described : Change := .createTable
      (((Table.ofName "users").withColumn (.ofType "id" .int32)).withDescription "all users")
    let collated : Column := (Column.ofType "c" .string).withCollation "de"
    let added : Change := .createColumn ⟨"t", none⟩ collated
    let altered : Change := .alterColumn ⟨"t", none⟩ collated
    let typed : Change := .createColumn ⟨"t", none⟩ (.ofType "c" .uint16)
    let infinite : Change := .createColumn ⟨"t", none⟩
      ((Column.ofType "c" .double).withDefault (.float ⟨0x7FF0000000000000⟩))
    (∀ change ∈ [described, added, altered, typed, infinite],
      change.check = .ok () ∧ change.isDefinition = true) ∧
      ¬(Profile.of .sqlite .strict {}).Keeps described ∧
      ¬(Profile.of .hana .strict {}).Keeps added ∧
      ¬(Profile.of .snowflake .strict {}).Keeps altered ∧
      ¬(Profile.of .postgres .strict {}).Keeps typed ∧
      ¬(Profile.of .postgres .strict {}).Keeps infinite := by
  intro described collated added altered typed infinite
  have hdescribed : (Profile.of .sqlite .strict {}).statementTexts described =
      .ok ["CREATE TABLE \"users\" (\"id\" INTEGER NOT NULL)"] := by decide +kernel
  have hadded : (Profile.of .hana .strict {}).statementTexts added =
      .ok ["ALTER TABLE \"t\" ADD (\"c\" NVARCHAR(255) NOT NULL)"] := by decide +kernel
  have haltered : (Profile.of .snowflake .strict {}).statementTexts altered =
      .ok ["ALTER TABLE \"PUBLIC\".\"t\" ALTER COLUMN \"c\" SET DATA TYPE VARCHAR, " ++
        "COLUMN \"c\" SET NOT NULL"] := by decide +kernel
  have htyped : (Profile.of .postgres .strict {}).statementTexts typed =
      .error (.noType (.unknown .postgres .uint16)) := by decide +kernel
  have hinfinite : (Profile.of .postgres .strict {}).statementTexts infinite =
      .error (.invalid (.notFinite "inf")) := by decide +kernel
  refine ⟨by decide +kernel, fun h => ?_, fun h => ?_, fun h => ?_, fun h => ?_, fun h => ?_⟩
  · exact absurd (h.descriptions _ hdescribed "all users" (.head _)) (by decide +kernel)
  · exact absurd (h.collations _ hadded "de" (.head _)) (by decide +kernel)
  · exact absurd (h.collations _ haltered "de" (.head _)) (by decide +kernel)
  · exact absurd (h.failures _ htyped) (by decide)
  · exact absurd (h.failures _ hinfinite) (by decide)

end SchemaChange
