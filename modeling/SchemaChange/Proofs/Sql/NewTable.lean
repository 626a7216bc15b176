import SchemaChange.Proofs.Sql.Written

/-!
# What a new table is created with

The foreign keys and indexes of a new table name tables of their own, and nothing compares those
with the table that is created. A foreign key inside the definition belongs to the new table all
the same; the statements for other keys and for indexes go to the tables that they name.
-/
namespace SchemaChange

open Sql

/-- Two names of one table: the schema may be given or left to the default. -/
structure Quoter.SameObject (q : Quoter) (a b : ObjectName) : Prop where
  name : a.name = b.name
  schema : q.schemaOf? a.schema = q.schemaOf? b.schema

theorem Quoter.SameObject.quoteObject {q : Quoter} {a b : ObjectName} (h : q.SameObject a b) :
    q.quoteObject a = q.quoteObject b := by
  rw [Quoter.quoteObject, Quoter.quoteObject, Quoter.object, Quoter.object, h.name, h.schema]

/-- The words that create a table. -/
def Dialect.createTableWords : Dialect → String
  | hana => "CREATE COLUMN TABLE "
  | _ => "CREATE TABLE "

namespace Profile

/-- A foreign key inside the definition of a table. -/
def InnerKey (p : Profile) (k : ForeignKey) (text : String) : Prop :=
  ∃ constraint, p.foreignKey k = .ok constraint ∧ text = ", " ++ constraint.write p.quoter

/-- A statement that adds a foreign key to a table. -/
def AddsKey (p : Profile) (table : ObjectName) (k : ForeignKey) (text : String) : Prop :=
  ∃ constraint, p.foreignKey k = .ok constraint ∧
    text = "ALTER TABLE " ++ p.quoter.quoteObject table ++ " ADD " ++ constraint.write p.quoter

/-- A statement that creates an index on a table. -/
def CreatesIndex (p : Profile) (table : ObjectName) (ix : Index) (text : String) : Prop :=
  ∃ clustered, p.clusteredWord ix = .ok clustered ∧
    text = "CREATE " ++ (if ix.isUnique then "UNIQUE " else "") ++ clustered ++ "INDEX " ++
      p.quoter.quote (p.indexName ix) ++ " ON " ++ p.quoter.quoteObject table ++ " (" ++
      ", ".intercalate (ix.columns.map fun c => p.quoter.quote c.name ++ " " ++ c.direction.sql) ++
      ")"

/-- The texts that create a table, with the tables that its foreign keys and indexes go to. Foreign
keys stand inside the definition in the one dialect that cannot add them later, and one dialect has
no indexes. -/
def NewTable (p : Profile) (t : Table) (keyTable : ForeignKey → ObjectName)
    (indexTable : Index → ObjectName) (texts : List String) : Prop :=
  ∃ (columns : Sql) (inner keys indexes : List String) (ending : String),
    p.columns t.columns t.name.name = .ok columns ∧
    (if p.dialect = .sqlite then List.Forall₂ p.InnerKey t.foreignKeys inner ∧ keys = []
      else inner = [] ∧
        List.Forall₂ (fun k text => p.AddsKey (keyTable k) k text) t.foreignKeys keys) ∧
    (if p.dialect = .snowflake then indexes = []
      else List.Forall₂ (fun ix text => p.CreatesIndex (indexTable ix) ix text) t.indexes indexes) ∧
    texts = (p.dialect.createTableWords ++ p.quoter.quoteObject t.name ++ " (" ++
        columns.write p.quoter ++ String.join inner ++ ")" ++ ending) ::
      (p.describeNewTable t).map (Sql.write p.quoter) ++ keys ++ indexes

end Profile

section Checks

theorem check_bind_iff {x : Check} {f : Unit → Check} :
    (x >>= f) = .ok () ↔ x = .ok () ∧ f () = .ok () := by
  refine ⟨check_bind, fun ⟨hx, hf⟩ => ?_⟩
  rw [hx]
  exact hf

theorem check_forM_iff {α : Type} {check : α → Check} {as : List α} :
    as.forM check = .ok () ↔ ∀ a ∈ as, check a = .ok () := by
  refine ⟨check_of_forM, fun h => ?_⟩
  induction as with
  | nil => rfl
  | cons a as ih =>
      obtain ⟨ha, has⟩ := List.forall_mem_cons.1 h
      exact check_bind_iff.2 ⟨ha, ih has⟩

/-- The table without the objects that are created along with it. -/
def Table.alone (t : Table) : Table := { t with foreignKeys := [], indexes := [] }

/-- The foreign keys and indexes of a table are checked one by one, each without the table. -/
theorem Table.check_iff (t : Table) : t.check = .ok () ↔ t.alone.check = .ok () ∧
    (∀ k ∈ t.foreignKeys, k.check = .ok ()) ∧ ∀ ix ∈ t.indexes, ix.check = .ok () := by
  simp only [Table.check, Table.alone, check_bind_iff, check_forM_iff, List.not_mem_nil,
    false_implies, implies_true, and_true, and_assoc]

end Checks

/-- A profile whose statements for tables and foreign keys have the common forms. -/
structure Profile.MakesTables (p : Profile) : Prop where
  createTable : ∃ tail : String, ∀ table columns,
    (p.forms.createTable table columns).isWorded = true ∧
    (p.forms.createTable table columns).write p.quoter = p.dialect.createTableWords ++
      table.write p.quoter ++ " (" ++ columns.write p.quoter ++ ")" ++ tail
  addForeignKey : p.dialect ≠ .sqlite → p.forms.addForeignKey =
    some fun table key => ("ALTER TABLE " ++ table ++ " ADD " ++ key : Sql)
  hasIndexes : p.forms.hasIndexes = decide (p.dialect ≠ .snowflake)

/-- The common form of a definition behind its words, perhaps with an ending of its own. -/
theorem write_createTable (q : Quoter) (words ending : String) (table columns : Sql) :
    Sql.write q (words ++ table ++ " (" ++ columns ++ (")" ++ ending : String)) =
      words ++ table.write q ++ " (" ++ columns.write q ++ ")" ++ ending := by
  simp only [write_append, write_code, String.append_assoc]

theorem makesTables_of (d : Dialect) (mode : Mode) (o : Options) :
    (Profile.of d mode o).MakesTables where
  createTable := by
    cases d with
    | mySql =>
        have hending : ")" ++ " ENGINE = INNODB" = ") ENGINE = INNODB" := by decide
        refine ⟨" ENGINE = INNODB", fun _ _ => ⟨rfl, ?_⟩⟩
        rw [← write_createTable, hending]
        rfl
    | _ => exact ⟨"", fun _ _ => ⟨rfl, write_createTable _ _ "" _ _⟩⟩
  addForeignKey := by
    cases d with
    | sqlite => exact fun h => absurd rfl h
    | _ => exact fun _ => rfl
  hasIndexes := by cases d <;> rfl

section Statements

variable {p : Profile}

/-- Where every element has one statement, the statements stand in the order of the elements. -/
theorem forall₂_of_mapM_one {α : Type} {f : α → Except Error (List Sql)}
    {related : α → String → Prop} {q : Quoter} {as : List α} {sqls : List (List Sql)}
    (h : as.mapM f = .ok sqls) (hone : ∀ a sqls, f a = .ok sqls → ∃ sql, sqls = [sql] ∧
      sql.isWorded = true ∧ related a (sql.write q)) :
    (∀ sql ∈ sqls.flatten, sql.isWorded = true) ∧
      List.Forall₂ related as (sqls.flatten.map (Sql.write q)) := by
  have hall := forall₂_of_mapM h
  clear h
  induction hall with
  | nil => exact ⟨nofun, .nil⟩
  | cons ha _ ih =>
      obtain ⟨sql, rfl, hworded, hrelated⟩ := hone _ _ ha
      exact ⟨List.forall_mem_cons.2 ⟨hworded, ih.1⟩, .cons hrelated ih.2⟩

theorem addsKey_of_createForeignKey (hp : p.MakesTables) (hd : p.dialect ≠ .sqlite)
    {k : ForeignKey} {sqls : List Sql} (h : p.createForeignKey k = .ok sqls) :
    ∃ sql, sqls = [sql] ∧ sql.isWorded = true ∧
      p.AddsKey k.foreignTable k (sql.write p.quoter) := by
  rw [Profile.createForeignKey, hp.addForeignKey hd] at h
  obtain ⟨constraint, hconstraint, h⟩ := exists_of_bind h
  cases h
  refine ⟨_, rfl, rfl, constraint, hconstraint, ?_⟩
  simp only [write_append, write_code, Quoter.quoteObject]

theorem createsIndex_of_createIndex (hp : p.MakesTables) (hd : p.dialect ≠ .snowflake)
    {ix : Index} {sqls : List Sql} (h : p.createIndex ix = .ok sqls) :
    ∃ sql, sqls = [sql] ∧ sql.isWorded = true ∧
      p.CreatesIndex ix.table ix (sql.write p.quoter) := by
  rw [Profile.createIndex, if_pos (by rw [hp.hasIndexes]; exact decide_eq_true hd)] at h
  obtain ⟨clustered, hclustered, h⟩ := exists_of_bind h
  cases h
  have hcolumn : ∀ c, Sql.write p.quoter (Profile.indexColumn c) =
      p.quoter.quote c.name ++ " " ++ c.direction.sql := fun c => by
    simp only [Profile.indexColumn, write_append, write_name, write_code]
  refine ⟨_, rfl, ?_, clustered, hclustered, ?_⟩
  · have hvisible : Text.allBlank ("CREATE " ++ (if ix.isUnique then "UNIQUE " else "") ++
        clustered ++ "INDEX ") = false := by
      refine List.all_eq_false.2 ⟨'I', ?_, by decide⟩
      rw [String.toList_append]
      exact List.mem_append_right _ (by decide)
    rw [List.append_assoc]
    exact congrArg Bool.not hvisible
  · simp only [write_append, write_code, write_name, write_list, Quoter.quoteObject, List.map_map,
      Function.comp_def, hcolumn]

/-- Where there are no indexes, none is created. -/
theorem eq_nil_of_createIndex (hp : p.MakesTables) (hd : p.dialect = .snowflake)
    {ix : Index} {sqls : List Sql} (h : p.createIndex ix = .ok sqls) : sqls = [] := by
  have hnone : p.forms.hasIndexes = false := by rw [hp.hasIndexes, hd]; rfl
  rw [Profile.createIndex, hnone] at h
  obtain ⟨-, -, h⟩ := exists_of_bind h
  cases h
  rfl

/-- The statements that describe a new table begin with words. -/
theorem isWorded_describeNewTable (t : Table) :
    ∀ sql ∈ p.describeNewTable t, sql.isWorded = true := by
  intro sql hsql
  rcases List.mem_append.1 hsql with htable | hcolumn
  · obtain ⟨description, -, h⟩ := Option.bind_eq_some_iff.1 (Option.mem_toList.1 htable)
    unfold Profile.describeTable at h
    cases hd : p.dialect <;> rw [hd] at h <;> cases h <;> rfl
  · obtain ⟨c, -, h⟩ := List.mem_filterMap.1 hcolumn
    obtain ⟨description, -, h⟩ := Option.bind_eq_some_iff.1 h
    unfold Profile.describeColumn at h
    cases hd : p.dialect <;> rw [hd] at h <;> cases h <;> rfl

/-- The foreign keys of a new table: clauses of its definition in the one dialect that cannot add
them later, statements in the others. -/
def Profile.KeyParts (p : Profile) (ks : List ForeignKey) (inner : List Sql)
    (keys : List (List Sql)) : Prop :=
  if p.dialect = .sqlite then ks.mapM p.foreignKey = .ok inner ∧ keys = []
  else inner = [] ∧ ks.mapM p.createForeignKey = .ok keys

/-- What the statements of a new table are made of. -/
theorem exists_of_createTable {t : Table} {sqls : List Sql} (h : p.createTable t = .ok sqls) :
    ∃ (columns ending : Sql) (inner : List Sql) (keys indexes : List (List Sql)),
      p.columns t.columns t.name.name = .ok columns ∧ p.KeyParts t.foreignKeys inner keys ∧
      t.indexes.mapM p.createIndex = .ok indexes ∧
      sqls = (p.forms.createTable (p.quoter.object t.name)
          (columns ++ inner.flatMap fun key => (", " ++ key : Sql)) ++ ending) ::
        p.describeNewTable t ++ keys.flatten ++ indexes.flatten := by
  unfold Profile.createTable at h
  dsimp only at h
  obtain ⟨columns, hcolumns, h⟩ := exists_of_bind h
  split at h
  · -- no ending stands behind a definition with keys inside
    rename_i hd
    obtain ⟨inner, hinner, h⟩ := exists_of_bind h
    obtain ⟨keys, hkeys, h⟩ := exists_of_bind h
    obtain ⟨indexes, hindexes, h⟩ := exists_of_bind h
    rw [hd] at h
    cases h
    cases hkeys
    exact ⟨columns, [], inner, [], indexes, hcolumns, (if_pos hd).mpr ⟨hinner, rfl⟩, hindexes,
      congrArg (· :: p.describeNewTable t ++ [] ++ indexes.flatten) (List.append_nil _).symm⟩
  · obtain ⟨inner, hinner, h⟩ := exists_of_bind h
    obtain ⟨keys, hkeys, h⟩ := exists_of_bind h
    obtain ⟨indexes, hindexes, h⟩ := exists_of_bind h
    cases h
    cases hinner
    have hparts : p.KeyParts t.foreignKeys [] keys := (if_neg ‹_›).mpr ⟨rfl, hkeys⟩
    split
    · exact ⟨columns, _, [], keys, indexes, hcolumns, hparts, hindexes,
        congrArg (· :: p.describeNewTable t ++ keys.flatten ++ indexes.flatten)
          (List.append_assoc ..)⟩
    · exact ⟨columns, [], [], keys, indexes, hcolumns, hparts, hindexes,
        congrArg (· :: p.describeNewTable t ++ keys.flatten ++ indexes.flatten)
          (List.append_nil _).symm⟩

/-- The foreign keys of a new table, inside its definition or behind it. -/
theorem keys_of_createTable (hp : p.MakesTables) {ks : List ForeignKey} {inner : List Sql}
    {keys : List (List Sql)} (h : p.KeyParts ks inner keys) :
    (∀ sql ∈ keys.flatten, sql.isWorded = true) ∧
      if p.dialect = .sqlite then
        List.Forall₂ p.InnerKey ks (inner.map fun key => ", " ++ key.write p.quoter) ∧
          keys.flatten.map (Sql.write p.quoter) = []
      else inner.map (fun key => ", " ++ key.write p.quoter) = [] ∧
        List.Forall₂ (fun k text => p.AddsKey k.foreignTable k text) ks
          (keys.flatten.map (Sql.write p.quoter)) := by
  rw [Profile.KeyParts] at h
  split at h
  · obtain ⟨hinner, rfl⟩ := h
    refine ⟨nofun, ?_⟩
    rw [if_pos ‹_›]
    exact ⟨List.forall₂_map_right_iff.2
      ((forall₂_of_mapM hinner).imp fun k key hkey => ⟨key, hkey, rfl⟩), rfl⟩
  · obtain ⟨rfl, hkeys⟩ := h
    obtain ⟨hworded, hall⟩ := forall₂_of_mapM_one hkeys fun k sqls h =>
      addsKey_of_createForeignKey hp ‹_› h
    refine ⟨hworded, ?_⟩
    rw [if_neg ‹_›]
    exact ⟨rfl, hall⟩

/-- The indexes of a new table, where there are any. -/
theorem indexes_of_createTable (hp : p.MakesTables) {ixs : List Index} {indexes : List (List Sql)}
    (h : ixs.mapM p.createIndex = .ok indexes) :
    (∀ sql ∈ indexes.flatten, sql.isWorded = true) ∧
      if p.dialect = .snowflake then indexes.flatten.map (Sql.write p.quoter) = []
      else List.Forall₂ (fun ix text => p.CreatesIndex ix.table ix text) ixs
        (indexes.flatten.map (Sql.write p.quoter)) := by
  split
  · have hnil : indexes.flatten = [] := List.flatten_eq_nil_iff.2
      (yields_mapM (fun ix _ sqls h => eq_nil_of_createIndex hp ‹_› h) indexes h)
    rw [hnil]
    exact ⟨nofun, rfl⟩
  · exact forall₂_of_mapM_one h fun ix sqls h => createsIndex_of_createIndex hp ‹_› h

theorem write_inner (q : Quoter) (inner : List Sql) :
    Sql.write q (inner.flatMap fun key => (", " ++ key : Sql)) =
      String.join (inner.map fun key => ", " ++ key.write q) := by
  induction inner with
  | nil => rfl
  | cons key inner ih =>
      rw [List.flatMap_cons, write_append, write_append, write_code, ih, List.map_cons,
        String.join_cons]

/-- The statements of a new table, with the tables that its keys and indexes name themselves. -/
theorem newTable_of_createTable (hp : p.MakesTables) {t : Table} {sqls : List Sql}
    (h : p.createTable t = .ok sqls) : (∀ sql ∈ sqls, sql.isWorded = true) ∧
      p.NewTable t (·.foreignTable) (·.table) (sqls.map (Sql.write p.quoter)) := by
  obtain ⟨columns, ending, inner, keys, indexes, hcolumns, hkeys, hindexes, rfl⟩ :=
    exists_of_createTable h
  obtain ⟨hworded, hkeys⟩ := keys_of_createTable hp hkeys
  obtain ⟨hworded', hindexes⟩ := indexes_of_createTable hp hindexes
  obtain ⟨tail, hcreate⟩ := hp.createTable
  refine ⟨?_, columns, _, _, _, tail ++ ending.write p.quoter, hcolumns, hkeys, hindexes, ?_⟩
  · have hcreated := isWorded_append (hcreate (p.quoter.object t.name)
      (columns ++ inner.flatMap fun key => (", " ++ key : Sql))).1 ending
    simp only [List.cons_append, List.forall_mem_cons, List.forall_mem_append]
    exact ⟨hcreated, ⟨isWorded_describeNewTable t, hworded⟩, hworded'⟩
  · simp only [List.map_append, List.map_cons, write_append, (hcreate _ _).2, write_inner,
      Quoter.quoteObject, String.append_assoc]

/-- The texts name the same tables when those are named in another way. -/
theorem Profile.NewTable.congr {t : Table} {keyTable keyTable' : ForeignKey → ObjectName}
    {indexTable indexTable' : Index → ObjectName} {texts : List String}
    (h : p.NewTable t keyTable indexTable texts)
    (hkeys : ∀ k ∈ t.foreignKeys, p.quoter.SameObject (keyTable k) (keyTable' k))
    (hindexes : ∀ ix ∈ t.indexes, p.quoter.SameObject (indexTable ix) (indexTable' ix)) :
    p.NewTable t keyTable' indexTable' texts := by
  obtain ⟨columns, inner, keys, indexes, ending, hcolumns, hinner, hcreated, htexts⟩ := h
  refine ⟨columns, inner, keys, indexes, ending, hcolumns, ?_, ?_, htexts⟩
  · by_cases hd : p.dialect = .sqlite
    · rwa [if_pos hd] at hinner ⊢
    · rw [if_neg hd] at hinner ⊢
      refine ⟨hinner.1, ((List.forall₂_and_left _ _).2 ⟨hkeys, hinner.2⟩).imp fun k text h => ?_⟩
      rw [Profile.AddsKey, ← h.1.quoteObject]
      exact h.2
  · by_cases hd : p.dialect = .snowflake
    · rwa [if_pos hd] at hcreated ⊢
    · rw [if_neg hd] at hcreated ⊢
      refine ((List.forall₂_and_left _ _).2 ⟨hindexes, hcreated⟩).imp fun ix text h => ?_
      rw [Profile.CreatesIndex, ← h.1.quoteObject]
      exact h.2

section Tables

variable {t : Table} {keyTable : ForeignKey → ObjectName} {indexTable : Index → ObjectName}
  {texts : List String}

theorem Profile.NewTable.exists_key (h : p.NewTable t keyTable indexTable texts)
    (hd : p.dialect ≠ .sqlite) {k : ForeignKey} (hk : k ∈ t.foreignKeys) :
    ∃ text ∈ texts, p.AddsKey (keyTable k) k text := by
  obtain ⟨columns, inner, keys, indexes, ending, -, hkeys, -, rfl⟩ := h
  rw [if_neg hd] at hkeys
  obtain ⟨text, htext, hadds⟩ := exists_of_forall₂ hkeys.2 hk
  exact ⟨text, List.mem_append_left _ (List.mem_append_right _ htext), hadds⟩

theorem Profile.NewTable.exists_index (h : p.NewTable t keyTable indexTable texts)
    (hd : p.dialect ≠ .snowflake) {ix : Index} (hix : ix ∈ t.indexes) :
    ∃ text ∈ texts, p.CreatesIndex (indexTable ix) ix text := by
  obtain ⟨columns, inner, keys, indexes, ending, -, -, hindexes, rfl⟩ := h
  rw [if_neg hd] at hindexes
  obtain ⟨text, htext, hcreates⟩ := exists_of_forall₂ hindexes hix
  exact ⟨text, List.mem_append_right _ htext, hcreates⟩

/-- A statement that adds a key begins with the table. -/
theorem Profile.AddsKey.begins {table : ObjectName} {k : ForeignKey} {text : String}
    (h : p.AddsKey table k text) :
    ("ALTER TABLE " ++ p.quoter.quoteObject table).toList <+: text.toList := by
  obtain ⟨constraint, -, rfl⟩ := h
  exact ⟨(" ADD " ++ constraint.write p.quoter).toList,
    by rw [← String.toList_append, ← String.append_assoc]⟩

/-- A statement that creates an index names the table behind it. -/
theorem Profile.CreatesIndex.mentions {table : ObjectName} {ix : Index} {text : String}
    (h : p.CreatesIndex table ix text) :
    (" ON " ++ p.quoter.quoteObject table).toList <:+: text.toList := by
  obtain ⟨clustered, -, rfl⟩ := h
  refine ⟨("CREATE " ++ (if ix.isUnique then "UNIQUE " else "") ++ clustered ++ "INDEX " ++
    p.quoter.quote (p.indexName ix)).toList, (" (" ++ ", ".intercalate (ix.columns.map fun c =>
      p.quoter.quote c.name ++ " " ++ c.direction.sql) ++ ")").toList, ?_⟩
  simp only [← String.toList_append, String.append_assoc]

end Tables

end Statements

/-- The statements of a new table add every foreign key and create every index on the table that it
names, which no check compares with the table that is created. If all of them name that table, so
do all statements. -/
theorem newTable_statements (d : Dialect) (mode : Mode) (o : Options) :
    let p := Profile.of d mode o
    (∀ t : Table, t.check = .ok () ↔ t.alone.check = .ok () ∧
      (∀ k ∈ t.foreignKeys, k.check = .ok ()) ∧ ∀ ix ∈ t.indexes, ix.check = .ok ()) ∧
    ∀ t texts, p.statementTexts (.createTable t) = .ok texts →
      p.NewTable t (·.foreignTable) (·.table) texts ∧
      ((∀ k ∈ t.foreignKeys, p.quoter.SameObject k.foreignTable t.name) →
        (∀ ix ∈ t.indexes, p.quoter.SameObject ix.table t.name) →
        p.NewTable t (fun _ => t.name) (fun _ => t.name) texts) := by
  intro p
  refine ⟨Table.check_iff, fun t texts htexts => ?_⟩
  obtain ⟨sqls, -, hstatements, hwritten⟩ := exists_statements htexts
  obtain ⟨hworded, hnew⟩ := newTable_of_createTable (makesTables_of d mode o) hstatements
  rw [hwritten hworded]
  exact ⟨hnew, hnew.congr⟩

/-- A foreign key that gives the schema and an index that leaves it to the default. -/
theorem newTable_statements_defaultSchema :
    let p := Profile.of .sqlServer .strict {}
    let key : ForeignKey :=
      { name := some "FK", foreignTable := ⟨"orders", some "dbo"⟩, foreignColumns := ["customer"],
        primaryTable := ⟨"customers", none⟩, primaryColumns := ["id"] }
    let index := ((Index.onTable "orders").named "IX").withColumn ⟨"customer", .descending⟩
    let t := (((Table.ofName "orders").withColumn (.ofType "customer" .int32)).withForeignKey
      key).withIndex index
    let texts := ["CREATE TABLE [dbo].[orders] ([customer] INT NOT NULL)",
      "ALTER TABLE [dbo].[orders] ADD CONSTRAINT [FK] FOREIGN KEY ([customer]) " ++
        "REFERENCES [dbo].[customers] ([id])",
      "CREATE INDEX [IX] ON [dbo].[orders] ([customer] DESC)"]
    p.statementTexts (.createTable t) = .ok texts ∧ t.check = .ok () ∧
      p.NewTable t (fun _ => t.name) (fun _ => t.name) texts := by
  intro p key index t texts
  have htexts : p.statementTexts (.createTable t) = .ok texts := by decide +kernel
  obtain ⟨hcheck, hnew⟩ := newTable_statements .sqlServer .strict {}
  refine ⟨htexts, (hcheck t).2 (by decide +kernel), (hnew t texts htexts).2 ?_ ?_⟩
  · exact List.forall_mem_singleton.2 ⟨rfl, rfl⟩
  · exact List.forall_mem_singleton.2 ⟨rfl, rfl⟩

/-- A table is created with a foreign key and an index of two other tables. -/
theorem not_newTable_of_otherTables :
    let p := Profile.of .postgres .strict {}
    let key := (ForeignKey.ofNames "invoices" ["customer"] "customers" ["id"]).named "FK"
    let index := ((Index.onTable "customers").named "IX").withColumn ⟨"id", .ascending⟩
    let t := (((Table.ofName "orders").withColumn (.ofType "id" .int32)).withForeignKey
      key).withIndex index
    let texts := ["CREATE TABLE \"public\".\"orders\" (\"id\" integer NOT NULL)",
      "ALTER TABLE \"public\".\"invoices\" ADD CONSTRAINT \"FK\" FOREIGN KEY (\"customer\") " ++
        "REFERENCES \"public\".\"customers\" (\"id\")",
      "CREATE INDEX \"IX\" ON \"public\".\"customers\" (\"id\" ASC)"]
    p.statementTexts (.createTable t) = .ok texts ∧
      ¬ p.NewTable t (fun _ => t.name) (·.table) texts ∧
      ¬ p.NewTable t (·.foreignTable) (fun _ => t.name) texts := by
  intro p key index t texts
  have hkey : ∀ text ∈ texts, ¬ ("ALTER TABLE " ++ p.quoter.quoteObject t.name).toList <+:
      text.toList := by decide +kernel
  have hindex : ∀ text ∈ texts, ¬ (" ON " ++ p.quoter.quoteObject t.name).toList <:+:
      text.toList := by decide +kernel
  refine ⟨by decide +kernel, fun h => ?_, fun h => ?_⟩
  · obtain ⟨text, htext, hadds⟩ := h.exists_key (by decide) (.head _)
    exact hkey text htext hadds.begins
  · obtain ⟨text, htext, hcreates⟩ := h.exists_index (by decide) (.head _)
    exact hindex text htext hcreates.mentions

end SchemaChange
