import SchemaChange.Proofs.Sql.Attributes

/-!
# Names in statements

What holds of the names and texts of a change, of the default schema and of conventional names holds
of all names and texts in its statements. A statement that is given names in a text holds the SQL of
an object or a column there, as it would be written in its place.
-/
namespace SchemaChange

open Sql

/-- The names and texts that a piece writes satisfy the conditions. -/
@[simp]
def Piece.Within (name text : String → Prop) : Piece → Prop
  | .name n => name n
  | .text s => text s
  | .code _ | .verbatim _ => True

namespace Sql

variable {name text : String → Prop}

/-- The names and texts that SQL writes satisfy the conditions. -/
def Within (name text : String → Prop) (sql : Sql) : Prop := ∀ piece ∈ sql, piece.Within name text

@[simp] theorem within_append (x y : Sql) :
    Within name text (x ++ y) ↔ Within name text x ∧ Within name text y :=
  List.forall_mem_append

@[simp] theorem within_cons (piece : Piece) (x : Sql) :
    Within name text (piece :: x) ↔ piece.Within name text ∧ Within name text x :=
  List.forall_mem_cons

@[simp] theorem within_nil : Within name text [] := nofun

@[simp] theorem within_name (n : String) : Within name text (Sql.name n) ↔ name n := by
  simp [Sql.name]

@[simp] theorem within_text (s : String) : Within name text (Sql.text s) ↔ text s := by
  simp [Sql.text]

@[simp] theorem within_verbatim (sql : String) : Within name text (verbatim sql) := by
  simp [verbatim]

theorem within_flatMap {α : Type} {as : List α} {f : α → Sql}
    (h : ∀ a ∈ as, Within name text (f a)) : Within name text (as.flatMap f) :=
  List.forall_mem_flatMap.2 h

theorem within_join {separator : Sql} (hseparator : Within name text separator) {parts : List Sql}
    (h : ∀ part ∈ parts, Within name text part) : Within name text (join separator parts) := by
  fun_induction join separator parts with
  | case1 => exact within_nil
  | case2 part => exact h part (.head _)
  | case3 part parts _ ih =>
      obtain ⟨hpart, hparts⟩ := List.forall_mem_cons.1 h
      exact (within_append ..).2 ⟨(within_append ..).2 ⟨hpart, hseparator⟩, ih hparts⟩

theorem within_list {parts : List Sql} (h : ∀ part ∈ parts, Within name text part) :
    Within name text (list parts) := within_join (by simp) h

theorem within_names {columns : List String} (h : ∀ n ∈ columns, name n) :
    Within name text (names columns) :=
  within_list (List.forall_mem_map.2 fun n hn => (within_name n).2 (h n hn))

end Sql

/-- SQL that stands in a text of some statement: an object, one of its columns, or the words to
drop the object or a constraint of it. -/
inductive Profile.Embedded (p : Profile) : Sql → Prop
  | object (n : ObjectName) : p.Embedded (p.quoter.object n)
  | column (n : ObjectName) (column : String) :
      p.Embedded (p.quoter.object n ++ "." ++ Sql.name column)
  | dropTable (n : ObjectName) : p.Embedded ("DROP TABLE " ++ p.quoter.object n)
  | dropConstraint (n : ObjectName) :
      p.Embedded ("ALTER TABLE " ++ p.quoter.object n ++ " DROP CONSTRAINT ")

/-- The patterns of conventional names. -/
def Naming.patterns : List String :=
  ["IX_{table}_{columns}",
    "FK_{foreign_table}_{foreign_columns}_{primary_table}_{primary_columns}", "PK_{table}",
    "UC_{table}_{columns}", "DF_{table}_{column}"]

/-- The conditions admit the names that a profile adds to those of a change. -/
structure Profile.Admits (p : Profile) (name text : String → Prop) : Prop where
  defaultSchema : ∀ s, p.quoter.defaultSchema = some s → name s ∧ text s
  derived : ∀ pattern ∈ Naming.patterns, ∀ values, name (p.fitName (Naming.format pattern values))
  embedded : ∀ sql, p.Embedded sql → (∀ n, .name n ∈ sql → name n) → text (sql.write p.quoter)

/-- Names that satisfy both conditions: a name may also be given in a text. -/
def Known (name text : String → Prop) (names : List String) : Prop := ∀ n ∈ names, name n ∧ text n

namespace Known

variable {name text : String → Prop} {n : String} {names names' : List String}

theorem head (h : Known name text (n :: names)) : name n ∧ text n := h n (.head _)

theorem tail (h : Known name text (n :: names)) : Known name text names :=
  fun m hm => h m (.tail _ hm)

theorem left (h : Known name text (names ++ names')) : Known name text names :=
  fun m hm => h m (List.mem_append_left _ hm)

theorem right (h : Known name text (names ++ names')) : Known name text names' :=
  fun m hm => h m (List.mem_append_right _ hm)

theorem within (h : Known name text names) : Sql.Within name text (Sql.names names) :=
  Sql.within_names fun m hm => (h m hm).1

end Known

/-- The forms of a dialect write no names and texts but those of their parts. -/
structure Forms.Within (f : Forms) (q : Quoter) (name text : String → Prop) : Prop where
  createSchema : ∀ form ∈ f.createSchema, ∀ x, Sql.Within name text x →
    Sql.Within name text (form x)
  dropSchema : ∀ form ∈ f.dropSchema, ∀ x, Sql.Within name text x → Sql.Within name text (form x)
  moveTable : ∀ form ∈ f.moveTable, ∀ x y z, Sql.Within name text x → Sql.Within name text y →
    Sql.Within name text z → Sql.Within name text (form x y z)
  createTable : ∀ x y, Sql.Within name text x → Sql.Within name text y →
    Sql.Within name text (f.createTable x y)
  dropTableIfExists : ∀ form ∈ f.dropTableIfExists, ∀ n : ObjectName, Known name text n.names →
    Sql.Within name text (form (q.object n))
  renameTable : ∀ (n : ObjectName) newName, Known name text n.names → name newName ∧ text newName →
    Sql.Within name text (f.renameTable ⟨q.object n, newName, q.object { n with name := newName }⟩)
  addColumn : ∀ x y, Sql.Within name text x → Sql.Within name text y →
    Sql.Within name text (f.addColumn x y)
  alterColumn : ∀ form ∈ f.alterColumn, ∀ x y, Sql.Within name text x → Sql.Within name text y →
    Sql.Within name text (form x y)
  dropColumn : ∀ x y, Sql.Within name text x → Sql.Within name text y →
    Sql.Within name text (f.dropColumn x y)
  renameColumn : ∀ (n : ObjectName) oldName newName, Known name text n.names → name oldName →
    name newName ∧ text newName →
    Sql.Within name text (f.renameColumn (q.object n) (Sql.name oldName) newName)
  addForeignKey : ∀ form ∈ f.addForeignKey, ∀ x y, Sql.Within name text x →
    Sql.Within name text y → Sql.Within name text (form x y)
  dropForeignKey : ∀ form ∈ f.dropForeignKey, ∀ x y, Sql.Within name text x →
    Sql.Within name text y → Sql.Within name text (form x y)
  dropIndex : ∀ x y z, Sql.Within name text x → Sql.Within name text y →
    Sql.Within name text z → Sql.Within name text (f.dropIndex x y z)
  setDefault : ∀ form ∈ f.setDefault, ∀ x y z, Sql.Within name text x →
    Sql.Within name text y → Sql.Within name text z → Sql.Within name text (form x y z)
  dropDefault : ∀ form ∈ f.dropDefault, ∀ x y, Sql.Within name text x →
    Sql.Within name text y → Sql.Within name text (form x y)

section Objects

variable {p : Profile} {name text : String → Prop} {n : ObjectName}

theorem Known.renamed (hn : Known name text n.names) {newName : String}
    (h : name newName ∧ text newName) :
    Known name text ({ n with name := newName } : ObjectName).names :=
  List.forall_mem_cons.2 ⟨h, hn.tail⟩

/-- The schema in effect is the own one or the default one. -/
theorem known_schema (hp : p.Admits name text) (hn : Known name text n.names) {s : String}
    (hs : p.quoter.schemaOf? n.schema = some s) : name s ∧ text s := by
  rw [Quoter.schemaOf?, Option.or_eq_some_iff] at hs
  rcases hs with hs | ⟨-, hs⟩
  · have hown := Option.mem_toList.2 (Option.filter_eq_some_iff.1 hs).1
    exact hn.tail s hown
  · exact hp.defaultSchema s hs

theorem within_object (hp : p.Admits name text) (hn : Known name text n.names) :
    Within name text (p.quoter.object n) := by
  have hname := hn.head.1
  rw [Quoter.object]
  split
  · simp [hname, (known_schema hp hn ‹_›).1]
  · simp [hname]

/-- SQL that stands in a text is admitted if its names are. -/
theorem text_embedded (hp : p.Admits name text) {sql : Sql} (hsql : p.Embedded sql)
    (h : Within name text sql) : text (sql.write p.quoter) :=
  hp.embedded sql hsql fun _ hn => h _ hn

end Objects

namespace Forms

variable {q : Quoter} {name text : String → Prop}

section Dialects

variable (hq : ∀ n : ObjectName, Known name text n.names → Sql.Within name text (q.object n))
include hq

/-- The forms of the common standard. -/
theorem within_standard : Forms.Within {} q name text where
  createSchema := by rintro _ ⟨⟩ x hx; simp [hx]
  dropSchema := by rintro _ ⟨⟩ x hx; simp [hx]
  moveTable := nofun
  createTable x y hx hy := by simp [hx, hy]
  dropTableIfExists := by rintro _ ⟨⟩ n hn; simp [hq n hn]
  renameTable n newName hn hnew := by simp [hq n hn, hnew]
  addColumn x y hx hy := by simp [hx, hy]
  alterColumn := by rintro _ ⟨⟩ x y hx hy; simp [hx, hy]
  dropColumn x y hx hy := by simp [hx, hy]
  renameColumn n old newName hn hold hnew := by simp [hq n hn, hold, hnew]
  addForeignKey := by rintro _ ⟨⟩ x y hx hy; simp [hx, hy]
  dropForeignKey := by rintro _ ⟨⟩ x y hx hy; simp [hx, hy]
  dropIndex x y z hx _ _ := by simp [hx]
  setDefault := by rintro _ ⟨⟩ x y z hx hy hz; simp [hx, hy, hz]
  dropDefault := by rintro _ ⟨⟩ x y hx hy; simp [hx, hy]

theorem within_postgres : Forms.Within Dialect.Postgres.forms q name text :=
  { within_standard hq with
    moveTable := by rintro _ ⟨⟩ x y z hx _ hz; simp [hx, hz]
    addColumn := fun x y hx hy => by simp [Dialect.Postgres.forms, hx, hy]
    dropIndex := fun x y z _ hy _ => by simp [Dialect.Postgres.forms, hy] }

theorem within_hana : Forms.Within Dialect.Hana.forms q name text :=
  { within_standard hq with
    createTable := fun x y hx hy => by simp [Dialect.Hana.forms, hx, hy]
    dropTableIfExists := nofun
    renameTable := fun n newName hn hnew => by simp [Dialect.Hana.forms, hq n hn, hnew]
    addColumn := fun x y hx hy => by simp [Dialect.Hana.forms, hx, hy]
    alterColumn := by rintro _ ⟨⟩ x y hx hy; simp [hx, hy]
    dropColumn := fun x y hx hy => by simp [Dialect.Hana.forms, hx, hy]
    renameColumn := fun n old newName hn hold hnew => by
      simp [Dialect.Hana.forms, hq n hn, hold, hnew]
    setDefault := nofun
    dropDefault := nofun }

theorem within_mySql : Forms.Within Dialect.MySql.forms q name text :=
  { within_standard hq with
    createSchema := nofun
    dropSchema := nofun
    createTable := fun x y hx hy => by simp [Dialect.MySql.forms, hx, hy]
    renameTable := fun n newName hn hnew => by
      simp [Dialect.MySql.forms, hq n hn, hq _ (Known.renamed hn hnew)]
    alterColumn := by rintro _ ⟨⟩ x y hx hy; simp [hx, hy]
    dropForeignKey := by rintro _ ⟨⟩ x y hx hy; simp [hx, hy]
    dropIndex := fun x y z hx _ hz => by simp [Dialect.MySql.forms, hx, hz]
    setDefault := by rintro _ ⟨⟩ x y z hx hy hz; simp [hx, hy, hz]
    dropDefault := by rintro _ ⟨⟩ x y hx hy; simp [hx, hy] }

theorem within_snowflake : Forms.Within Dialect.Snowflake.forms q name text :=
  { within_standard hq with
    moveTable := by rintro _ ⟨⟩ x y z hx hy hz; simp [hx, hy, hz]
    renameTable := fun n newName hn hnew => by
      simp [Dialect.Snowflake.forms, hq n hn, hq _ (Known.renamed hn hnew)]
    setDefault := nofun }

theorem within_sqlite : Forms.Within Dialect.Sqlite.forms q name text :=
  { within_standard hq with
    createSchema := nofun
    dropSchema := nofun
    alterColumn := nofun
    addForeignKey := nofun
    dropForeignKey := nofun
    setDefault := nofun
    dropDefault := nofun }

end Dialects

/-- One dialect drops a table that may be missing by a statement in a text. -/
theorem within_oracle {o : Options} {mode : Mode}
    (hp : (Dialect.Oracle.profile o mode).Admits name text) :
    Forms.Within (Dialect.Oracle.forms (Dialect.Oracle.quoter o)) (Dialect.Oracle.quoter o) name
      text :=
  { within_standard fun n hn => within_object hp hn with
    createSchema := nofun
    dropSchema := nofun
    dropTableIfExists := by
      rintro _ ⟨⟩ n hn
      have hobject : Sql.Within name text ((Dialect.Oracle.quoter o).object n) :=
        within_object hp hn
      have htext : text (Sql.write (Dialect.Oracle.quoter o)
          ("DROP TABLE " ++ (Dialect.Oracle.quoter o).object n)) :=
        text_embedded hp (.dropTable n) (by simpa using hobject)
      simpa [Dialect.Oracle.dropTableIfExists] using htext
    addColumn := fun x y hx hy => by simp [Dialect.Oracle.forms, hx, hy]
    alterColumn := by rintro _ ⟨⟩ x y hx hy; simp [hx, hy]
    dropIndex := fun x y z _ hy _ => by simp [Dialect.Oracle.forms, hy]
    setDefault := by rintro _ ⟨⟩ x y z hx hy hz; simp [hx, hy, hz]
    dropDefault := by rintro _ ⟨⟩ x y hx hy; simp [hx, hy] }

/-- One dialect renames tables and columns that are given in texts. -/
theorem within_sqlServer {o : Options} {mode : Mode}
    (hp : (Dialect.SqlServer.profile o mode).Admits name text) :
    Forms.Within (Dialect.SqlServer.forms (Dialect.SqlServer.quoter o))
      (Dialect.SqlServer.quoter o) name text :=
  { within_standard fun n hn => within_object hp hn with
    moveTable := by rintro _ ⟨⟩ x y z hx _ hz; simp [hx, hz]
    renameTable := fun n newName hn hnew => by
      have htext : text (Sql.write (Dialect.SqlServer.quoter o)
          ((Dialect.SqlServer.quoter o).object n)) :=
        text_embedded hp (.object n) (within_object hp hn)
      simpa [Dialect.SqlServer.forms, hnew.2] using htext
    addColumn := fun x y hx hy => by simp [Dialect.SqlServer.forms, hx, hy]
    renameColumn := fun n old newName hn hold hnew => by
      have hobject : Sql.Within name text ((Dialect.SqlServer.quoter o).object n) :=
        within_object hp hn
      have htext : text (Sql.write (Dialect.SqlServer.quoter o)
          ((Dialect.SqlServer.quoter o).object n ++ "." ++ Sql.name old)) :=
        text_embedded hp (.column n old) (by simpa [hold] using hobject)
      simpa [Dialect.SqlServer.forms, hnew.2] using htext
    dropIndex := fun x y z hx _ hz => by simp [Dialect.SqlServer.forms, hx, hz] }

end Forms

/-- A profile that writes no names and texts but those that the conditions admit. -/
structure Profile.Confines (p : Profile) (name text : String → Prop) : Prop
    extends p.Admits name text where
  forms : p.forms.Within p.quoter name text
  bound : p.dialect = .sqlServer → p.quoter.defaultSchema = some "dbo"

theorem confines_of {d : Dialect} {mode : Mode} {o : Options} {name text : String → Prop}
    (hp : (Profile.of d mode o).Admits name text) : (Profile.of d mode o).Confines name text := by
  have hobject := fun (n : ObjectName) (hn : Known name text n.names) => within_object hp hn
  cases d with
  | sqlServer => exact ⟨hp, Forms.within_sqlServer hp, fun _ => rfl⟩
  | postgres => exact ⟨hp, Forms.within_postgres hobject, nofun⟩
  | mySql => exact ⟨hp, Forms.within_mySql hobject, nofun⟩
  | oracle => exact ⟨hp, Forms.within_oracle hp, nofun⟩
  | sqlite => exact ⟨hp, Forms.within_sqlite hobject, nofun⟩
  | hana => exact ⟨hp, Forms.within_hana hobject, nofun⟩
  | snowflake => exact ⟨hp, Forms.within_snowflake hobject, nofun⟩

/-- The texts that a value is written with. -/
def Literal.texts : Literal → List String
  | string s | enum s => [s]
  | char c => [String.singleton c]
  | _ => []

/-- The conditions hold of what is written of a column. -/
structure Column.Known (c : Column) (name text : String → Prop) : Prop where
  names : SchemaChange.Known name text (c.name :: c.collation.toList)
  values : ∀ v ∈ c.literals, ∀ s ∈ v.texts, text s
  description : ∀ s ∈ c.description, text s

section Definitions

variable {p : Profile} {name text : String → Prop} {c : Column}

theorem within_literal (name : String → Prop) {d : Dialect} {v : Literal}
    (hv : ∀ s ∈ v.texts, text s) : Yields (v.sql d) (Within name text) := by
  cases v with
  | string s | enum s => exact yields_ok (by simpa using hv s (.head _))
  | char c => exact yields_ok (by simpa using hv _ (.head _))
  | float x =>
      rw [Literal.sql]
      split
      · exact yields_ok (by simp)
      · exact yields_error _
  | systemMethod m => exact yields_bind _ fun sql _ => yields_ok (by simp)
  | null | bool b | int i | uint n | guid g | date d | dateTime t | dateTimeOffset t | binary b
  | function sql => exact yields_ok (by simp)

theorem Column.Known.default (hc : c.Known name text) {v : Literal}
    (hv : c.defaultValue = some v) : ∀ s ∈ v.texts, text s :=
  hc.values v (List.mem_append_left _ (Option.mem_toList.2 hv))

theorem Column.Known.existingRows (hc : c.Known name text) {v : Literal}
    (hv : c.existingRows = some v) : ∀ s ∈ v.texts, text s :=
  hc.values v (List.mem_append_right _ (Option.mem_toList.2 hv))

theorem Column.Known.collation (hc : c.Known name text) {n : String}
    (hn : c.collation = some n) : name n :=
  (hc.names.tail n (Option.mem_toList.2 hn)).1

theorem within_nativeType (p : Profile) (c : Column) (name text : String → Prop) :
    Yields (p.nativeType c) (Within name text) := by
  rw [Profile.nativeType]
  split
  · exact yields_ok (by simp)
  · exact yields_bind _ fun type _ => yields_ok (by simp)

theorem within_collationName (hc : c.Known name text) {collation : String}
    (h : c.collation = some collation) : Within name text (p.collationName collation) := by
  rw [Profile.collationName]
  split
  · simpa using hc.collation h
  · simp

theorem within_defaultClause (hp : p.Admits name text) (hc : c.Known name text) (table : String) :
    Yields (p.defaultClause c table) (Within name text) := by
  have hderived : name (p.defaultConstraintName table c.name) := hp.derived _ (by decide) _
  rw [Profile.defaultClause]
  split
  · exact yields_ok within_nil
  · refine (within_literal name (hc.default ‹_›)).bind fun sql hsql => ?_
    split
    · exact yields_ok (by simp [hderived, hsql])
    · exact yields_ok (by simp [hsql])

theorem within_clause (hp : p.Admits name text) (hc : c.Known name text) (table : String)
    (inlineKey : Bool) (clause : Clause) :
    Yields (p.clause c table inlineKey clause) (Within name text) := by
  cases clause with
  | name => exact yields_ok ((within_name _).2 hc.names.head.1)
  | type =>
      rw [Profile.clause, Profile.columnType]
      split
      · exact yields_ok (by simp)
      · exact within_nativeType p c name text
  | collation =>
      refine yields_ok ?_
      rw [Profile.collationClause]
      split
      · simpa using within_collationName hc ‹_›
      · exact within_nil
  | nullable =>
      refine yields_ok ?_
      rw [Profile.nullableClause]
      split
      · simp
      · split <;> simp
  | default => exact within_defaultClause hp hc table
  | primaryKey =>
      refine yields_ok ?_
      rw [Profile.primaryKeyMark]
      split
      · split <;> simp
      · exact within_nil
  | identity =>
      refine yields_ok ?_
      rw [Profile.identityMark]
      split <;> simp
  | description =>
      refine yields_ok ?_
      rw [Profile.descriptionClause.eq_def]
      split
      · simpa using hc.description _ ‹_›
      · exact within_nil

theorem within_column (hp : p.Admits name text) (hc : c.Known name text) (table : String)
    (inlineKey : Bool) : Yields (p.column c table inlineKey) (Within name text) := by
  unfold Profile.column
  refine yields_after ?_
  refine (yields_mapM fun clause _ => within_clause hp hc table inlineKey clause).bind
    fun parts hparts => yields_ok ?_
  exact within_join (by simp) fun part hpart => hparts part (List.mem_filter.1 hpart).1

theorem within_keyClause {columns : List Column} (hcolumns : ∀ c ∈ columns, c.Known name text)
    (hkeys : ∀ c ∈ columns, ∀ n ∈ c.primaryKeyName, name n) :
    Within name text (Profile.keyClause columns) := by
  have hnames : Within name text (names ((columns.filter (·.isPrimaryKey)).map (·.name))) := by
    refine within_names (List.forall_mem_map.2 fun c hc => ?_)
    exact (hcolumns c (List.mem_filter.1 hc).1).names.head.1
  unfold Profile.keyClause
  dsimp only
  split
  · obtain ⟨c, hc, hname⟩ := List.exists_of_findSome?_eq_some ‹_›
    simp [hnames, hkeys c hc _ hname]
  · simp [hnames]

theorem within_columns (hp : p.Admits name text) {columns : List Column}
    (hcolumns : ∀ c ∈ columns, c.Known name text)
    (hkeys : ∀ c ∈ columns, ∀ n ∈ c.primaryKeyName, name n) (table : String) :
    Yields (p.columns columns table) (Within name text) := by
  unfold Profile.columns
  refine (yields_mapM fun c hc => within_column hp (hcolumns c hc) table _).bind
    fun parts hparts => yields_ok (within_list ?_)
  split
  · exact List.forall_mem_append.2 ⟨hparts,
      List.forall_mem_singleton.2 (within_keyClause hcolumns hkeys)⟩
  · exact hparts

theorem within_foreignKey (hp : p.Admits name text) {k : ForeignKey}
    (hk : Known name text k.names) :
    Yields (p.foreignKey k) (Within name text) := by
  have hname : name (p.foreignKeyName k) := by
    rw [Profile.foreignKeyName]
    cases hname : k.name with
    | some n => exact (hk.left.left n (Option.mem_toList.2 hname)).1
    | none => exact hp.derived _ (by decide) _
  have hdelete : Yields (p.onDelete k) (Within name text) := by
    rw [Profile.onDelete]
    split
    · exact yields_ok within_nil
    · split
      · exact yields_bind _ fun _ _ => yields_ok within_nil
      · exact yields_ok (by simp)
  have hupdate : Yields (p.onUpdate k) (Within name text) := by
    rw [Profile.onUpdate]
    split
    · exact yields_ok within_nil
    · split
      · exact yields_bind _ fun _ _ => yields_ok within_nil
      · exact yields_ok (by simp)
  rw [Profile.foreignKey]
  refine yields_bind _ fun _ _ => hdelete.bind fun delete hdelete => hupdate.bind
    fun update hupdate => yields_ok ?_
  simp [hname, hdelete, hupdate, hk.left.right.right.within, hk.right.right.within,
    within_object hp hk.right.left]

end Definitions

section Descriptions

variable {p : Profile} {name text : String → Prop} {table : ObjectName} {description : String}
  {sql : Sql}

theorem within_extendedProperty (hp : p.Confines name text) (hd : p.dialect = .sqlServer)
    (ht : Known name text table.names) (hdescription : text description) {column : Option String}
    (hcolumn : ∀ c ∈ column, text c) (replace : Bool) :
    Within name text (p.extendedProperty table column description replace) := by
  have hschema : text ((p.quoter.schemaOf? table.schema).getD "dbo") := by
    cases hs : p.quoter.schemaOf? table.schema with
    | none => exact (hp.defaultSchema "dbo" (hp.bound hd)).2
    | some s => exact (known_schema hp.toAdmits ht hs).2
  have htable := ht.head.2
  have hlevels : Within name text (Profile.propertyLevels
      ((p.quoter.schemaOf? table.schema).getD "dbo") table.name column) := by
    rw [Profile.propertyLevels.eq_def]
    cases column with
    | none => simp [hschema, htable]
    | some c => simp [hschema, htable, hcolumn c rfl]
  unfold Profile.extendedProperty
  dsimp only
  split
  · cases column with
    | none => simp [hdescription, hschema, htable, hlevels]
    | some c => simp [hdescription, hschema, htable, hlevels, hcolumn c rfl]
  · simp [hdescription, hlevels]

theorem within_describeTable (hp : p.Confines name text) (ht : Known name text table.names)
    (hdescription : text description) {replace : Bool}
    (h : p.describeTable table description replace = some sql) : Within name text sql := by
  have hobject := within_object hp.toAdmits ht
  rw [Profile.describeTable.eq_def] at h
  cases hd : p.dialect <;> rw [hd] at h
  case sqlServer =>
    cases h
    exact within_extendedProperty hp hd ht hdescription (fun _ h => by cases h) replace
  case mySql =>
    cases replace <;> cases h
    simp [hobject, hdescription]
  case sqlite => cases h
  all_goals
    cases h
    simp [hobject, hdescription]

theorem within_describeColumn (hp : p.Confines name text) (ht : Known name text table.names)
    {column : String} (hcolumn : name column ∧ text column) (hdescription : text description)
    {replace : Bool} (h : p.describeColumn table column description replace = some sql) :
    Within name text sql := by
  have hobject := within_object hp.toAdmits ht
  rw [Profile.describeColumn.eq_def] at h
  cases hd : p.dialect <;> rw [hd] at h
  case sqlServer =>
    cases h
    exact within_extendedProperty hp hd ht hdescription (by simpa using hcolumn.2) replace
  case mySql => cases h
  case sqlite => cases h
  all_goals
    cases h
    simp [hobject, hdescription, hcolumn.1]

/-- The description of a column, if it has one and a statement for it. -/
theorem within_described (hp : p.Confines name text) (ht : Known name text table.names) {c : Column}
    (hc : c.Known name text) (replace : Bool) :
    ∀ sql ∈ (c.description.bind fun d => p.describeColumn table c.name d replace).toList,
      Within name text sql := by
  intro sql hsql
  obtain ⟨description, hdescription, hsql⟩ := Option.bind_eq_some_iff.1 (Option.mem_toList.1 hsql)
  exact within_describeColumn hp ht hc.names.head (hc.description _ hdescription) hsql

end Descriptions

end SchemaChange
