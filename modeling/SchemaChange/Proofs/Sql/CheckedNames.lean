import SchemaChange.Proofs.Sql.Written
import SchemaChange.Proofs.Sql.WrittenChanges

/-!
# Checked names

The checks refuse a blank name of a table, a sequence, a view, a routine or a defined column, and of
whatever a change deletes or renames. Nothing looks at the names that are given to keys, constraints
and indexes, nor at the columns of keys, indexes, constraints and rows. Those are the only names in
statements that can be blank, save schemas and collations.
-/
namespace SchemaChange

open Sql

/-- The names of a foreign key that no check looks at. -/
def ForeignKey.unchecked (k : ForeignKey) : List String :=
  k.name.toList ++ k.foreignColumns ++ k.primaryColumns

/-- The names of an index that no check looks at. -/
def Index.unchecked (ix : Index) : List String := ix.name.toList ++ ix.columns.map (·.name)

namespace Change

/-- The names in a change that no check looks at. -/
def unchecked : Change → List String
  | createTable t =>
      t.columns.flatMap (·.primaryKeyName.toList) ++ t.foreignKeys.flatMap ForeignKey.unchecked ++
        t.indexes.flatMap Index.unchecked
  | createForeignKey key => key.unchecked
  | createIndex index => index.unchecked
  | createConstraint c => c.name.toList ++ c.columns.names
  | insertData _ rows _ | deleteData _ rows _ => rows.flatMap Row.columns
  | updateData _ assignments filter _ => assignments.columns ++ filter.columns
  | _ => []

/-- The objects that a change names. -/
def objects : Change → List ObjectName
  | createTable t =>
      t.name :: (t.foreignKeys.flatMap (fun k => [k.foreignTable, k.primaryTable]) ++
        t.indexes.map (·.table))
  | createForeignKey key => [key.foreignTable, key.primaryTable]
  | createIndex index => [index.table]
  | createConstraint c | deleteConstraint c => [c.table]
  | createSequence sequence => [sequence.name]
  | alterSchema n _ | alterTable n _ | deleteTable n _ | renameTable n _ | createColumn n _
  | alterColumn n _ | deleteColumn n _ | renameColumn n _ _ | deleteForeignKey n _
  | deleteIndex n _ | alterDefaultConstraint n _ _ | deleteDefaultConstraint n _
  | deleteSequence n | insertData n _ _ | updateData n _ _ _ | deleteData n _ _ | createView n _
  | deleteView n | createFunction n _ | deleteFunction n | createProcedure n _
  | deleteProcedure n => [n]
  | createSchema _ | deleteSchema _ | executeSql _ | performDbOperation _ => []

/-- The schemas of the objects that a change names. -/
def schemas (change : Change) : List String := change.objects.flatMap (·.schema.toList)

/-- A name that is not blank, unless no check has looked at it. -/
def Passes (change : Change) (n : String) : Prop :=
  Text.allBlank n = false ∨ n ∈ change.unchecked ∨ n ∈ change.schemas ∨ n ∈ change.collations

/-- A name, description or value of a change, or a default schema. -/
def GivesText (change : Change) (q : Quoter) (s : String) : Prop :=
  s ∈ change.writtenNames ∨ s ∈ change.descriptions ∨ s ∈ change.literals.flatMap Literal.texts ∨
    q.defaultSchema = some s

end Change

/-- A text of a change or a default schema, or SQL in whose names all pass. -/
def Profile.PassesText (p : Profile) (change : Change) (s : String) : Prop :=
  change.GivesText p.quoter s ∨
    ∃ inner, p.Embedded inner ∧ (∀ n, .name n ∈ inner → change.Passes n) ∧ s = inner.write p.quoter

/-- All names in a statement pass, those too that stand in a text of it. -/
structure Profile.ChecksNames (p : Profile) (change : Change) (sql : Sql) : Prop where
  names : ∀ n, .name n ∈ sql → change.Passes n
  texts : ∀ s, .text s ∈ sql → p.PassesText change s

section Checks

variable {change : Change} {n : String}

theorem Change.passes_of_unchecked (h : n ∈ change.unchecked) : change.Passes n := .inr (.inl h)

theorem passes_object {object : ObjectName} (hobject : object ∈ change.objects)
    (h : Text.allBlank object.name = false) : ∀ n ∈ object.names, change.Passes n :=
  List.forall_mem_cons.2 ⟨.inl h, fun _ hn =>
    .inr (.inr (.inl (List.mem_flatMap.2 ⟨object, hobject, hn⟩)))⟩

/-- The one object of a change, behind the check of its name. -/
theorem passes_table {object : ObjectName} {what : String} (hobjects : change.objects = [object])
    (h : requireName object.name what = .ok ()) : ∀ n ∈ object.names, change.Passes n :=
  passes_object (by rw [hobjects]; exact .head _) (named_of_requireName h)

theorem passes_foreignKey {k : ForeignKey} (hcheck : k.check = .ok ())
    (hforeign : k.foreignTable ∈ change.objects) (hprimary : k.primaryTable ∈ change.objects)
    (hunchecked : k.unchecked ⊆ change.unchecked) : ∀ n ∈ k.names, change.Passes n := by
  have htables : Text.allBlank k.foreignTable.name = false ∧
      Text.allBlank k.primaryTable.name = false := by
    have h := (check_bind hcheck).1
    rw [require] at h
    split at h
    next htables => simpa using htables
    · cases h
  have hunchecked : ∀ n ∈ k.unchecked, change.Passes n := fun n hn =>
    Change.passes_of_unchecked (hunchecked hn)
  obtain ⟨hown, hcolumns⟩ := List.forall_mem_append.1 hunchecked
  obtain ⟨hname, hown⟩ := List.forall_mem_append.1 hown
  exact List.forall_mem_append.2 ⟨List.forall_mem_append.2 ⟨hname, List.forall_mem_append.2
    ⟨passes_object hforeign htables.1, hown⟩⟩, List.forall_mem_append.2
    ⟨passes_object hprimary htables.2, hcolumns⟩⟩

theorem passes_index {ix : Index} (hcheck : ix.check = .ok ()) (htable : ix.table ∈ change.objects)
    (hunchecked : ix.unchecked ⊆ change.unchecked) : ∀ n ∈ ix.names, change.Passes n := by
  have hunchecked : ∀ n ∈ ix.unchecked, change.Passes n := fun n hn =>
    Change.passes_of_unchecked (hunchecked hn)
  obtain ⟨hname, hcolumns⟩ := List.forall_mem_append.1 hunchecked
  exact List.forall_mem_append.2 ⟨List.forall_mem_append.2
    ⟨hname, passes_object htable (named_of_requireName (check_bind hcheck).1)⟩, hcolumns⟩

/-- The name and the collation of a column that a valid change defines. -/
theorem passes_column (hcheck : change.check = .ok ()) {c : Column} (hc : c ∈ change.columns) :
    ∀ n ∈ c.name :: c.collation.toList, change.Passes n :=
  List.forall_mem_cons.2 ⟨.inl (Change.named_of_check hcheck c hc), fun _ hn =>
    .inr (.inr (.inr (List.mem_filterMap.2 ⟨c, hc, Option.mem_toList.1 hn⟩)))⟩

theorem passes_createTable {t : Table} (hcheck : (Change.createTable t).check = .ok ()) :
    ∀ n ∈ t.names, (Change.createTable t).Passes n := by
  obtain ⟨hname, h⟩ := check_bind hcheck
  obtain ⟨-, h⟩ := check_bind h
  obtain ⟨-, h⟩ := check_bind h
  obtain ⟨hkeys, hindexes⟩ := check_bind h
  refine List.forall_mem_append.2 ⟨List.forall_mem_append.2 ⟨List.forall_mem_append.2
    ⟨passes_object (.head _) (named_of_requireName hname), ?_⟩, ?_⟩, ?_⟩
  · refine List.forall_mem_flatMap.2 fun c hc => ?_
    obtain ⟨hname, hcollation⟩ := List.forall_mem_cons.1 (passes_column hcheck hc)
    refine List.forall_mem_cons.2 ⟨hname, List.forall_mem_append.2 ⟨fun n hn => ?_, hcollation⟩⟩
    exact Change.passes_of_unchecked (List.mem_append_left _ (List.mem_append_left _
      (List.mem_flatMap.2 ⟨c, hc, hn⟩)))
  · refine List.forall_mem_flatMap.2 fun k hk => ?_
    have hobjects : ∀ n ∈ [k.foreignTable, k.primaryTable], n ∈ (Change.createTable t).objects :=
      fun n hn => .tail _ (List.mem_append_left _ (List.mem_flatMap.2 ⟨k, hk, hn⟩))
    refine passes_foreignKey (check_of_forM hkeys k hk) (hobjects _ (.head _))
      (hobjects _ (.tail _ (.head _))) fun n hn => ?_
    exact List.mem_append_left _ (List.mem_append_right _ (List.mem_flatMap.2 ⟨k, hk, hn⟩))
  · refine List.forall_mem_flatMap.2 fun ix hix => ?_
    refine passes_index (check_of_forM hindexes ix hix)
      (.tail _ (List.mem_append_right _ (List.mem_map_of_mem hix))) fun n hn => ?_
    exact List.mem_append_right _ (List.mem_flatMap.2 ⟨ix, hix, hn⟩)

/-- The names that a valid change may write pass. -/
theorem passes_writtenNames (hcheck : change.check = .ok ()) :
    ∀ n ∈ change.writtenNames, change.Passes n := by
  -- the object of a change with further names, and the check of those
  have rest : ∀ {object : ObjectName} {what : String} {f : Unit → Check},
      change.objects = [object] → (requireName object.name what >>= f) = .ok () →
      (∀ n ∈ object.names, change.Passes n) ∧ f () = .ok () := fun hobjects h =>
    ⟨passes_table hobjects (check_bind h).1, (check_bind h).2⟩
  have only : ∀ {object : ObjectName} {what : String}, change.objects = [object] →
      requireName object.name what = .ok () → ∀ n ∈ object.names, change.Passes n := passes_table
  have named : ∀ {n what : String}, requireName n what = .ok () → change.Passes n := fun h =>
    .inl (named_of_requireName h)
  have unchecked : ∀ n ∈ change.unchecked, change.Passes n := fun n => Change.passes_of_unchecked
  cases change with
  | createSchema schema | deleteSchema schema =>
      exact List.forall_mem_singleton.2 (named hcheck)
  | alterSchema table destination =>
      obtain ⟨htable, h⟩ := rest rfl hcheck
      exact List.forall_mem_cons.2 ⟨named h, htable⟩
  | createTable t => exact passes_createTable hcheck
  | alterTable table _ | deleteTable table _ => exact only rfl hcheck
  | renameTable table newName =>
      obtain ⟨htable, h⟩ := rest rfl hcheck
      exact List.forall_mem_cons.2 ⟨named h, htable⟩
  | createColumn table column | alterColumn table column =>
      exact List.forall_mem_append.2 ⟨(rest rfl hcheck).1, passes_column hcheck (.head _)⟩
  | deleteColumn table columns =>
      obtain ⟨htable, h⟩ := rest rfl hcheck
      exact List.forall_mem_append.2 ⟨htable, fun n hn =>
        named (check_of_forM (check_bind h).2 n hn)⟩
  | renameColumn table oldName newName =>
      obtain ⟨htable, h⟩ := rest rfl hcheck
      obtain ⟨hold, hnew⟩ := check_bind h
      exact List.forall_mem_cons.2 ⟨named hold, List.forall_mem_cons.2 ⟨named hnew, htable⟩⟩
  | createForeignKey key =>
      exact passes_foreignKey hcheck (.head _) (.tail _ (.head _)) fun _ h => h
  | deleteForeignKey table n | deleteIndex table n =>
      obtain ⟨htable, h⟩ := rest rfl hcheck
      exact List.forall_mem_cons.2 ⟨named h, htable⟩
  | createIndex index => exact passes_index hcheck (.head _) fun _ h => h
  | createConstraint c =>
      obtain ⟨hname, hcolumns⟩ := List.forall_mem_append.1 unchecked
      exact List.forall_mem_append.2
        ⟨List.forall_mem_append.2 ⟨hname, (rest rfl hcheck).1⟩, hcolumns⟩
  | deleteConstraint c =>
      obtain ⟨htable, h⟩ := rest rfl hcheck
      refine List.forall_mem_append.2 ⟨fun n hn => ?_, htable⟩
      rw [Option.mem_toList.1 hn] at h
      exact named h
  | alterDefaultConstraint table column value | deleteDefaultConstraint table column =>
      obtain ⟨htable, h⟩ := rest rfl hcheck
      exact List.forall_mem_cons.2 ⟨named h, htable⟩
  | createSequence s => exact (rest rfl hcheck).1
  | insertData table rows _ | deleteData table rows _ =>
      exact List.forall_mem_append.2 ⟨(rest rfl hcheck).1, unchecked⟩
  | updateData table assignments filter _ =>
      obtain ⟨ha, hf⟩ := List.forall_mem_append.1 unchecked
      exact List.forall_mem_append.2
        ⟨List.forall_mem_append.2 ⟨(rest rfl hcheck).1, ha⟩, hf⟩
  | createView n _ | createFunction n _ | createProcedure n _ => exact (rest rfl hcheck).1
  | deleteSequence n | deleteView n | deleteFunction n | deleteProcedure n =>
      exact only rfl hcheck
  | executeSql _ | performDbOperation _ => exact List.forall_mem_nil _

end Checks

/-- A conventional name begins with a letter, which shortening keeps or makes an underscore. -/
theorem named_derived {pattern : String} (h : pattern ∈ Naming.patterns)
    (values : List (String × String)) {limit : Nat} (hl : Naming.digestDigits + 1 < limit) :
    Text.allBlank (Naming.truncate (Naming.format pattern values) limit) = false := by
  obtain ⟨c, cs, hpattern, hbrace, hletter⟩ :
      ∃ c cs, pattern.toList = c :: cs ∧ c ≠ '\x7b' ∧ Text.isBlank c = false := by
    simp only [Naming.patterns, List.mem_cons, List.not_mem_nil, or_false] at h
    rcases h with rfl | rfl | rfl | rfl | rfl <;> exact ⟨_, _, rfl, by decide, by decide⟩
  obtain ⟨c', hc', hor⟩ := Naming.head_truncate (Naming.head_format hpattern hbrace values) hl
  obtain ⟨rest, hrest⟩ := List.head?_eq_some_iff.1 hc'
  have hvisible : Text.isBlank c' = false := by
    rcases hor with rfl | rfl
    · exact hletter
    · decide
  rw [Text.allBlank, hrest, List.all_cons, hvisible, Bool.false_and]

/-- What a profile adds to the names and texts of a change passes as well. -/
theorem admits_passes (d : Dialect) (mode : Mode) (o : Options) (change : Change) :
    (Profile.of d mode o).Admits change.Passes ((Profile.of d mode o).PassesText change) where
  defaultSchema s hs := by
    refine ⟨.inl ?_, .inl (Or.inr (Or.inr (Or.inr hs)))⟩
    cases d <;> cases hs <;> decide
  derived pattern h values := .inl (named_derived h values (by
    cases d <;> exact Nat.le_of_ble_eq_true rfl))
  embedded inner hinner hnames := .inr ⟨inner, hinner, hnames, rfl⟩

/-- Conditions that hold of the names and texts of a change hold of what is written of it. -/
theorem Change.known_of_givesText {change : Change} {q : Quoter} {name text : String → Prop}
    (hnames : ∀ n ∈ change.writtenNames, name n) (htexts : ∀ s, change.GivesText q s → text s) :
    change.Known name text where
  names n hn := ⟨hnames n hn, htexts n (Or.inl hn)⟩
  values v hv s hs := htexts s (Or.inr (Or.inr (Or.inl (List.mem_flatMap.2 ⟨v, hv, hs⟩))))
  descriptions s hs := htexts s (Or.inr (Or.inl hs))

/-- What a valid change may write passes. -/
theorem known_passes (p : Profile) {change : Change} (hcheck : change.check = .ok ()) :
    change.Known change.Passes (p.PassesText change) :=
  Change.known_of_givesText (passes_writtenNames hcheck) fun _ => .inl

/-- Every name in a statement of a change is not blank, unless it is one of those that no check
looks at, a schema or a collation of the change. -/
theorem checksNames_of_statements {d : Dialect} {mode : Mode} {o : Options} {change : Change}
    {sqls : List Sql} (h : (Profile.of d mode o).statements change = .ok sqls) :
    ∀ sql ∈ sqls, (Profile.of d mode o).ChecksNames change sql := by
  obtain ⟨hcheck, hsqls⟩ := check_of_statements h
  have hwithin := within_statementsOfValid (confines_of (admits_passes d mode o change))
    (known_passes _ hcheck) sqls hsqls
  exact fun sql hsql => ⟨fun n hn => hwithin sql hsql _ hn, fun s hs => hwithin sql hsql _ hs⟩

/-- A new table with an index, which gets a conventional name. -/
theorem checksNames_of_statements_newTable :
    let p := Profile.of .postgres .strict {}
    let index := (Index.onTable "orders").withColumn ⟨"kind", .ascending⟩
    let change := Change.createTable
      (((Table.ofName "orders").withColumn (.ofType "kind" .string)).withIndex index)
    ∃ sqls, p.statements change = .ok sqls ∧
      sqls.map (Sql.write p.quoter) =
        ["CREATE TABLE \"public\".\"orders\" (\"kind\" text NOT NULL)",
          "CREATE INDEX \"IX_orders_kind\" ON \"public\".\"orders\" (\"kind\" ASC)"] ∧
      ∀ sql ∈ sqls, p.ChecksNames change sql :=
  ⟨_, rfl, by decide +kernel, checksNames_of_statements rfl⟩

/-- A blank name of a constraint is written, although a constraint cannot be deleted under it. -/
theorem createConstraint_blank :
    let p := Profile.of .postgres .strict {}
    let c := (Constraint.onTable .unique "t" ["a"]).named ""
    (∃ sql, p.statements (.createConstraint c) = .ok [sql] ∧ .name "" ∈ sql) ∧
      p.generate (.createConstraint c) =
        .ok "ALTER TABLE \"public\".\"t\" ADD CONSTRAINT  UNIQUE (\"a\")" ∧
      (Change.deleteConstraint c).check = .error (.blank "Constraint name") :=
  ⟨⟨_, rfl, by decide +kernel⟩, by decide +kernel, rfl⟩

end SchemaChange
