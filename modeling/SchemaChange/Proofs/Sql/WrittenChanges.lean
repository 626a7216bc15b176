import SchemaChange.Proofs.Sql.WrittenNames

/-!
# Names in the statements of a change

Operation by operation, the statements of a change write no names and texts but its own, the default
schema and conventional names.
-/
namespace SchemaChange

open Sql

variable {p : Profile} {name text : String → Prop} {table : ObjectName} {c : Column}

section Columns

theorem within_dropDefaults (hp : p.Confines name text) (ht : Known name text table.names)
    {columns : List String} (hcolumns : ∀ c ∈ columns, text c) :
    Within name text (p.dropDefaults table columns) := by
  have hobject := within_object hp.toAdmits ht
  have htable := text_embedded hp.toAdmits (.object table) hobject
  have hdrop := text_embedded hp.toAdmits (.dropConstraint table) (by simpa using hobject)
  unfold Profile.dropDefaults
  refine (within_append ..).2 ⟨by simp, within_flatMap fun column hcolumn => ?_⟩
  simp only [within_append, within_cons, within_nil, within_text, within_verbatim, Piece.Within,
    htable, hdrop, hcolumns column hcolumn, and_self]

theorem within_addDefault (hp : p.Confines name text) (ht : Known name text table.names)
    {column : String} (hcolumn : name column) {v : Literal} (hv : ∀ s ∈ v.texts, text s) :
    Yields (p.addDefault table column v) (Within name text) := by
  have hderived : name (p.defaultConstraintName table.name column) := hp.derived _ (by decide) _
  refine (within_literal name hv).bind fun sql hsql => yields_ok ?_
  simp [within_object hp.toAdmits ht, hderived, hsql, hcolumn]

theorem within_alterBoundColumn (hp : p.Confines name text) (ht : Known name text table.names)
    (hc : c.Known name text) :
    Yields (p.alterBoundColumn table c) (∀ sql ∈ ·, Within name text sql) := by
  have hobject := within_object hp.toAdmits ht
  have hplain : ({ c with defaultValue := none, isIdentity := false } : Column).Known name text :=
    ⟨hc.names, fun v hv => hc.values v (by simp_all [Column.literals]), hc.description⟩
  unfold Profile.alterBoundColumn
  refine yields_after ((within_column hp.toAdmits hplain _ _).bind fun definition hdefinition => ?_)
  dsimp only
  split
  · exact yields_ok (by simp [hobject, hdefinition])
  · refine (within_addDefault hp ht hc.names.head.1 (hc.default ‹_›)).bind
      fun add hadd => yields_ok ?_
    simp [hobject, hdefinition, hadd, within_dropDefaults hp ht
      (List.forall_mem_singleton.2 hc.names.head.2)]

theorem within_collatedType (hc : c.Known name text) {type : Sql} (htype : Within name text type) :
    Within name text (match c.collation with
      | some collation => type ++ " COLLATE " ++ p.collationName collation
      | none => type) := by
  split
  · simpa [htype] using within_collationName hc ‹_›
  · exact htype

theorem within_alterColumnParts (hp : p.Confines name text) (ht : Known name text table.names)
    (hc : c.Known name text) : Yields (p.alterColumnParts table c) (Within name text) := by
  have hobject := within_object hp.toAdmits ht
  have hname := hc.names.head.1
  have finish : ∀ {parts : List Sql}, (∀ part ∈ parts, Within name text part) →
      Within name text ("ALTER TABLE " ++ p.quoter.object table ++ " " ++ Sql.list parts) := by
    intro parts hparts
    simp [hobject, within_list hparts]
  unfold Profile.alterColumnParts
  refine (within_nativeType p c name text).bind fun type htype => ?_
  have hcollated := within_collatedType (p := p) hc htype
  have hnull : Within name text ("ALTER " ++ Sql.name c.name ++
      (if c.isNotNull then " SET NOT NULL" else " DROP NOT NULL" : Sql)) := by
    split <;> simp [hname]
  dsimp only
  split
  · refine (within_literal name (hc.default ‹_›)).bind fun sql hsql => yields_ok (finish ?_)
    refine List.forall_mem_cons.2 ⟨?_, List.forall_mem_cons.2 ⟨hnull,
      List.forall_mem_singleton.2 ?_⟩⟩
    · exact (within_append ..).2 ⟨by simp [hname], hcollated⟩
    · simp [hname, hsql]
  · refine yields_ok (finish (List.forall_mem_cons.2 ⟨?_, List.forall_mem_singleton.2 hnull⟩))
    exact (within_append ..).2 ⟨by simp [hname], hcollated⟩

theorem within_alterTypeAndNull (hp : p.Confines name text) (ht : Known name text table.names)
    (hc : c.Known name text) : Yields (p.alterTypeAndNull table c) (Within name text) := by
  have hobject := within_object hp.toAdmits ht
  unfold Profile.alterTypeAndNull
  dsimp only
  refine yields_after ((within_nativeType p c name text).bind fun type htype => yields_ok ?_)
  split <;> simp [hobject, hc.names.head.1, htype]

theorem within_alterColumn (hp : p.Confines name text) (ht : Known name text table.names)
    (hc : c.Known name text) :
    Yields (p.alterColumn table c) (∀ sql ∈ ·, Within name text sql) := by
  have hdescribed := within_described hp ht hc true
  unfold Profile.alterColumn
  dsimp only
  split
  · exact (within_alterBoundColumn hp ht hc).bind fun sqls hsqls =>
      yields_ok (List.forall_mem_append.2 ⟨hsqls, hdescribed⟩)
  · exact (within_alterColumnParts hp ht hc).bind fun sql hsql =>
      yields_ok (List.forall_mem_cons.2 ⟨hsql, hdescribed⟩)
  · exact (within_alterTypeAndNull hp ht hc).bind fun sql hsql =>
      yields_ok (List.forall_mem_cons.2 ⟨hsql, hdescribed⟩)
  · split
    · exact yields_skip p _
    · refine (within_column hp.toAdmits hc _ _).bind fun definition hdefinition => yields_ok ?_
      refine List.forall_mem_cons.2 ⟨?_, hdescribed⟩
      exact hp.forms.alterColumn _ ‹_› _ _ (within_object hp.toAdmits ht) hdefinition

theorem within_addColumn (hp : p.Confines name text) (ht : Known name text table.names)
    (hc : c.Known name text) : Yields (p.addColumn table c) (Within name text) :=
  (within_column hp.toAdmits hc table.name true).bind fun _ hdefinition =>
    yields_ok (hp.forms.addColumn _ _ (within_object hp.toAdmits ht) hdefinition)

theorem within_assignment {column : String} (hcolumn : name column) {v : Literal}
    (hv : ∀ s ∈ v.texts, text s) : Yields (p.assignment column v) (Within name text) :=
  (within_literal name hv).bind fun sql hsql => yields_ok (by simp [hcolumn, hsql])

theorem within_update (hp : p.Confines name text) (ht : Known name text table.names)
    {assignments condition : Sql} (ha : Within name text assignments)
    (hcondition : Within name text condition) :
    Within name text (p.update table assignments condition) := by
  simp [Profile.update, within_object hp.toAdmits ht, ha, hcondition]

theorem within_everyRow : Within name text Profile.everyRow := by simp [Profile.everyRow]

/-- The copies of a column that are added and altered write nothing that it does not. -/
theorem Column.Known.fresh (hc : c.Known name text) (nullable : Option Bool)
    {description : Option String} (hdescription : ∀ s ∈ description, text s) :
    ({ c with nullable, description, existingRows := none } : Column).Known name text :=
  ⟨hc.names, fun v hv => hc.values v (by simp_all [Column.literals]), hdescription⟩

theorem within_createColumn (hp : p.Confines name text) (ht : Known name text table.names)
    (hc : c.Known name text) :
    Yields (p.createColumn table c) (∀ sql ∈ ·, Within name text sql) := by
  have hdescribed := within_described hp ht hc false
  have hplain : Yields (do return (← p.addColumn table c) ::
      (c.description.bind fun d => p.describeColumn table c.name d false).toList)
      (∀ sql ∈ ·, Within name text sql) :=
    (within_addColumn hp ht hc).bind fun sql hsql =>
      yields_ok (List.forall_mem_cons.2 ⟨hsql, hdescribed⟩)
  unfold Profile.createColumn
  dsimp only
  split
  · split
    · have hassignment : Yields (p.assignment c.name _) (Within name text) :=
        within_assignment hc.names.head.1 (hc.existingRows ‹_›)
      have halter : Yields (p.alterColumn table (if p.clauseOrder.contains .description then
          { c with existingRows := none }
          else { c with existingRows := none, description := none }))
          (∀ sql ∈ ·, Within name text sql) := by
        split
        · exact within_alterColumn hp ht (hc.fresh c.nullable hc.description)
        · exact within_alterColumn hp ht (hc.fresh c.nullable fun _ h => by cases h)
      refine (within_addColumn hp ht (hc.fresh (some true) hc.description)).bind fun add hadd =>
        hassignment.bind fun fill hfill => halter.bind fun alter halter => yields_ok ?_
      refine List.forall_mem_append.2 ⟨List.forall_mem_cons.2 ⟨hadd, List.forall_mem_cons.2
        ⟨within_update hp ht hfill within_everyRow, halter⟩⟩, hdescribed⟩
    · exact hplain
  · exact hplain

theorem within_deleteColumns (hp : p.Confines name text) (ht : Known name text table.names)
    {columns : List String} (hcolumns : Known name text columns) :
    ∀ sql ∈ p.deleteColumns table columns, Within name text sql := by
  have hdrops : ∀ sql ∈ columns.map fun c =>
      p.forms.dropColumn (p.quoter.object table) (Sql.name c), Within name text sql :=
    List.forall_mem_map.2 fun column hcolumn => hp.forms.dropColumn _ _
      (within_object hp.toAdmits ht) ((within_name column).2 (hcolumns column hcolumn).1)
  unfold Profile.deleteColumns
  dsimp only
  split
  · exact List.forall_mem_cons.2
      ⟨within_dropDefaults hp ht fun column hcolumn => (hcolumns column hcolumn).2, hdrops⟩
  · exact hdrops

end Columns

section Tables

theorem within_createForeignKey (hp : p.Confines name text) {k : ForeignKey}
    (hk : Known name text k.names) :
    Yields (p.createForeignKey k) (∀ sql ∈ ·, Within name text sql) := by
  unfold Profile.createForeignKey
  split
  · exact yields_skip p _
  · refine (within_foreignKey hp.toAdmits hk).bind fun key hkey => yields_ok ?_
    exact List.forall_mem_singleton.2 (hp.forms.addForeignKey _ ‹_› _ _
      (within_object hp.toAdmits hk.left.right.left) hkey)

theorem within_createIndex (hp : p.Confines name text) {ix : Index}
    (hix : Known name text ix.names) :
    Yields (p.createIndex ix) (∀ sql ∈ ·, Within name text sql) := by
  have hname : name (p.indexName ix) := by
    rw [Profile.indexName]
    cases hname : ix.name with
    | some n => exact (hix.left.left n (Option.mem_toList.2 hname)).1
    | none => exact hp.derived _ (by decide) _
  have hcolumns : Within name text (Sql.list (ix.columns.map Profile.indexColumn)) := by
    refine within_list (List.forall_mem_map.2 fun column hcolumn => ?_)
    have hcolumn := (hix.right column.name (List.mem_map_of_mem hcolumn)).1
    simp [Profile.indexColumn, hcolumn]
  unfold Profile.createIndex
  split
  · refine yields_bind _ fun clustered _ => yields_ok ?_
    simp [hname, within_object hp.toAdmits hix.left.right, hcolumns]
  · exact yields_skip p _

theorem within_deleteIndex (hp : p.Confines name text) (ht : Known name text table.names)
    {n : String} (hn : name n ∧ text n) :
    Yields (p.deleteIndex table n) (∀ sql ∈ ·, Within name text sql) := by
  unfold Profile.deleteIndex
  split
  · exact yields_ok (List.forall_mem_singleton.2 (hp.forms.dropIndex _ _ _ ((within_name n).2 hn.1)
      (within_object hp.toAdmits (Known.renamed ht hn)) (within_object hp.toAdmits ht)))
  · exact yields_skip p _

theorem within_describeNewTable (hp : p.Confines name text) {t : Table}
    (ht : Known name text t.name.names) (hcolumns : ∀ c ∈ t.columns, c.Known name text)
    (hdescription : ∀ s ∈ t.description, text s) :
    ∀ sql ∈ p.describeNewTable t, Within name text sql := by
  refine List.forall_mem_append.2 ⟨fun sql hsql => ?_, fun sql hsql => ?_⟩
  · obtain ⟨description, hd, hsql⟩ := Option.bind_eq_some_iff.1 (Option.mem_toList.1 hsql)
    exact within_describeTable hp ht (hdescription _ hd) hsql
  · obtain ⟨c, hc, hsql⟩ := List.mem_filterMap.1 hsql
    exact within_described hp ht (hcolumns c hc) false sql (Option.mem_toList.2 hsql)

/-- What is written of a table satisfies the conditions. -/
structure Table.Known (t : Table) (name text : String → Prop) : Prop where
  names : SchemaChange.Known name text t.names
  columns : ∀ c ∈ t.columns, c.Known name text
  keys : ∀ c ∈ t.columns, ∀ n ∈ c.primaryKeyName, name n
  description : ∀ s ∈ t.description, text s

theorem Table.Known.foreignKey {t : Table} (ht : t.Known name text) {k : ForeignKey}
    (hk : k ∈ t.foreignKeys) : SchemaChange.Known name text k.names := fun n hn =>
  ht.names.left.right n (List.mem_flatMap.2 ⟨k, hk, hn⟩)

theorem Table.Known.index {t : Table} (ht : t.Known name text) {ix : Index}
    (hix : ix ∈ t.indexes) : SchemaChange.Known name text ix.names := fun n hn =>
  ht.names.right n (List.mem_flatMap.2 ⟨ix, hix, hn⟩)

/-- The statement that creates a table, with its description where that stands behind it. -/
theorem within_tableDefinition (hp : p.Confines name text) {t : Table} (ht : t.Known name text)
    {body : Sql} (hbody : Within name text body) :
    Within name text (match p.dialect, t.description with
      | .mySql, some description =>
          p.forms.createTable (p.quoter.object t.name) body ++ " COMMENT " ++ Sql.text description
      | _, _ => p.forms.createTable (p.quoter.object t.name) body) := by
  have hcreate := hp.forms.createTable _ _ (within_object hp.toAdmits ht.names.left.left.left) hbody
  split
  · simpa [hcreate] using ht.description _ ‹_›
  · exact hcreate

theorem within_createTable (hp : p.Confines name text) {t : Table} (ht : t.Known name text) :
    Yields (p.createTable t) (∀ sql ∈ ·, Within name text sql) := by
  have hindexes : Yields (t.indexes.mapM p.createIndex)
      (∀ sqls ∈ ·, ∀ sql ∈ sqls, Within name text sql) :=
    yields_mapM fun ix hix => within_createIndex hp (ht.index hix)
  have hdescribed := within_describeNewTable hp ht.names.left.left.left ht.columns ht.description
  simp only [Profile.createTable, pure_bind]
  refine (within_columns hp.toAdmits ht.columns ht.keys t.name.name).bind fun columns hcolumns => ?_
  split
  · -- foreign keys stand inside the definition
    have hinner : Yields (t.foreignKeys.mapM p.foreignKey) (∀ key ∈ ·, Within name text key) :=
      yields_mapM fun k hk => within_foreignKey hp.toAdmits (ht.foreignKey hk)
    refine hinner.bind fun inner hinner => hindexes.bind fun indexes hindexes => yields_ok ?_
    have hkeys : Within name text (inner.flatMap fun key => (", " ++ key : Sql)) :=
      within_flatMap fun key hkey => (within_append ..).2 ⟨by simp, hinner key hkey⟩
    have hcreate := within_tableDefinition hp ht ((within_append ..).2 ⟨hcolumns, hkeys⟩)
    exact List.forall_mem_append.2 ⟨List.forall_mem_append.2
      ⟨List.forall_mem_cons.2 ⟨hcreate, hdescribed⟩, List.forall_mem_nil _⟩,
      List.forall_mem_flatten.2 hindexes⟩
  · -- foreign keys are added behind it
    have hforeign : Yields (t.foreignKeys.mapM p.createForeignKey)
        (∀ sqls ∈ ·, ∀ sql ∈ sqls, Within name text sql) :=
      yields_mapM fun k hk => within_createForeignKey hp (ht.foreignKey hk)
    refine hforeign.bind fun keys hkeys => hindexes.bind fun indexes hindexes => yields_ok ?_
    simp only [List.flatMap_nil, List.append_nil]
    exact List.forall_mem_append.2 ⟨List.forall_mem_append.2 ⟨List.forall_mem_cons.2
      ⟨within_tableDefinition hp ht hcolumns, hdescribed⟩, List.forall_mem_flatten.2 hkeys⟩,
      List.forall_mem_flatten.2 hindexes⟩

theorem within_deleteTable (hp : p.Confines name text) (ht : Known name text table.names)
    (ifExists : Bool) :
    Yields (p.deleteTable table ifExists) (∀ sql ∈ ·, Within name text sql) := by
  unfold Profile.deleteTable
  dsimp only
  split
  · split
    · exact yields_ok (List.forall_mem_singleton.2 (hp.forms.dropTableIfExists _ ‹_› table ht))
    · exact yields_skip p _
  · exact yields_ok (by simp [within_object hp.toAdmits ht])

theorem name_constraintName (hp : p.Admits name text) {c : Constraint}
    (hc : Known name text c.name.toList) : name (p.constraintName c) := by
  rw [Profile.constraintName]
  cases hname : c.name with
  | some n => exact (hc n (Option.mem_toList.2 hname)).1
  | none =>
      rw [Option.getD_none]
      split <;> exact hp.derived _ (by decide) _

theorem within_createConstraint (hp : p.Confines name text) {c : Constraint}
    (hname : Known name text c.name.toList) (ht : Known name text c.table.names)
    (hcolumns : Known name text c.columns.names) :
    Yields (p.createConstraint c) (∀ sql ∈ ·, Within name text sql) := by
  have hname := name_constraintName hp.toAdmits hname
  unfold Profile.createConstraint
  split
  · exact yields_ok (by simp [within_object hp.toAdmits ht, hname, hcolumns.within])
  · exact yields_skip p _

theorem within_deleteConstraint (hp : p.Confines name text) {c : Constraint}
    (hname : Known name text c.name.toList) (ht : Known name text c.table.names) :
    Yields (p.deleteConstraint c) (∀ sql ∈ ·, Within name text sql) := by
  have hname := name_constraintName hp.toAdmits hname
  have hobject := within_object hp.toAdmits ht
  unfold Profile.deleteConstraint
  dsimp only
  split
  · split <;> exact yields_ok (by simp [hobject, hname])
  · split
    · exact yields_ok (by simp [hobject, hname])
    · exact yields_skip p _

theorem within_alterDefault (hp : p.Confines name text) (ht : Known name text table.names)
    {column : String} (hcolumn : name column ∧ text column) {v : Literal}
    (hv : ∀ s ∈ v.texts, text s) :
    Yields (p.alterDefault table column v) (∀ sql ∈ ·, Within name text sql) := by
  unfold Profile.alterDefault
  split
  · refine (within_addDefault hp ht hcolumn.1 hv).bind fun add hadd => yields_ok ?_
    exact List.forall_mem_cons.2 ⟨within_dropDefaults hp ht (by simpa using hcolumn.2),
      List.forall_mem_singleton.2 hadd⟩
  · split
    · exact yields_skip p _
    · refine (within_literal name hv).bind fun value hvalue => yields_ok ?_
      exact List.forall_mem_singleton.2 (hp.forms.setDefault _ ‹_› _ _ _
        (within_object hp.toAdmits ht) ((within_name _).2 hcolumn.1) hvalue)

theorem within_deleteDefault (hp : p.Confines name text) (ht : Known name text table.names)
    {column : String} (hcolumn : name column ∧ text column) :
    Yields (p.deleteDefault table column) (∀ sql ∈ ·, Within name text sql) := by
  unfold Profile.deleteDefault
  split
  · exact yields_ok (List.forall_mem_singleton.2
      (within_dropDefaults hp ht (by simpa using hcolumn.2)))
  · split
    · exact yields_skip p _
    · exact yields_ok (List.forall_mem_singleton.2 (hp.forms.dropDefault _ ‹_› _ _
        (within_object hp.toAdmits ht) ((within_name _).2 hcolumn.1)))

theorem within_sequenceOption (p : Profile) (s : Sequence) (word : String) (portable : Bool)
    (value : Option Int64) (name text : String → Prop) :
    Yields (p.sequenceOption s word portable value) (Within name text) := by
  unfold Profile.sequenceOption
  split
  · exact yields_ok within_nil
  · split
    · exact yields_bind _ fun _ _ => yields_ok within_nil
    · split <;> exact yields_ok (by simp)

theorem within_createSequence (hp : p.Confines name text) {s : Sequence}
    (hs : Known name text s.name.names) :
    Yields (p.createSequence s) (∀ sql ∈ ·, Within name text sql) := by
  have hcycle : Yields (p.sequenceCycle s) (Within name text) := by
    unfold Profile.sequenceCycle
    split
    · exact yields_ok within_nil
    · split
      · exact yields_bind _ fun _ _ => yields_ok within_nil
      · exact yields_ok (by simp)
  unfold Profile.createSequence
  split
  · refine (within_sequenceOption p s _ _ _ name text).bind fun increment h₁ =>
      (within_sequenceOption p s _ _ _ name text).bind fun minValue h₂ =>
      (within_sequenceOption p s _ _ _ name text).bind fun maxValue h₃ =>
      (within_sequenceOption p s _ _ _ name text).bind fun start h₄ =>
      (within_sequenceOption p s _ _ _ name text).bind fun cache h₅ =>
      hcycle.bind fun cycle h₆ => yields_ok ?_
    simp [within_object hp.toAdmits hs, h₁, h₂, h₃, h₄, h₅, h₆]
  · exact yields_skip p _

end Tables

section Data

/-- What is written of a row satisfies the conditions. -/
structure Row.Known (row : Row) (name text : String → Prop) : Prop where
  columns : SchemaChange.Known name text row.columns
  values : ∀ v ∈ row.values, ∀ s ∈ v.texts, text s

variable {row : Row}

theorem Row.Known.of_mem {rows : List Row} (hrow : row ∈ rows)
    (hcolumns : SchemaChange.Known name text (rows.flatMap Row.columns))
    (hvalues : ∀ v ∈ rows.flatMap Row.values, ∀ s ∈ v.texts, text s) : row.Known name text where
  columns n hn := hcolumns n (List.mem_flatMap.2 ⟨row, hrow, hn⟩)
  values v hv := hvalues v (List.mem_flatMap.2 ⟨row, hrow, hv⟩)

theorem Row.Known.entry (hrow : row.Known name text) {entry : String × Literal}
    (h : entry ∈ row.entries) : name entry.1 ∧ ∀ s ∈ entry.2.texts, text s :=
  ⟨(hrow.columns _ (List.mem_map_of_mem h)).1, hrow.values _ (List.mem_map_of_mem h)⟩

theorem within_rowValues (hrow : row.Known name text) :
    Yields (row.values.mapM (Literal.sql p.dialect)) (∀ value ∈ ·, Within name text value) :=
  yields_mapM fun v hv => within_literal name (hrow.values v hv)

theorem within_insertRow {object : Sql} (hobject : Within name text object)
    (hrow : row.Known name text) : Yields (p.insertRow object row) (Within name text) :=
  (within_rowValues hrow).bind fun values hvalues =>
    yields_ok (by simp [hobject, hrow.columns.within, within_list hvalues])

theorem within_intoLine {object : Sql} (hobject : Within name text object)
    (hrow : row.Known name text) : Yields (p.intoLine object row) (Within name text) :=
  (within_rowValues hrow).bind fun values hvalues =>
    yields_ok (by simp [hobject, hrow.columns.within, within_list hvalues])

theorem within_insertAll {object : Sql} (hobject : Within name text object) {rows : List Row}
    (hrows : ∀ row ∈ rows, row.Known name text) :
    Yields (p.insertAll object rows) (Within name text) := by
  refine (yields_mapM fun row hrow => within_intoLine hobject (hrows row hrow)).bind
    fun lines hlines => yields_ok ?_
  have hflat : Within name text lines.flatten := List.forall_mem_flatten.2 hlines
  simp [hflat]

theorem within_insertData (hp : p.Confines name text) (ht : Known name text table.names)
    {rows : List Row} (hrows : ∀ row ∈ rows, row.Known name text) (identity : Bool) :
    Yields (p.insertData table rows identity) (∀ sql ∈ ·, Within name text sql) := by
  have hobject := within_object hp.toAdmits ht
  have heach : Yields (rows.mapM (p.insertRow (p.quoter.object table)))
      (∀ sql ∈ ·, Within name text sql) :=
    yields_mapM fun row hrow => within_insertRow hobject (hrows row hrow)
  have hswitch : ∀ state, Within name text
      (Profile.identityInsert (p.quoter.object table) state) := fun state => by
    simp [Profile.identityInsert, hobject]
  unfold Profile.insertData
  dsimp only
  split
  · exact (within_insertAll hobject hrows).bind fun sql hsql =>
      yields_ok (List.forall_mem_singleton.2 hsql)
  · refine heach.bind fun statements hstatements => ?_
    split
    · exact yields_ok (List.forall_mem_append.2 ⟨List.forall_mem_cons.2 ⟨hswitch _, hstatements⟩,
        List.forall_mem_singleton.2 (hswitch _)⟩)
    · exact yields_ok hstatements

theorem within_condition (hrow : row.Known name text) :
    Yields (p.condition row) (Within name text) := by
  have hpredicate : ∀ entry ∈ row.entries,
      Yields (p.predicate entry.1 entry.2) (Within name text) := by
    intro entry hentry
    obtain ⟨hcolumn, hvalue⟩ := hrow.entry hentry
    unfold Profile.predicate
    split
    · exact yields_ok (by simp [hcolumn])
    · exact within_assignment hcolumn hvalue
  unfold Profile.condition
  split
  · exact yields_ok within_everyRow
  · exact (yields_mapM hpredicate).bind fun predicates hpredicates =>
      yields_ok (within_join (by simp) hpredicates)

theorem within_updateData (hp : p.Confines name text) (ht : Known name text table.names)
    {assignments filter : Row} (ha : assignments.Known name text) (hf : filter.Known name text)
    (allRows : Bool) :
    Yields (p.updateData table assignments filter allRows) (Within name text) := by
  have hassign : Yields (assignments.entries.mapM fun entry => p.assignment entry.1 entry.2)
      (∀ part ∈ ·, Within name text part) :=
    yields_mapM fun entry hentry => within_assignment (ha.entry hentry).1 (ha.entry hentry).2
  unfold Profile.updateData
  refine hassign.bind fun parts hparts => ?_
  dsimp only
  split
  · exact yields_ok (within_update hp ht (within_list hparts) within_everyRow)
  · exact (within_condition hf).bind fun condition hcondition =>
      yields_ok (within_update hp ht (within_list hparts) hcondition)

theorem within_deleteData (hp : p.Confines name text) (ht : Known name text table.names)
    {rows : List Row} (hrows : ∀ row ∈ rows, row.Known name text) (allRows : Bool) :
    Yields (p.deleteData table rows allRows) (∀ sql ∈ ·, Within name text sql) := by
  have hdelete : ∀ {condition}, Within name text condition →
      Within name text (p.delete table condition) := fun h => by
    simp [Profile.delete, within_object hp.toAdmits ht, h]
  unfold Profile.deleteData
  split
  · exact yields_ok (List.forall_mem_singleton.2 (hdelete within_everyRow))
  · exact yields_mapM fun row hrow => (within_condition (hrows row hrow)).bind
      fun condition hcondition => yields_ok (hdelete hcondition)

end Data

/-- The names of a change that its statements may hold. A column that is added or altered belongs to
no named key, and a constraint is deleted without its columns. -/
def Change.writtenNames : Change → List String
  | createColumn table column | alterColumn table column =>
      table.names ++ column.name :: column.collation.toList
  | deleteConstraint c => c.name.toList ++ c.table.names
  | change => change.names

/-- The conditions hold of what is written of a change. -/
structure Change.Known (change : Change) (name text : String → Prop) : Prop where
  names : SchemaChange.Known name text change.writtenNames
  values : ∀ v ∈ change.literals, ∀ s ∈ v.texts, text s
  descriptions : ∀ s ∈ change.descriptions, text s

section Changes

variable {change : Change}

theorem Change.Known.column (h : change.Known name text) {c : Column} (hc : c ∈ change.columns)
    (hnames : SchemaChange.Known name text (c.name :: c.collation.toList)) :
    c.Known name text where
  names := hnames
  values v hv := h.values v (Change.literals_subset hc hv)
  description s hs := h.descriptions s
    (List.mem_append_right _ (List.mem_filterMap.2 ⟨c, hc, hs⟩))

theorem Table.Known.of_change {t : Table} (h : (Change.createTable t).Known name text) :
    t.Known name text := by
  have hcolumn : ∀ c ∈ (Change.createTable t).columns, SchemaChange.Known name text c.names :=
    fun c hc n hn => h.names n (Change.names_subset hc hn)
  refine ⟨h.names, fun c hc => h.column hc ?_, fun c hc n hn => ?_, fun s hs => ?_⟩
  · exact List.forall_mem_cons.2 ⟨(hcolumn c hc).head, (hcolumn c hc).tail.right⟩
  · exact ((hcolumn c hc).tail.left n (Option.mem_toList.2 hn)).1
  · exact h.descriptions s (List.mem_append_left _ (Option.mem_toList.2 hs))

theorem within_createSchema (hp : p.Confines name text) {schema : String}
    (h : (Change.createSchema schema).Known name text) :
    Yields (p.statementsOfValid (.createSchema schema)) (∀ sql ∈ ·, Within name text sql) := by
  simp only [Profile.statementsOfValid]
  split
  · exact yields_ok (List.forall_mem_singleton.2
      (hp.forms.createSchema _ ‹_› _ ((within_name _).2 h.names.head.1)))
  · exact yields_skip p _

theorem within_deleteSchema (hp : p.Confines name text) {schema : String}
    (h : (Change.deleteSchema schema).Known name text) :
    Yields (p.statementsOfValid (.deleteSchema schema)) (∀ sql ∈ ·, Within name text sql) := by
  simp only [Profile.statementsOfValid]
  split
  · exact yields_ok (List.forall_mem_singleton.2
      (hp.forms.dropSchema _ ‹_› _ ((within_name _).2 h.names.head.1)))
  · exact yields_skip p _

theorem within_alterSchema (hp : p.Confines name text) {destination : String}
    (h : (Change.alterSchema table destination).Known name text) :
    Yields (p.statementsOfValid (.alterSchema table destination))
      (∀ sql ∈ ·, Within name text sql) := by
  simp only [Profile.statementsOfValid]
  split
  · exact yields_ok (List.forall_mem_singleton.2 (hp.forms.moveTable _ ‹_› _ _ _
      (within_object hp.toAdmits h.names.tail) ((within_name _).2 h.names.tail.head.1)
      ((within_name _).2 h.names.head.1)))
  · exact yields_skip p _

theorem within_alterTable (hp : p.Confines name text) {description : Option String}
    (h : (Change.alterTable table description).Known name text) :
    Yields (p.statementsOfValid (.alterTable table description))
      (∀ sql ∈ ·, Within name text sql) := by
  refine yields_ok fun sql hsql => ?_
  obtain ⟨d, hd, hsql⟩ := Option.bind_eq_some_iff.1 (Option.mem_toList.1 hsql)
  have hdescription := h.descriptions d (List.mem_append_left _ (Option.mem_toList.2 hd))
  exact within_describeTable hp h.names hdescription hsql

theorem within_deleteForeignKey (hp : p.Confines name text) {key : String}
    (h : (Change.deleteForeignKey table key).Known name text) :
    Yields (p.statementsOfValid (.deleteForeignKey table key))
      (∀ sql ∈ ·, Within name text sql) := by
  simp only [Profile.statementsOfValid]
  split
  · exact yields_ok (List.forall_mem_singleton.2 (hp.forms.dropForeignKey _ ‹_› _ _
      (within_object hp.toAdmits h.names.tail) ((within_name key).2 h.names.head.1)))
  · exact yields_skip p _

/-- A statement that drops an object by its name. -/
theorem within_drop (hp : p.Confines name text) (words : String) {object : ObjectName}
    (h : Known name text object.names) : Within name text (words ++ p.quoter.object object) := by
  simp [within_object hp.toAdmits h]

theorem within_createView (hp : p.Confines name text) {view : ObjectName} {definition : String}
    (h : (Change.createView view definition).Known name text) :
    Yields (p.statementsOfValid (.createView view definition))
      (∀ sql ∈ ·, Within name text sql) :=
  yields_ok (by simp [within_object hp.toAdmits (n := view) h.names])

/-- The statements of a change write what is known of it, and nothing else. -/
theorem within_statementsOfValid (hp : p.Confines name text) (h : change.Known name text) :
    Yields (p.statementsOfValid change) (∀ sql ∈ ·, Within name text sql) := by
  cases change with
  | createSchema schema => exact within_createSchema hp h
  | deleteSchema schema => exact within_deleteSchema hp h
  | alterSchema table destination => exact within_alterSchema hp h
  | createTable t => exact within_createTable hp (.of_change h)
  | alterTable table description => exact within_alterTable hp h
  | deleteTable table ifExists => exact within_deleteTable hp h.names ifExists
  | renameTable table newName =>
      exact yields_ok (List.forall_mem_singleton.2
        (hp.forms.renameTable table newName h.names.tail h.names.head))
  | createColumn table column =>
      exact within_createColumn hp h.names.left (h.column (.head _) h.names.right)
  | alterColumn table column =>
      exact within_alterColumn hp h.names.left (h.column (.head _) h.names.right)
  | deleteColumn table columns =>
      exact yields_ok (within_deleteColumns hp h.names.left h.names.right)
  | renameColumn table oldName newName =>
      exact yields_ok (List.forall_mem_singleton.2 (hp.forms.renameColumn table oldName newName
        h.names.tail.tail h.names.head.1 h.names.tail.head))
  | createForeignKey key => exact within_createForeignKey hp h.names
  | deleteForeignKey table key => exact within_deleteForeignKey hp h
  | createIndex index => exact within_createIndex hp h.names
  | deleteIndex table n => exact within_deleteIndex hp h.names.tail h.names.head
  | createConstraint c =>
      exact within_createConstraint hp h.names.left.left h.names.left.right h.names.right
  | deleteConstraint c => exact within_deleteConstraint hp h.names.left h.names.right
  | alterDefaultConstraint table column value =>
      exact within_alterDefault hp h.names.tail h.names.head (h.values value (.head _))
  | deleteDefaultConstraint table column =>
      exact within_deleteDefault hp h.names.tail h.names.head
  | createSequence s => exact within_createSequence hp h.names
  | deleteSequence n => exact yields_able p _ (within_drop hp _ h.names)
  | insertData table rows identity =>
      exact within_insertData hp h.names.left
        (fun row hrow => .of_mem hrow h.names.right h.values) identity
  | updateData table assignments filter allRows =>
      have ha : assignments.Known name text :=
        ⟨h.names.left.right, fun v hv => h.values v (List.mem_append_left _ hv)⟩
      have hf : filter.Known name text :=
        ⟨h.names.right, fun v hv => h.values v (List.mem_append_right _ hv)⟩
      exact (within_updateData hp h.names.left.left ha hf allRows).bind fun sql hsql =>
        yields_ok (List.forall_mem_singleton.2 hsql)
  | deleteData table rows allRows =>
      exact within_deleteData hp h.names.left
        (fun row hrow => .of_mem hrow h.names.right h.values) allRows
  | createView view definition => exact within_createView hp h
  | deleteView view => exact yields_ok (List.forall_mem_singleton.2 (within_drop hp _ h.names))
  | createFunction n body | createProcedure n body =>
      exact yields_able p _ (within_verbatim body)
  | deleteFunction n | deleteProcedure n => exact yields_able p _ (within_drop hp _ h.names)
  | executeSql sql => exact yields_ok (List.forall_mem_singleton.2 (within_verbatim sql))
  | performDbOperation operation => exact yields_ok (List.forall_mem_nil _)

end Changes

end SchemaChange
