import SchemaChange.Proofs.Sql.Column
import SchemaChange.Proofs.Sql.Lined

/-!
# Statements for schema changes in scripts

Every statement for a table, its columns, keys, indexes or descriptions stands for itself.
-/
namespace SchemaChange

open Script Sql

/-- A statement that is read as a whole, or, in one dialect, one over several lines. -/
def Stands (q : Quoter) (tight : Prop) (sql : Sql) : Prop :=
  Statement q tight sql ∨ q.dialect = .sqlServer ∧ Whole q.dialect (sql.chars q)

/-- Statements that all stand for themselves. -/
def Statements (q : Quoter) (tight : Prop) (sqls : List Sql) : Prop :=
  ∀ sql ∈ sqls, Stands q tight sql

section Statements

variable {q : Quoter} {tight : Prop}

theorem statements_nil : Statements q tight [] := nofun

theorem Statements.cons {sql : Sql} {sqls : List Sql} (h : Statement q tight sql)
    (hs : Statements q tight sqls) : Statements q tight (sql :: sqls) :=
  List.forall_mem_cons.2 ⟨.inl h, hs⟩

theorem Statements.script {sql : Sql} {sqls : List Sql} (hq : q.dialect = .sqlServer)
    (h : Whole q.dialect (sql.chars q)) (hs : Statements q tight sqls) :
    Statements q tight (sql :: sqls) := List.forall_mem_cons.2 ⟨.inr ⟨hq, h⟩, hs⟩

theorem Statements.append {sqls sqls' : List Sql} (h : Statements q tight sqls)
    (h' : Statements q tight sqls') : Statements q tight (sqls ++ sqls') :=
  List.forall_mem_append.2 ⟨h, h'⟩

theorem statements_one {sql : Sql} (h : Statement q tight sql) : Statements q tight [sql] :=
  .cons h statements_nil

theorem Statements.flatten {sqlss : List (List Sql)} (h : ∀ sqls ∈ sqlss, Statements q tight sqls) :
    Statements q tight sqlss.flatten := List.forall_mem_flatten.2 h

end Statements

section

variable {p : Profile} {mark : Char} {tight : Prop} {table : ObjectName}

theorem woven_object (hp : p.Wraps mark) (ht : Unquoted p.quoter table.names) :
    Woven p.quoter (p.quoter.object table) := (hp.object ht nofun : Closing _ False _).woven

/-- What is passed over leaves no statement. -/
theorem yields_skip (p : Profile) (feature : Feature) {holds : Sql → Prop} :
    Yields (p.skip feature) (∀ sql ∈ ·, holds sql) :=
  yields_bind _ fun _ _ => yields_ok nofun

/-- A statement that the dialect may have no place for. -/
theorem yields_able (p : Profile) (feature : Feature) {able : Prop} [Decidable able] {sql : Sql}
    {holds : Sql → Prop} (h : holds sql) :
    Yields (if able then .ok [sql] else p.skip feature) (∀ sql ∈ ·, holds sql) := by
  split
  · exact yields_ok (List.forall_mem_singleton.2 h)
  · exact yields_skip p feature

section Descriptions

theorem statements_extendedProperty (hq : p.quoter.dialect = .sqlServer) (table : ObjectName)
    (column : Option String) (description : String) (replace : Bool) :
    Statements p.quoter tight [p.extendedProperty table column description replace] := by
  cases replace with
  | false => exact statements_one (statement_extendedProperty table column description)
  | true => exact .script hq (whole_extendedProperty table column description) statements_nil

theorem statements_describeTable (hp : p.Wraps mark) (ht : Unquoted p.quoter table.names)
    (description : String) (replace : Bool) :
    Statements p.quoter tight (p.describeTable table description replace).toList := by
  have hobject := woven_object hp ht
  have htext : Closing p.quoter tight (Sql.text description) := closing_text _ _
  rw [Profile.describeTable]
  cases hd : p.dialect with
  | oracle => exact absurd hd hp.notOracle
  | sqlServer => exact statements_extendedProperty (hp.same.trans hd) table none description replace
  | sqlite => exact statements_nil
  | postgres | hana | snowflake =>
      refine statements_one ?_
      simp only [List.append_assoc]
      exact .lead (by decide) (.then hobject (by decide) htext)
  | mySql =>
      dsimp only
      split
      · refine statements_one ?_
        simp only [List.append_assoc]
        exact .lead (by decide) (.then hobject (by decide) htext)
      · exact statements_nil

theorem statements_describeColumn (hp : p.Wraps mark) (ht : Unquoted p.quoter table.names)
    {column : String} (hc : p.quoter.isQuoted column = false) (description : String)
    (replace : Bool) :
    Statements p.quoter tight (p.describeColumn table column description replace).toList := by
  have hobject := woven_object hp ht
  have htext : Closing p.quoter tight (Sql.text description) := closing_text _ _
  rw [Profile.describeColumn]
  cases hd : p.dialect with
  | oracle => exact absurd hd hp.notOracle
  | sqlServer =>
      exact statements_extendedProperty (hp.same.trans hd) table (some column) description replace
  | mySql | sqlite => exact statements_nil
  | postgres | hana | snowflake =>
      refine statements_one ?_
      simp only [List.append_assoc]
      exact .lead (by decide) (.then hobject (by decide)
        (.then (hp.wraps.woven_name hc) (by decide) htext))

end Descriptions

section Columns

variable {c : Column}

/-- The change of a type, with a collation if one is given. -/
theorem closing_collatedType (hp : p.Wraps mark) (hc : c.Fits p.quoter tight) {type : Sql}
    (htype : Closing p.quoter tight type) :
    Closing p.quoter tight (match c.collation with
      | some collation => type ++ " COLLATE " ++ p.collationName collation
      | none => type) := by
  split
  · rename_i collation h
    simp only [List.append_assoc]
    exact .then htype.woven (by decide) (closing_collationName hp hc h)
  · exact htype

theorem yields_alterColumnParts (hp : p.Wraps mark) (ht : Unquoted p.quoter table.names)
    (hc : c.Fits p.quoter tight) :
    Yields (p.alterColumnParts table c) (Statement p.quoter tight) := by
  have hobject := woven_object hp ht
  have hname : Woven p.quoter (Sql.name c.name) :=
    (closing_columnName hp hc : Closing _ False _).woven
  have finish : ∀ {parts : List Sql}, parts ≠ [] → (∀ part ∈ parts, Closing p.quoter tight part) →
      Statement p.quoter tight
        ("ALTER TABLE " ++ p.quoter.object table ++ " " ++ Sql.list parts) := by
    intro parts hne hparts
    simp only [List.append_assoc]
    exact .lead (by decide) (.then hobject (by decide) (.join (by decide) hne hparts))
  rw [Profile.alterColumnParts]
  refine (yields_nativeType hp hc).bind fun type htype => ?_
  have hcollated := closing_collatedType hp hc htype
  have hnull : Closing p.quoter tight ("ALTER " ++ Sql.name c.name ++
      (if c.isNotNull then " SET NOT NULL" else " DROP NOT NULL" : Sql)) := by
    simp only [List.append_assoc]
    split <;> exact .lead (by decide) (.last hname (by decide))
  dsimp only
  split
  · rename_i v hv
    refine (hp.literal tight (hc.values v (by simp [Column.literals, hv]))).bind fun sql hsql =>
      yields_ok (finish (by simp) ?_)
    refine List.forall_mem_cons.2 ⟨?_, List.forall_mem_cons.2 ⟨hnull,
      List.forall_mem_singleton.2 ?_⟩⟩
    · rw [List.append_assoc, List.append_assoc]
      exact .lead (by decide) (.then hname (by decide) hcollated)
    · simp only [List.append_assoc]
      exact .lead (by decide) (.then hname (by decide) hsql)
  · refine yields_ok (finish (by simp) (List.forall_mem_cons.2 ⟨?_,
      List.forall_mem_singleton.2 hnull⟩))
    rw [List.append_assoc, List.append_assoc]
    exact .lead (by decide) (.then hname (by decide) hcollated)

theorem yields_alterTypeAndNull (hp : p.Wraps mark) (ht : Unquoted p.quoter table.names)
    (hc : c.Fits p.quoter tight) :
    Yields (p.alterTypeAndNull table c) (Statement p.quoter tight) := by
  have hobject := woven_object hp ht
  have hname : Woven p.quoter (Sql.name c.name) :=
    (closing_columnName hp hc : Closing _ False _).woven
  rw [Profile.alterTypeAndNull]
  refine yields_after ((yields_nativeType hp hc).bind fun type htype => yields_ok ?_)
  simp only [List.append_assoc]
  refine .lead (by decide) (.then hobject (by decide) (.then hname (by decide)
    (.then htype.woven (by decide) (.then hname (by decide) ?_))))
  split <;> exact .word (by decide)

theorem yields_addDefault (hp : p.Wraps mark) (ht : Unquoted p.quoter table.names)
    {column : String} (hn : p.quoter.isQuoted column = false) (hne : column ≠ "") {v : Literal}
    (hv : v.isOwn) : Yields (p.addDefault table column v) (Statement p.quoter tight) := by
  refine (hp.literal tight hv).bind fun sql hsql => yields_ok ?_
  simp only [List.append_assoc]
  exact .lead (by decide) (.then (woven_object hp ht) (by decide) (.then
    (closing_defaultName hp table.name column : Closing _ True _).woven (by decide)
    (.then hsql.woven (by decide) (hp.wraps.closing_name hn fun _ => hne))))

/-- The statements that alter a column whose default is a constraint. Only with a default is its
name written into a comment. -/
theorem yields_alterBoundColumn (hp : p.Wraps mark) (hd : p.dialect = .sqlServer)
    (ht : Unquoted p.quoter table.names) (hc : c.Fits p.quoter tight)
    (hline : ∀ n ∈ c.unbound, '\n' ∉ n.toList) :
    Yields (p.alterBoundColumn table c) (Statements p.quoter tight) := by
  have hplain : ({ c with defaultValue := none, isIdentity := false } : Column).Fits
      p.quoter tight :=
    ⟨hc.names, fun v hv => hc.values v (by simp_all [Column.literals]), hc.type, hc.collation,
      hc.tight, hc.ne_empty⟩
  rw [Profile.alterBoundColumn]
  refine yields_after ((yields_column hp hplain table.name false).bind
    fun definition hdefinition => ?_)
  have halter : Statement p.quoter tight
      ("ALTER TABLE " ++ p.quoter.object table ++ " ALTER COLUMN " ++ definition) := by
    simp only [List.append_assoc]
    exact .lead (by decide) (.then (woven_object hp ht) (by decide) hdefinition)
  cases hv : c.defaultValue with
  | none => exact yields_ok (statements_one halter)
  | some v =>
      have hadd : Yields (p.addDefault table c.name v) (Statement p.quoter tight) :=
        yields_addDefault hp ht hc.names.head hc.ne_empty
          (hc.values v (by simp [Column.literals, hv]))
      have hunbound : c.unbound = [c.name] := by simp [Column.unbound, hv]
      exact hadd.bind fun add hadd => yields_ok (.script (hp.same.trans hd)
        (whole_dropDefaults (hunbound ▸ hline)) (.cons halter (statements_one hadd)))

/-- The statements that alter a column, with its description. -/
theorem yields_alterColumn (hp : p.Wraps mark) (ht : Unquoted p.quoter table.names)
    (hc : c.Fits p.quoter tight)
    (hline : p.dialect = .sqlServer → ∀ n ∈ c.unbound, '\n' ∉ n.toList) :
    Yields (p.alterColumn table c) (Statements p.quoter tight) := by
  have hdescribed : Statements p.quoter tight
      (c.description.bind fun d => p.describeColumn table c.name d true).toList := by
    cases c.description with
    | none => exact statements_nil
    | some description => exact statements_describeColumn hp ht hc.names.head description true
  rw [Profile.alterColumn]
  cases hd : p.dialect with
  | oracle => exact absurd hd hp.notOracle
  | sqlServer =>
      exact (yields_alterBoundColumn hp hd ht hc (hline hd)).bind fun sqls hsqls =>
        yields_ok (hsqls.append hdescribed)
  | postgres =>
      exact (yields_alterColumnParts hp ht hc).bind fun sql hsql =>
        yields_ok (.cons hsql hdescribed)
  | snowflake =>
      exact (yields_alterTypeAndNull hp ht hc).bind fun sql hsql =>
        yields_ok (.cons hsql hdescribed)
  | mySql | sqlite | hana =>
      cases hform : p.forms.alterColumn with
      | none => exact yields_skip p _
      | some form =>
          refine (yields_column hp hc table.name false).bind fun sql hsql => yields_ok ?_
          exact .cons (hp.forms.alterColumn form hform (woven_object hp ht) hsql) hdescribed

theorem yields_addColumn (hp : p.Wraps mark) (ht : Unquoted p.quoter table.names)
    (hc : c.Fits p.quoter tight) :
    Yields (p.addColumn table c) (Statement p.quoter tight) :=
  (yields_column hp hc table.name true).bind fun _ hsql =>
    yields_ok (hp.forms.addColumn (woven_object hp ht) hsql)

theorem yields_assignment (hp : p.Wraps mark) {column : String}
    (hn : p.quoter.isQuoted column = false) {v : Literal} (hv : v.isOwn) :
    Yields (p.assignment column v) (Closing p.quoter tight) := by
  refine (hp.literal tight hv).bind fun sql hsql => yields_ok ?_
  rw [List.append_assoc]
  exact .then (hp.wraps.woven_name hn) (by decide) hsql

theorem closing_everyRow {q : Quoter} : Closing q tight Profile.everyRow := .word (by decide)

theorem statement_update (hp : p.Wraps mark) (ht : Unquoted p.quoter table.names)
    {assignments condition : Sql} (ha : Woven p.quoter assignments)
    (hc : Closing p.quoter tight condition) :
    Statement p.quoter tight (p.update table assignments condition) := by
  have hobject := woven_object hp ht
  simp only [Profile.update, List.append_assoc]
  exact .lead (by decide) (.then hobject (by decide) (.then ha (by decide) hc))

/-- The statements that add a column and fill it. -/
theorem yields_createColumn (hp : p.Wraps mark) (ht : Unquoted p.quoter table.names)
    (hc : c.Fits p.quoter tight)
    (hline : p.dialect = .sqlServer → ∀ n ∈ (Change.createColumn table c).unbound,
      '\n' ∉ n.toList) :
    Yields (p.createColumn table c) (Statements p.quoter tight) := by
  have hdescribed : Statements p.quoter tight
      (c.description.bind fun d => p.describeColumn table c.name d false).toList := by
    cases c.description with
    | none => exact statements_nil
    | some description =>
        exact statements_describeColumn hp ht hc.names.head description false
  have hplain : Yields (do return (← p.addColumn table c) ::
      (c.description.bind fun d => p.describeColumn table c.name d false).toList)
      (Statements p.quoter tight) :=
    (yields_addColumn hp ht hc).bind fun sql hsql => yields_ok (.cons hsql hdescribed)
  rw [Profile.createColumn]
  dsimp only
  split
  · rename_i v hv
    split
    · rename_i hnull
      have hfilled : (Change.createColumn table c).unbound = c.unbound :=
        if_pos ⟨by simp [hv], hnull⟩
      rw [hfilled] at hline
      have hassignment : Yields (p.assignment c.name v) (Closing p.quoter tight) :=
        yields_assignment hp hc.names.head (hc.values v (by simp [Column.literals, hv]))
      have halter : Yields (p.alterColumn table (if p.clauseOrder.contains .description then
          { c with existingRows := none }
          else { c with existingRows := none, description := none }))
          (Statements p.quoter tight) := by
        split
        · exact yields_alterColumn hp ht (hc.fresh c.nullable c.description) hline
        · exact yields_alterColumn hp ht (hc.fresh c.nullable none) hline
      refine (yields_addColumn hp ht (hc.fresh (some true) c.description)).bind fun add hadd =>
        hassignment.bind fun fill hfill => halter.bind fun alter halter => yields_ok ?_
      exact .append (.cons hadd (.cons (statement_update hp ht hfill.woven closing_everyRow)
        halter)) hdescribed
    · exact hplain
  · exact hplain

end Columns

end

end SchemaChange
