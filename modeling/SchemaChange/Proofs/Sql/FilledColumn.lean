import SchemaChange.Proofs.Sql.Rendering

/-!
# Columns with a value for existing rows

A column that rejects NULL and gives a value for existing rows is added without the restriction,
filled by an update of every row, and altered. Wherever the column can be added as it is, it can be
added so, except where the engine cannot alter columns or their defaults.
-/
namespace SchemaChange

open Sql

/-- One statement of a list has the property, and no other. -/
def ExactlyOne (holds : Sql → Prop) (sqls : List Sql) : Prop :=
  ∃ before sql after, sqls = before ++ sql :: after ∧ holds sql ∧
    ∀ other ∈ before ++ after, ¬ holds other

section ExactlyOne

variable {holds : Sql → Prop} {sqls others : List Sql}

theorem exactlyOne_singleton {sql : Sql} (h : holds sql) : ExactlyOne holds [sql] :=
  ⟨[], sql, [], rfl, h, nofun⟩

theorem ExactlyOne.append (h : ExactlyOne holds sqls) (hothers : ∀ sql ∈ others, ¬ holds sql) :
    ExactlyOne holds (sqls ++ others) := by
  obtain ⟨before, sql, after, rfl, hsql, hrest⟩ := h
  refine ⟨before, sql, after ++ others, by simp, hsql, ?_⟩
  rw [← List.append_assoc]
  exact List.forall_mem_append.2 ⟨hrest, hothers⟩

theorem ExactlyOne.behind (h : ExactlyOne holds sqls) (hothers : ∀ sql ∈ others, ¬ holds sql) :
    ExactlyOne holds (others ++ sqls) := by
  obtain ⟨before, sql, after, rfl, hsql, hrest⟩ := h
  refine ⟨others ++ before, sql, after, by simp, hsql, ?_⟩
  rw [List.append_assoc]
  exact List.forall_mem_append.2 ⟨hothers, hrest⟩

end ExactlyOne

namespace Profile

/-- The words between the table and the column in a statement that alters a column. -/
def alterWords : Dialect → String
  | .sqlServer | .snowflake => " ALTER COLUMN "
  | .postgres => " ALTER "
  | .mySql => " MODIFY COLUMN "
  | .oracle => " MODIFY "
  | .hana => " ALTER ("
  | .sqlite => ""

/-- The statement alters the column of the table. -/
def AltersColumn (p : Profile) (table : ObjectName) (column : String) (sql : Sql) : Prop :=
  ∃ change, sql.write p.quoter = "ALTER TABLE " ++ p.quoter.quoteObject table ++
    alterWords p.dialect ++ p.quoter.quote column ++ change

/-- The statement describes the column, whether it has a description already or not. -/
def DescribesColumn (p : Profile) (table : ObjectName) (column description : String)
    (sql : Sql) : Prop :=
  ∃ replace, p.describeColumn table column description replace = some sql

/-- How statements begin that change a column or its rows. -/
def changeOpenings : List (Option Piece) :=
  [some (.code "ALTER TABLE "), some (.code "UPDATE "),
    some (.code "DECLARE @default sysname, @sql nvarchar(max);")]

/-- Statements that put a restriction on NULL back. -/
structure RestoresNotNull (p : Profile) (table : ObjectName) (column : String)
    (sqls : List Sql) : Prop where
  once : ExactlyOne (Says "NOT NULL") sqls
  alters : ∀ sql ∈ sqls, Says "NOT NULL" sql → p.AltersColumn table column sql
  opens : ∀ sql ∈ sqls, sql.head? ∈ changeOpenings

end Profile

section Parts

variable {d : Dialect} {mode : Mode} {o : Options} {c : Column} {table : String}
  {inlineKey : Bool} {definition : Sql}

end Parts

/-- A column whose restriction on NULL can be put back by altering it, if the engine can alter
columns at all. -/
structure Column.Restorable (c : Column) (d : Dialect) (mode : Mode) (o : Options) : Prop where
  renders : c.Renders (Profile.of d mode o)
  named : Text.allBlank c.name = false
  plain : c.isIdentity = false
  rejectsNull : c.isNotNull = true
  default : d = .snowflake → mode = .strict → c.defaultValue = none

/-- Neither the value for existing rows nor the description takes part in that. -/
theorem Column.Restorable.fresh {c : Column} {d : Dialect} {mode : Mode} {o : Options}
    (hc : c.Restorable d mode o) (description : Option String) :
    ({ c with existingRows := none, description } : Column).Restorable d mode o :=
  ⟨⟨hc.renders.type, hc.renders.default⟩, hc.named, hc.plain, hc.rejectsNull, hc.default⟩

section Restore

variable {p : Profile} {table : ObjectName} {column : String}

theorem Profile.RestoresNotNull.one {sql : Sql}
    (halters : p.AltersColumn table column sql) (hsaid : Says "NOT NULL" sql)
    (hopens : sql.head? ∈ Profile.changeOpenings) : p.RestoresNotNull table column [sql] where
  once := exactlyOne_singleton hsaid
  alters := List.forall_mem_singleton.2 fun _ => halters
  opens := List.forall_mem_singleton.2 hopens

/-- Statements before and after that say nothing about NULL. -/
theorem Profile.RestoresNotNull.between {sqls : List Sql}
    (h : p.RestoresNotNull table column sqls) {first last : Sql}
    (hfirst : ¬ Says "NOT NULL" first ∧ first.head? ∈ Profile.changeOpenings)
    (hlast : ¬ Says "NOT NULL" last ∧ last.head? ∈ Profile.changeOpenings) :
    p.RestoresNotNull table column ([first] ++ (sqls ++ [last])) where
  once := (h.once.append (List.forall_mem_singleton.2 hlast.1)).behind
    (List.forall_mem_singleton.2 hfirst.1)
  alters := by
    simp only [List.mem_append, List.mem_singleton]
    rintro sql (rfl | hsql | rfl) hsaid
    · exact absurd hsaid hfirst.1
    · exact h.alters sql hsql hsaid
    · exact absurd hsaid hlast.1
  opens := by
    simp only [List.mem_append, List.mem_singleton]
    rintro sql (rfl | hsql | rfl)
    · exact hfirst.2
    · exact h.opens sql hsql
    · exact hlast.2

end Restore

section Alter

variable {d : Dialect} {mode : Mode} {o : Options} {c : Column} (table : ObjectName)

end Alter

section Add

variable {d : Dialect} {mode : Mode} {o : Options} {table : ObjectName}

end Add

section Describe

variable {p : Profile} {table : ObjectName} {column description : String} {sql : Sql}

/-- How statements begin that describe a column. -/
def Profile.describeOpenings : List (Option Piece) :=
  [some (.code "COMMENT ON COLUMN "),
    some (.code "EXEC sys.sp_addextendedproperty @name = N'MS_Description', @value = "),
    some (.code "IF EXISTS (SELECT * FROM fn_listextendedproperty(N'MS_Description', N'SCHEMA', ")]

/-- All these statements begin with words. -/
theorem isWorded_of_head (h : sql.head? ∈ Profile.changeOpenings ++ Profile.describeOpenings) :
    sql.isWorded = true := by
  have hall : ∀ first ∈ Profile.changeOpenings ++ Profile.describeOpenings,
      Sql.isWorded first.toList = true := by
    simp only [Profile.changeOpenings, Profile.describeOpenings, List.cons_append, List.nil_append,
      List.mem_cons, List.not_mem_nil, or_false]
    rintro first (rfl | rfl | rfl | rfl | rfl | rfl) <;> exact isWorded_ofList (by decide) _
  cases sql with
  | nil => exact hall _ h
  | cons piece rest =>
      have hpiece : Sql.isWorded [piece] = true := hall _ h
      exact isWorded_append hpiece rest

/-- What a statement that describes a column is made of. -/
theorem Profile.DescribesColumn.opens (h : p.DescribesColumn table column description sql) :
    sql.head? ∈ Profile.describeOpenings ∧ ¬ Says "NOT NULL" sql := by
  obtain ⟨replace, h⟩ := h
  rw [Profile.describeColumn.eq_def] at h
  cases hd : p.dialect with
  | mySql | sqlite =>
      rw [hd] at h
      cases h
  | sqlServer =>
      rw [hd] at h
      cases h
      rw [Profile.extendedProperty, Profile.propertyLevels]
      dsimp only
      split
      · refine ⟨.tail _ (.tail _ (.head _)), ?_⟩
        simp only [says_append, says_text, or_false, not_or]
        and_intros <;> exact not_says_ofList (by decide +kernel)
      · refine ⟨.tail _ (.head _), ?_⟩
        simp only [says_append, says_text, or_false, not_or]
        and_intros <;> exact not_says_ofList (by decide +kernel)
  | postgres | oracle | hana | snowflake =>
      rw [hd] at h
      cases h
      have hobject : ¬ Says "NOT NULL" (p.quoter.object table) :=
        not_says_object (not_says_ofList (by decide)) _ _
      refine ⟨by simp only [List.append_assoc]; exact .head _, ?_⟩
      simp only [says_append, says_text, says_name, hobject, or_false, not_or]
      and_intros <;> exact not_says_ofList (by decide)

end Describe

section Fill

variable {d : Dialect} {mode : Mode} {o : Options} (table : ObjectName) {c : Column}
  {v : Literal} {value : Sql}

end Fill

end SchemaChange
