import Mathlib.Algebra.GroupWithZero.Nat
import SchemaChange.Proofs.Sql.OwnWords
import SchemaChange.Proofs.Sql.Written

/-!
# The primary key of a table

The SQL of a list of columns declares a primary key once if some column belongs to it, and never
otherwise: beside its only column, or behind all columns with the names of all that belong to it.
What counts are the words of the library's own, not those of names, texts and native SQL.
-/
namespace SchemaChange

open Sql

namespace Text

/-- How often the words stand in a text. -/
def occurrences (words : List Char) : List Char → Nat
  | [] => 0
  | c :: cs => (if words.isPrefixOf (c :: cs) then 1 else 0) + occurrences words cs

/-- Words that do not stand in a text are not counted in it. -/
theorem occurrences_eq_zero {words cs : List Char} (h : ¬ words <:+: cs) :
    occurrences words cs = 0 := by
  induction cs with
  | nil => rfl
  | cons first cs ih =>
      have hfirst : words.isPrefixOf (first :: cs) = false := Bool.eq_false_iff.2 fun hlead =>
        h (List.isPrefixOf_iff_prefix.1 hlead).isInfix
      rw [occurrences, hfirst, ih fun hrest => h (hrest.trans (List.suffix_cons ..).isInfix)]
      rfl

end Text

/-- How often a piece of the library's own declares a primary key. -/
def Piece.keyCount : Piece → Nat
  | .code sql => Text.occurrences "PRIMARY KEY".toList sql.toList
  | _ => 0

namespace Sql

/-- How often SQL declares a primary key. -/
def keyCount (sql : Sql) : Nat := (sql.map Piece.keyCount).sum

@[simp] theorem keyCount_append (x y : Sql) : keyCount (x ++ y) = keyCount x + keyCount y := by
  simp [keyCount]

@[simp] theorem keyCount_name (n : String) : keyCount (name n) = 0 := rfl

/-- SQL that does not say the words declares no key. -/
theorem keyCount_eq_zero {sql : Sql} (h : ¬ Says "PRIMARY KEY" sql) : keyCount sql = 0 := by
  refine List.sum_eq_zero_iff_forall_eq_nat.2 fun n hn => ?_
  obtain ⟨piece, hpiece, rfl⟩ := List.mem_map.1 hn
  cases piece with
  | code code => exact Text.occurrences_eq_zero fun hinfix => h ⟨_, hpiece, hinfix⟩
  | _ => rfl

theorem keyCount_join {separator : Sql} (h : keyCount separator = 0) (parts : List Sql) :
    keyCount (join separator parts) = (parts.map keyCount).sum := by
  fun_induction join separator parts with
  | case1 => rfl
  | case2 part => simp
  | case3 part parts _ ih => simp [h, ih]

@[simp] theorem keyCount_list (parts : List Sql) :
    keyCount (list parts) = (parts.map keyCount).sum :=
  keyCount_join (keyCount_eq_zero (not_says_ofList (by decide))) parts

@[simp] theorem keyCount_names (columns : List String) : keyCount (names columns) = 0 := by
  simp [names, Function.comp_def]

end Sql

section Clauses

variable {d : Dialect} {mode : Mode} {o : Options}

/-- Of the clauses of a column, only the mark of the key declares one. -/
theorem keyCount_clause {c : Column} {table : String} {inlineKey : Bool} {clause : Clause}
    {sql : Sql} (h : (Profile.of d mode o).clause c table inlineKey clause = .ok sql) :
    keyCount sql = if clause == .primaryKey && (inlineKey && c.isPrimaryKey) then 1 else 0 := by
  cases clause with
  | nullable =>
      cases h
      rw [Profile.nullableClause]
      split
      · exact keyCount_eq_zero (not_says_ofList (by decide))
      · split
        · exact keyCount_eq_zero (not_says_ofList (by decide))
        · rfl
  | primaryKey =>
      cases h
      rw [Profile.primaryKeyMark]
      by_cases hkey : (inlineKey && c.isPrimaryKey) = true
      · simp only [hkey, beq_self_eq_true, Bool.and_self, if_true]
        split <;> decide
      · rw [if_neg hkey, if_neg fun h => hkey (Bool.and_eq_true_iff.1 h).2]
        rfl
  | identity =>
      cases h
      rw [Profile.identityMark]
      split
      · rw [Profile.dialect_of]
        cases d <;> exact keyCount_eq_zero (not_says_ofList (by decide))
      · rfl
  | name | type | collation | default | description =>
      exact keyCount_eq_zero (not_says_clause (by decide) (by decide) h)

/-- Every definition has one place for the mark of the key. -/
theorem count_primaryKey (d : Dialect) (mode : Mode) (o : Options) :
    (Profile.of d mode o).clauseOrder.count .primaryKey = 1 := by
  rw [Profile.clauseOrder_of]
  cases d <;> decide

/-- A part that is left out declares no key. -/
theorem keyCount_of_isVoid {p : Profile} {sql : Sql} (h : p.isVoid sql = true) :
    keyCount sql = 0 := by
  refine keyCount_eq_zero fun hsaid => ?_
  rw [not_isVoid_of_said (by decide) hsaid] at h
  cases h

theorem sum_keyCount_filter (p : Profile) (parts : List Sql) :
    ((parts.filter (!p.isVoid ·)).map keyCount).sum = (parts.map keyCount).sum := by
  induction parts with
  | nil => rfl
  | cons part parts ih =>
      cases hvoid : p.isVoid part with
      | true => simp [hvoid, ih, keyCount_of_isVoid hvoid]
      | false => simp [hvoid, ih]

/-- Parts that declare the key where their origins are marked declare it as often as that. -/
theorem sum_keyCount {α : Type} {marked : α → Bool} {as : List α} {parts : List Sql}
    (h : List.Forall₂ (fun a part => keyCount part = if marked a then 1 else 0) as parts) :
    (parts.map keyCount).sum = as.countP marked := by
  induction h with
  | nil => rfl
  | cons ha _ ih => rw [List.map_cons, List.sum_cons, List.countP_cons, ha, ih, Nat.add_comm]

/-- The definition of a column declares the key where the column is marked. -/
theorem yields_column_keyCount (c : Column) (table : String) (inlineKey : Bool) :
    Yields ((Profile.of d mode o).column c table inlineKey) fun definition =>
      keyCount definition = if inlineKey && c.isPrimaryKey then 1 else 0 := by
  unfold Profile.column
  refine yields_after (yields_bind _ fun parts hparts => yields_ok ?_)
  have hclauses := (forall₂_of_mapM hparts).imp fun clause part h => keyCount_clause h
  rw [keyCount_join (keyCount_eq_zero (not_says_ofList (by decide))), sum_keyCount_filter,
    sum_keyCount hclauses]
  cases inlineKey && c.isPrimaryKey with
  | true => simpa [List.count_eq_countP] using count_primaryKey d mode o
  | false => simp

end Clauses

/-- The columns of the primary key in order of declaration. -/
def keyColumns (columns : List Column) : List Column := columns.filter (·.isPrimaryKey)

/-- The words that give a key its name. -/
def keyNameText (q : Quoter) : Option String → String
  | some name => "CONSTRAINT " ++ q.quote name ++ " "
  | none => ""

namespace Profile

/-- The key stands behind the columns if it has several columns or a name of its own, except in the
dialect that numbers rows by their key, for a numbered column that is the whole key. -/
def KeyBehind (p : Profile) (columns : List Column) : Prop :=
  (2 ≤ (keyColumns columns).length ∨ ∃ key ∈ keyColumns columns, key.primaryKeyName ≠ none) ∧
    ¬ (p.dialect = .sqlite ∧ ∃ key, keyColumns columns = [key] ∧ key.isIdentity = true)

/-- The names of the key columns behind the words that declare a key, which may have a name. -/
def KeyText (p : Profile) (columns : List Column) (text : String) : Prop :=
  ∃ lead, (lead = "" ∨ ∃ c ∈ columns, ∃ name, c.primaryKeyName = some name ∧
      lead = "CONSTRAINT " ++ p.quoter.quote name ++ " ") ∧
    text = lead ++ "PRIMARY KEY (" ++
      ", ".intercalate ((keyColumns columns).map fun key => p.quoter.quote key.name) ++ ")"

/-- Where the primary key is declared: nowhere, beside its only column, or behind all columns. The
definitions are those of the columns, and what stands behind them is a clause or nothing. -/
inductive KeyPlace (p : Profile) (columns : List Column) (table : String) :
    List Sql → List Sql → Prop
  | nowhere {definitions : List Sql} (hkeys : keyColumns columns = [])
      (hcolumns : List.Forall₂ (fun c definition => p.column c table true = .ok definition ∧
        keyCount definition = 0) columns definitions) :
      KeyPlace p columns table definitions []
  | beside {key : Column} {definitions : List Sql} (hkey : keyColumns columns = [key])
      (hplace : ¬ p.KeyBehind columns)
      (hcolumns : List.Forall₂ (fun c definition => p.column c table true = .ok definition ∧
        keyCount definition = if c.isPrimaryKey then 1 else 0) columns definitions) :
      KeyPlace p columns table definitions []
  | behind {definitions : List Sql} {clause : Sql} (hplace : p.KeyBehind columns)
      (hcolumns : List.Forall₂ (fun c definition => p.column c table false = .ok definition ∧
        keyCount definition = 0) columns definitions)
      (hclause : keyCount clause = 1) (htext : p.KeyText columns (clause.write p.quoter)) :
      KeyPlace p columns table definitions [clause]

end Profile

section Placement

variable {d : Dialect} {mode : Mode} {o : Options} {columns : List Column}

theorem hoistsKey_iff (p : Profile) (columns : List Column) :
    p.hoistsKey columns = true ↔ p.KeyBehind columns := by
  simp only [Profile.hoistsKey, Profile.KeyBehind, keyColumns]
  generalize columns.filter (·.isPrimaryKey) = keys
  match keys with
  | [] => simp
  | [key] =>
      cases hidentity : key.isIdentity <;>
        simp [Option.isSome_iff_ne_none, and_comm, hidentity]
  | _ :: _ :: _ => simp

/-- A key behind the columns is a key of some column. -/
theorem Profile.KeyBehind.ne_nil {p : Profile} (h : p.KeyBehind columns) :
    keyColumns columns ≠ [] := by
  intro hkeys
  rcases h.1 with hlength | ⟨key, hkey, -⟩
  · rw [hkeys] at hlength
    exact absurd hlength (by decide)
  · rw [hkeys] at hkey
    cases hkey

/-- A key that is not behind the columns has one column at most. -/
theorem keyColumns_of_not_keyBehind {p : Profile} (h : ¬ p.KeyBehind columns) :
    keyColumns columns = [] ∨ ∃ key, keyColumns columns = [key] := by
  match hkeys : keyColumns columns with
  | [] => exact .inl rfl
  | [key] => exact .inr ⟨key, rfl⟩
  | first :: second :: others =>
      refine absurd ⟨.inl ?_, ?_⟩ h
      · rw [hkeys]
        exact Nat.le_add_left 2 _
      · rintro ⟨-, key, hkey, -⟩
        rw [hkeys] at hkey
        cases hkey

theorem keyCount_keyClause (columns : List Column) :
    keyCount (Profile.keyClause columns) = 1 := by
  have hlead : keyCount "CONSTRAINT " = 0 := keyCount_eq_zero (not_says_ofList (by decide))
  have hblank : keyCount " " = 0 := keyCount_eq_zero (not_says_ofList (by decide))
  have hclosing : keyCount ")" = 0 := keyCount_eq_zero (not_says_ofList (by decide))
  have hkey : keyCount "PRIMARY KEY (" = 1 := by decide
  unfold Profile.keyClause
  dsimp only
  split <;> simp only [keyCount_append, keyCount_name, keyCount_names, hlead, hblank, hclosing,
    hkey]

/-- The text of the key clause: the name of the key if there is one, and the key columns. -/
theorem write_keyClause (q : Quoter) (columns : List Column) :
    (Profile.keyClause columns).write q = keyNameText q (columns.findSome? (·.primaryKeyName)) ++
      "PRIMARY KEY (" ++ ", ".intercalate ((keyColumns columns).map fun key => q.quote key.name) ++
      ")" := by
  unfold Profile.keyClause
  dsimp only
  cases columns.findSome? (·.primaryKeyName) <;>
    simp only [write_append, write_code, write_name, write_names, List.map_map, keyColumns,
      keyNameText, Function.comp_def, String.append_assoc, String.empty_append]

theorem keyText_keyClause (p : Profile) (columns : List Column) :
    p.KeyText columns ((Profile.keyClause columns).write p.quoter) := by
  refine ⟨_, ?_, write_keyClause p.quoter columns⟩
  cases hname : columns.findSome? (·.primaryKeyName) with
  | none => exact .inl rfl
  | some name =>
      obtain ⟨c, hc, hname⟩ := List.exists_of_findSome?_eq_some hname
      exact .inr ⟨c, hc, name, hname, rfl⟩

end Placement

section Columns

variable {d : Dialect} {mode : Mode} {o : Options} {columns : List Column} {table : String}
  {definitions : List Sql}

/-- The definitions of the columns, each with the mark of the key or none. -/
theorem forall₂_keyCount {inlineKey : Bool}
    (h : columns.mapM ((Profile.of d mode o).column · table inlineKey) = .ok definitions) :
    List.Forall₂ (fun c definition => (Profile.of d mode o).column c table inlineKey =
      .ok definition ∧ keyCount definition = if inlineKey && c.isPrimaryKey then 1 else 0)
      columns definitions :=
  (forall₂_of_mapM h).imp fun c definition h =>
    ⟨h, yields_column_keyCount c table inlineKey definition h⟩

theorem keyPlace_behind (hplace : (Profile.of d mode o).KeyBehind columns)
    (h : columns.mapM ((Profile.of d mode o).column · table false) = .ok definitions) :
    keyCount (Sql.list (definitions ++ [Profile.keyClause columns])) = 1 ∧
      (Profile.of d mode o).KeyPlace columns table definitions [Profile.keyClause columns] := by
  have hcolumns := forall₂_keyCount h
  have hnone : (definitions.map keyCount).sum = 0 := by
    rw [sum_keyCount (hcolumns.imp fun _ _ h => h.2)]
    simp
  refine ⟨?_, .behind hplace hcolumns (keyCount_keyClause columns)
    (keyText_keyClause _ columns)⟩
  rw [keyCount_list, List.map_append, List.sum_append, hnone]
  simpa using keyCount_keyClause columns

/-- With the key not behind the columns, there is one key column at most. -/
theorem keyPlace_inline (hplace : ¬ (Profile.of d mode o).KeyBehind columns)
    (h : columns.mapM ((Profile.of d mode o).column · table true) = .ok definitions) :
    keyCount (Sql.list definitions) = (if keyColumns columns = [] then 0 else 1) ∧
      (Profile.of d mode o).KeyPlace columns table definitions [] := by
  have hcolumns := forall₂_keyCount h
  have hcount : keyCount (Sql.list definitions) = (keyColumns columns).length := by
    rw [keyCount_list, sum_keyCount (hcolumns.imp fun _ _ h => h.2), keyColumns,
      List.countP_eq_length_filter]
    simp
  rcases keyColumns_of_not_keyBehind hplace with hkeys | ⟨key, hkeys⟩
  · have hnone : ∀ c ∈ columns, c.isPrimaryKey = false := fun c hc =>
      Bool.eq_false_iff.2 (List.filter_eq_nil_iff.1 hkeys c hc)
    have hall := (List.forall₂_and_left columns definitions).2 ⟨hnone, hcolumns⟩
    refine ⟨by rw [hcount, hkeys]; rfl, .nowhere hkeys (hall.imp fun c definition h => ?_)⟩
    exact ⟨h.2.1, by rw [h.2.2, h.1]; rfl⟩
  · exact ⟨by rw [hcount, hkeys]; rfl, .beside hkeys hplace hcolumns⟩

end Columns

/-- The columns of a table declare its primary key once if there are key columns, and never
otherwise. -/
theorem primaryKey_of_columns {d : Dialect} {mode : Mode} {o : Options} {columns : List Column}
    {table : String} {sql : Sql} (h : (Profile.of d mode o).columns columns table = .ok sql) :
    keyCount sql = (if keyColumns columns = [] then 0 else 1) ∧
      ∃ definitions behind, sql = Sql.list (definitions ++ behind) ∧
        (Profile.of d mode o).KeyPlace columns table definitions behind := by
  obtain ⟨definitions, hdefinitions, h⟩ := exists_of_bind h
  cases h
  by_cases hplace : (Profile.of d mode o).KeyBehind columns
  · have hhoists := (hoistsKey_iff _ columns).2 hplace
    rw [hhoists] at hdefinitions ⊢
    obtain ⟨hcount, hkey⟩ := keyPlace_behind hplace hdefinitions
    exact ⟨by rw [if_neg hplace.ne_nil]; exact hcount, definitions, [Profile.keyClause columns],
      rfl, hkey⟩
  · have hhoists := Bool.eq_false_iff.2 (mt (hoistsKey_iff _ columns).1 hplace)
    rw [hhoists] at hdefinitions ⊢
    obtain ⟨hcount, hkey⟩ := keyPlace_inline hplace hdefinitions
    exact ⟨hcount, definitions, [], by rw [List.append_nil]; rfl, hkey⟩

theorem primaryKey_of_columns_composite :
    let p := Profile.of .postgres .strict {}
    let columns := [Column.ofType "sku" .int32, (Column.ofType "order" .int64).asPrimaryKey,
      (Column.ofType "line" .int16).asPrimaryKeyNamed "pk_lines"]
    ∃ sql, p.columns columns "lines" = .ok sql ∧
      sql.write p.quoter = "\"sku\" integer NOT NULL, \"order\" bigint NOT NULL, " ++
        "\"line\" smallint NOT NULL, " ++
        "CONSTRAINT \"pk_lines\" PRIMARY KEY (\"order\", \"line\")" ∧
      keyCount sql = 1 ∧ ∃ definitions behind, sql = Sql.list (definitions ++ behind) ∧
        p.KeyPlace columns "lines" definitions behind := by
  intro p columns
  have h : p.columns columns "lines" = .ok _ := rfl
  exact ⟨_, h, by decide +kernel, primaryKey_of_columns h⟩

end SchemaChange
