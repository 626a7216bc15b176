import SchemaChange.Proofs.Sql.PrimaryKey

/-!
# The name of a primary key

Two lists of columns that differ only in the key names of columns outside the key are written alike
but for the name of a key behind the columns. That name is the first that any column gives, so a
column outside the key can change it.
-/
namespace SchemaChange

open Sql

/-- The column with a name for the key only if it belongs to the key. -/
def Column.keyNamed (c : Column) : Column :=
  { c with primaryKeyName := if c.isPrimaryKey then c.primaryKeyName else none }

/-- The last of several parts stands behind what the others are, whatever it is itself. -/
theorem Sql.exists_lead_of_list (parts : List Sql) :
    ∃ lead : Sql, ∀ last, Sql.list (parts ++ [last]) = lead ++ last := by
  induction parts with
  | nil => exact ⟨[], fun _ => rfl⟩
  | cons part parts ih =>
      obtain ⟨lead, hlead⟩ := ih
      refine ⟨part ++ ", " ++ lead, fun last => ?_⟩
      have hjoin : Sql.list (part :: parts ++ [last]) =
          part ++ ", " ++ Sql.list (parts ++ [last]) := by
        cases parts <;> rfl
      rw [hjoin, hlead, ← List.append_assoc]

/-- No name is written like none, and two are written alike if their quoted forms are the same. -/
theorem keyNameText_inj {q : Quoter} {name name' : Option String} :
    keyNameText q name = keyNameText q name' ↔ name.map q.quote = name'.map q.quote := by
  cases name with
  | none =>
      cases name' with
      | none => simp
      | some name' => simp [keyNameText]
  | some name =>
      cases name' with
      | none => simp [keyNameText]
      | some name' =>
          simp only [keyNameText, String.append_left_inj, String.append_right_inj,
            Option.map_some, Option.some.injEq]

section Agreement

variable {p : Profile} {columns columns' : List Column} {table : String}

theorem keyColumns_keyNamed (columns : List Column) :
    keyColumns (columns.map Column.keyNamed) = keyColumns columns := by
  have hkept : ∀ c ∈ keyColumns columns, c.keyNamed = c := fun c hc => by
    rw [Column.keyNamed, if_pos (List.mem_filter.1 hc).2]
  calc keyColumns (columns.map Column.keyNamed)
      = (keyColumns columns).map Column.keyNamed := List.filter_map
    _ = (keyColumns columns).map id := List.map_congr_left hkept
    _ = keyColumns columns := List.map_id _

theorem keyColumns_eq (h : columns.map Column.keyNamed = columns'.map Column.keyNamed) :
    keyColumns columns = keyColumns columns' := by
  rw [← keyColumns_keyNamed columns, h, keyColumns_keyNamed]

theorem hoistsKey_eq (h : keyColumns columns = keyColumns columns') :
    p.hoistsKey columns = p.hoistsKey columns' := by
  rw [keyColumns, keyColumns] at h
  rw [Profile.hoistsKey, Profile.hoistsKey, h]

/-- The definition of a column does not show the name that it gives the key. -/
theorem mapM_column_keyNamed (columns : List Column) (inlineKey : Bool) :
    (columns.map Column.keyNamed).mapM (p.column · table inlineKey) =
      columns.mapM (p.column · table inlineKey) := by
  rw [List.mapM_map]
  rfl

theorem mapM_column_eq (h : columns.map Column.keyNamed = columns'.map Column.keyNamed)
    (inlineKey : Bool) : columns.mapM (p.column · table inlineKey) =
      columns'.mapM (p.column · table inlineKey) := by
  rw [← mapM_column_keyNamed columns, h, mapM_column_keyNamed]

/-- Behind the same definitions, the clauses of one key differ in nothing but its name. -/
theorem write_behind_inj {q : Quoter} (hkeys : keyColumns columns = keyColumns columns')
    (definitions : List Sql) :
    (Sql.list (definitions ++ [Profile.keyClause columns])).write q =
        (Sql.list (definitions ++ [Profile.keyClause columns'])).write q ↔
      (columns.findSome? (·.primaryKeyName)).map q.quote =
        (columns'.findSome? (·.primaryKeyName)).map q.quote := by
  obtain ⟨lead, hlead⟩ := Sql.exists_lead_of_list definitions
  rw [hlead, hlead, write_append, write_append, String.append_right_inj, write_keyClause,
    write_keyClause, hkeys, String.append_left_inj, String.append_left_inj,
    String.append_left_inj, keyNameText_inj]

end Agreement

/-- Columns that differ only in key names outside the key are written alike, except where they are
written with the key behind them and do not give it the same name first. -/
theorem columns_eq_iff {p : Profile} {columns columns' : List Column} {table : String}
    (h : columns.map Column.keyNamed = columns'.map Column.keyNamed) :
    (p.columns columns table).map (Sql.write p.quoter) =
        (p.columns columns' table).map (Sql.write p.quoter) ↔
      ((∃ sql, p.columns columns table = .ok sql) → p.KeyBehind columns →
        (columns.findSome? (·.primaryKeyName)).map p.quoter.quote =
          (columns'.findSome? (·.primaryKeyName)).map p.quoter.quote) := by
  have hkeys := keyColumns_eq h
  rw [← hoistsKey_iff]
  simp only [Profile.columns, ← hoistsKey_eq (p := p) hkeys, ← mapM_column_eq (p := p) h]
  cases columns.mapM (p.column · table !p.hoistsKey columns) with
  | error e =>
      refine ⟨?_, fun _ => rfl⟩
      rintro - ⟨sql, hsql⟩
      cases hsql
  | ok definitions =>
      have hbehind := write_behind_inj (q := p.quoter) hkeys definitions
      cases p.hoistsKey columns with
      | false => exact ⟨fun _ _ hplace => (nomatch hplace), fun _ => rfl⟩
      | true =>
          refine ⟨fun htexts _ _ => hbehind.1 (Except.ok.inj htexts), fun hnames => ?_⟩
          exact congrArg Except.ok (hbehind.2 (hnames ⟨_, rfl⟩ rfl))

/-- A name outside the key does nothing if a key column gives one first. -/
theorem columns_eq_of_keyFirst :
    let p := Profile.of .postgres .strict {}
    let note := Column.ofType "note" .int32
    let key := [(Column.ofType "a" .int32).asPrimaryKeyNamed "pk_t",
      (Column.ofType "b" .int32).asPrimaryKey]
    let columns := key ++ [{ note with primaryKeyName := "pk_x" }]
    (columns.map Column.keyNamed = (key ++ [note]).map Column.keyNamed) ∧
      (p.columns columns "t").map (Sql.write p.quoter) =
        (p.columns (key ++ [note]) "t").map (Sql.write p.quoter) := by
  intro p note key columns
  have h : columns.map Column.keyNamed = (key ++ [note]).map Column.keyNamed := rfl
  exact ⟨h, (columns_eq_iff h).2 fun _ _ => rfl⟩

/-- A column outside the key names it. -/
theorem not_columns_eq_of_strayName :
    let p := Profile.of .postgres .strict {}
    let note := Column.ofType "note" .int32
    let key := [(Column.ofType "a" .int32).asPrimaryKey, (Column.ofType "b" .int32).asPrimaryKey]
    let columns := { note with primaryKeyName := "pk_x" } :: key
    let definitions := "\"note\" integer NOT NULL, \"a\" integer NOT NULL, \"b\" integer NOT NULL"
    let text := definitions ++ ", CONSTRAINT \"pk_x\" PRIMARY KEY (\"a\", \"b\")"
    let text' := definitions ++ ", PRIMARY KEY (\"a\", \"b\")"
    columns.map Column.keyNamed = (note :: key).map Column.keyNamed ∧
      (p.columns columns "t").map (Sql.write p.quoter) = .ok text ∧
      (p.columns (note :: key) "t").map (Sql.write p.quoter) = .ok text' ∧ text ≠ text' := by
  intro p note key columns definitions text text'
  exact ⟨rfl, by decide +kernel, by decide +kernel, by decide⟩

end SchemaChange
