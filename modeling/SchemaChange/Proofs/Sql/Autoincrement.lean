import SchemaChange.Proofs.Sql.Leniency
import SchemaChange.Proofs.Sql.Rendering

/-!
# Numbering by the key

SQLite numbers rows by a key of one column alone. A numbered column that is the whole key carries
the mark beside itself, also under a key name of its own; any other numbered column is refused in
strict mode and goes without numbers otherwise.
-/
namespace SchemaChange

open Sql

/-- A list goes up to its first bad element. -/
theorem mapM_eq_find? {α β : Type} {f g : α → Except Error β} (bad : α → Bool) (cause : α → Error)
    {as : List α} (hf : ∀ a ∈ as, f a = if bad a then .error (cause a) else g a)
    (hg : ∀ a ∈ as, ∃ b, g a = .ok b) :
    as.mapM f = match as.find? bad with
      | some a => .error (cause a)
      | none => as.mapM g := by
  induction as with
  | nil => rfl
  | cons a as ih =>
      have hothers := ih (fun a ha => hf a (List.mem_cons_of_mem _ ha)) fun a ha =>
        hg a (List.mem_cons_of_mem _ ha)
      obtain ⟨b, hb⟩ := hg a (List.mem_cons_self ..)
      rw [List.mapM_cons, hf a (List.mem_cons_self ..)]
      cases hbad : bad a with
      | true => rw [if_pos rfl, List.find?_cons_of_pos hbad]; rfl
      | false =>
          rw [if_neg (by decide), List.find?_cons_of_neg (by simp [hbad]), hb, hothers,
            List.mapM_cons, hb]
          cases as.find? bad <;> rfl

/-- A numbered column that is not the whole key of the columns. -/
def Stray (columns : List Column) (c : Column) : Prop :=
  c.isIdentity = true ∧ keyColumns columns ≠ [c]

instance (columns : List Column) : DecidablePred (Stray columns) := fun c =>
  inferInstanceAs (Decidable (c.isIdentity = true ∧ keyColumns columns ≠ [c]))

section Key

variable {columns : List Column} {c : Column}

/-- The mark of the key stands beside a numbered column if that is the whole key. -/
theorem keyBeside_iff {p : Profile} (hd : p.dialect = .sqlite) (hc : c ∈ columns)
    (hidentity : c.isIdentity = true) :
    (!p.hoistsKey columns && c.isPrimaryKey) = true ↔ keyColumns columns = [c] := by
  constructor
  · intro h
    obtain ⟨hplace, hkey⟩ := Bool.and_eq_true_iff.1 h
    have hbehind : ¬ p.KeyBehind columns := fun hbehind => by
      rw [(hoistsKey_iff p columns).2 hbehind] at hplace
      cases hplace
    have hmem : c ∈ keyColumns columns := List.mem_filter.2 ⟨hc, hkey⟩
    rcases keyColumns_of_not_keyBehind hbehind with hkeys | ⟨key, hkeys⟩
    · rw [hkeys] at hmem
      cases hmem
    · rw [hkeys, List.mem_singleton] at hmem
      rw [hkeys, hmem]
  · intro hkeys
    have hbehind : ¬ p.KeyBehind columns := fun hbehind => hbehind.2 ⟨hd, c, hkeys, hidentity⟩
    have hmem : c ∈ keyColumns columns := hkeys ▸ List.mem_singleton.2 rfl
    rw [Bool.eq_false_iff.2 (mt (hoistsKey_iff p columns).1 hbehind), (List.mem_filter.1 hmem).2]
    rfl

/-- The engine refuses the numbered columns that are not the whole key. -/
theorem refused_iff {p : Profile} (hd : p.dialect = .sqlite) (hc : c ∈ columns) :
    (p.dialect = .sqlite ∧ c.isIdentity ∧ !(!p.hoistsKey columns && c.isPrimaryKey)) ↔
      Stray columns c := by
  rw [and_iff_right hd]
  refine and_congr_right fun hidentity => ?_
  rw [Bool.not_eq_true', Bool.eq_false_iff]
  exact not_congr (keyBeside_iff hd hc hidentity)

end Key

section Sqlite

variable {mode : Mode} {o : Options} {c : Column} {table : String}

/-- The words for numbers are those of a numbered column with the mark of the key. -/
theorem says_autoincrement_iff {inlineKey : Bool} {definition : Sql}
    (h : (Profile.of .sqlite mode o).column c table inlineKey = .ok definition) :
    Says "AUTOINCREMENT" definition ↔
      (inlineKey && c.isPrimaryKey) = true ∧ c.isIdentity = true := by
  have hnull : ¬ Says "AUTOINCREMENT" ((Profile.of .sqlite mode o).nullableClause c) := by
    rw [Profile.nullableClause]
    split
    · exact not_says_ofList (by decide)
    · exact says_nil
  have hidentity : ¬ Says "AUTOINCREMENT" ((Profile.of .sqlite mode o).identityMark c) := by
    rw [Profile.identityMark, Profile.dialect_of]
    split
    · exact not_says_ofList (by decide)
    · exact says_nil
  rw [says_column_iff "AUTOINCREMENT" (by decide) h]
  simp only [hnull, hidentity, or_false, false_or]
  rw [Profile.primaryKeyMark, Profile.dialect_of]
  by_cases hkey : (inlineKey && c.isPrimaryKey) = true
  · rw [if_pos hkey, and_iff_right hkey]
    cases c.isIdentity with
    | true => exact iff_of_true (says_ofList (by decide)) rfl
    | false => exact iff_of_false (not_says_ofList (by decide)) (by decide)
  · rw [if_neg hkey]
    exact iff_of_false says_nil fun h => hkey h.1

/-- The clause of the key says nothing about numbers. -/
theorem not_says_keyClause (columns : List Column) :
    ¬ Says "AUTOINCREMENT" (Profile.keyClause columns) := by
  have hlead : ¬ Says "AUTOINCREMENT" "CONSTRAINT " := not_says_ofList (by decide)
  have hblank : ¬ Says "AUTOINCREMENT" " " := not_says_ofList (by decide)
  have hkey : ¬ Says "AUTOINCREMENT" "PRIMARY KEY (" := not_says_ofList (by decide)
  have hnames : ∀ columns, ¬ Says "AUTOINCREMENT" (Sql.names columns) :=
    not_says_names (not_says_ofList (by decide))
  have hclosing : ¬ Says "AUTOINCREMENT" ")" := not_says_ofList (by decide)
  unfold Profile.keyClause
  dsimp only
  split <;> simp only [says_append, says_name, hlead, hblank, hkey, hnames, hclosing, or_self,
    not_false_eq_true]

variable {columns : List Column}

/-- A refused column fails in strict mode, and every other is written as in the lenient mode. -/
theorem column_strict (hc : c ∈ columns) (table : String) :
    (Profile.of .sqlite .strict o).column c table
        (!(Profile.of .sqlite .strict o).hoistsKey columns) =
      if decide (Stray columns c) then
        .error (.unsupported .sqlite (.autoincrement c.name table))
      else (Profile.of .sqlite .emulate o).column c table
        (!(Profile.of .sqlite .emulate o).hoistsKey columns) := by
  have hrefused := refused_iff (p := Profile.of .sqlite .strict o) rfl hc
  by_cases hstray : Stray columns c
  · rw [if_pos (decide_eq_true hstray), Profile.column, if_pos (hrefused.2 hstray)]
    rfl
  · have hlenient := refused_iff (p := Profile.of .sqlite .emulate o) rfl hc
    rw [if_neg (by simpa using hstray), Profile.column, if_neg (mt hrefused.1 hstray),
      Profile.column, if_neg (mt hlenient.1 hstray)]
    rfl

variable (hrenders : ∀ c ∈ columns, c.Renders (Profile.of .sqlite .strict o))
include hrenders

theorem exists_column_emulate (hc : c ∈ columns) (table : String) (inlineKey : Bool) :
    ∃ definition, (Profile.of .sqlite .emulate o).column c table inlineKey = .ok definition := by
  have hlenient : c.Renders (Profile.of .sqlite .emulate o) :=
    ⟨(hrenders c hc).type, (hrenders c hc).default⟩
  obtain ⟨definition, h⟩ := hlenient.exists_definition table inlineKey
  refine ⟨definition, h.trans ?_⟩
  split <;> rfl

/-- The first refused column is the one that fails. -/
theorem columns_strict (table : String) :
    (Profile.of .sqlite .strict o).columns columns table =
      match columns.find? (Stray columns) with
      | some c => .error (.unsupported .sqlite (.autoincrement c.name table))
      | none => (Profile.of .sqlite .emulate o).columns columns table := by
  have hmapM := mapM_eq_find? (fun c => decide (Stray columns c))
    (fun c => .unsupported .sqlite (.autoincrement c.name table))
    (fun c hc => column_strict (o := o) hc table)
    (fun c hc => exists_column_emulate hrenders hc table _)
  unfold Profile.columns
  dsimp only
  rw [hmapM]
  cases columns.find? (Stray columns) <;> rfl

/-- Without refusals, the words for numbers stand beside the numbered column that is the whole key
and nowhere else. -/
theorem exists_columns_emulate (table : String) :
    ∃ definitions behind, (Profile.of .sqlite .emulate o).columns columns table =
        .ok (Sql.list (definitions ++ behind)) ∧
      List.Forall₂ (fun c definition =>
        (Profile.of .sqlite .emulate o).column c table
          (!(Profile.of .sqlite .emulate o).hoistsKey columns) = .ok definition ∧
        (Says "AUTOINCREMENT" definition ↔ c.isIdentity = true ∧ keyColumns columns = [c]))
        columns definitions ∧
      ∀ clause ∈ behind, ¬ Says "AUTOINCREMENT" clause := by
  let p := Profile.of .sqlite .emulate o
  obtain ⟨definitions, hdefinitions⟩ := exists_mapM fun c hc =>
    exists_column_emulate hrenders hc table (!p.hoistsKey columns)
  refine ⟨definitions, if p.hoistsKey columns then [Profile.keyClause columns] else [],
    ?_, ?_, ?_⟩
  · rw [Profile.columns, hdefinitions]
    cases hplace : p.hoistsKey columns with
    | true => rfl
    | false =>
        rw [if_neg (by decide), List.append_nil]
        rfl
  · have hcolumns := forall₂_of_mapM hdefinitions
    refine ((List.forall₂_and_left columns definitions).2 ⟨fun c hc => hc, hcolumns⟩).imp
      fun c definition ⟨hc, h⟩ => ⟨h, ?_⟩
    rw [says_autoincrement_iff h, and_comm]
    exact and_congr_right fun hidentity => keyBeside_iff rfl hc hidentity
  · intro clause hclause
    split at hclause
    · rw [List.mem_singleton.1 hclause]
      exact not_says_keyClause columns
    · cases hclause

end Sqlite

/-- In strict mode the columns of a table fail for a missing feature if some numbered column is not
the whole key. Otherwise, and always in the other mode, they are written, and the words for numbers
stand beside the numbered column that is the whole key. -/
theorem autoincrement_columns {o : Options} {columns : List Column} {table : String}
    (hrenders : ∀ c ∈ columns, c.Renders (Profile.of .sqlite .strict o)) :
    let strict := Profile.of .sqlite .strict o
    let lenient := Profile.of .sqlite .emulate o
    ((∃ e, strict.columns columns table = .error e ∧ e.isUnsupported = true) ↔
      ∃ c ∈ columns, c.isIdentity = true ∧ keyColumns columns ≠ [c]) ∧
    ∃ definitions behind, lenient.columns columns table = .ok (Sql.list (definitions ++ behind)) ∧
      List.Forall₂ (fun c definition =>
        lenient.column c table (!lenient.hoistsKey columns) = .ok definition ∧
        (Says "AUTOINCREMENT" definition ↔ c.isIdentity = true ∧ keyColumns columns = [c]))
        columns definitions ∧
      ∀ clause ∈ behind, ¬ Says "AUTOINCREMENT" clause := by
  intro strict lenient
  obtain ⟨definitions, behind, hlenient, hall⟩ := exists_columns_emulate hrenders table
  refine ⟨?_, definitions, behind, hlenient, hall⟩
  rw [columns_strict hrenders table]
  cases hfirst : columns.find? (Stray columns) with
  | some c =>
      have hstray : Stray columns c := by simpa using List.find?_some hfirst
      exact iff_of_true ⟨_, rfl, rfl⟩ ⟨c, List.mem_of_find?_eq_some hfirst, hstray⟩
  | none =>
      refine iff_of_false ?_ ?_
      · rintro ⟨e, he, -⟩
        rw [hlenient] at he
        cases he
      · rintro ⟨c, hc, hstray⟩
        exact List.find?_eq_none.1 hfirst c hc (decide_eq_true hstray)

/-- A numbered column with a key name of its own is the whole key; with a second key column it is
refused. -/
theorem autoincrement_columns_namedKey :
    let strict := Profile.of .sqlite .strict {}
    let lenient := Profile.of .sqlite .emulate {}
    let id := ((Column.ofType "id" .int64).asPrimaryKeyNamed "pk_orders").asIdentity
    let line := (Column.ofType "line" .int32).asPrimaryKey
    (strict.columns [id] "orders").map (Sql.write strict.quoter) =
        .ok "\"id\" INTEGER NOT NULL PRIMARY KEY AUTOINCREMENT" ∧
      strict.columns [id, line] "orders" =
        .error (.unsupported .sqlite (.autoincrement "id" "orders")) ∧
      ((∃ e, strict.columns [id, line] "orders" = .error e ∧ e.isUnsupported = true) ↔
        ∃ c ∈ [id, line], c.isIdentity = true ∧ keyColumns [id, line] ≠ [c]) ∧
      ∃ definitions behind,
        lenient.columns [id, line] "orders" = .ok (Sql.list (definitions ++ behind)) ∧
        List.Forall₂ (fun c definition =>
          lenient.column c "orders" (!lenient.hoistsKey [id, line]) = .ok definition ∧
          (Says "AUTOINCREMENT" definition ↔ c.isIdentity = true ∧ keyColumns [id, line] = [c]))
          [id, line] definitions ∧
        ∀ clause ∈ behind, ¬ Says "AUTOINCREMENT" clause := by
  intro strict lenient id line
  have htype : ∀ c ∈ [id, line], strict.nativeType c = .ok [.code "INTEGER"] ∧
      c.defaultValue = none := by decide +kernel
  have hrenders : ∀ c ∈ [id, line], c.Renders strict := by
    intro c hc
    obtain ⟨htype, hdefault⟩ := htype c hc
    exact ⟨⟨_, htype⟩, fun v hv => by rw [hdefault] at hv; cases hv⟩
  exact ⟨by decide +kernel, by decide +kernel, autoincrement_columns hrenders⟩

end SchemaChange
