import SchemaChange.Proofs.Sql.PrimaryKey

/-!
# Columns that can be written

The definition of a column can be written wherever its type and its default value can, unless the
engine refuses to number it. Which of the library's own words the definition says is decided by the
clauses for NULL, for the key and for numbers.
-/
namespace SchemaChange

open Sql

/-- The dialect can write the type and the default value of a column. -/
structure Column.Renders (c : Column) (p : Profile) : Prop where
  type : ∃ sql, p.nativeType c = .ok sql
  default : ∀ v, c.defaultValue = some v → ∃ sql, v.sql p.dialect = .ok sql

namespace Column.Renders

variable {p : Profile} {c : Column}

theorem exists_clause (hc : c.Renders p) (table : String) (inlineKey : Bool) (clause : Clause) :
    ∃ sql, p.clause c table inlineKey clause = .ok sql := by
  cases clause with
  | type =>
      rw [Profile.clause, Profile.columnType]
      split
      · exact ⟨_, rfl⟩
      · exact hc.type
  | default =>
      rw [Profile.clause, Profile.defaultClause]
      split
      · exact ⟨_, rfl⟩
      · rename_i value hvalue
        obtain ⟨sql, hsql⟩ := hc.default value hvalue
        rw [hsql]
        by_cases hd : p.dialect = .sqlServer
        · exact ⟨_, if_pos hd⟩
        · exact ⟨_, if_neg hd⟩
  | name | collation | nullable | primaryKey | identity | description => exact ⟨_, rfl⟩

/-- The definition is written unless the engine refuses to number the column. -/
theorem exists_definition (hc : c.Renders p) (table : String) (inlineKey : Bool) :
    ∃ definition, p.column c table inlineKey =
      if p.dialect = .sqlite ∧ c.isIdentity ∧ !(inlineKey && c.isPrimaryKey) then
        p.unsupported (.autoincrement c.name table) >>= fun _ => .ok definition
      else .ok definition := by
  obtain ⟨parts, hparts⟩ := exists_mapM fun clause (_ : clause ∈ p.clauseOrder) =>
    hc.exists_clause table inlineKey clause
  refine ⟨Sql.join " " (parts.filter (!p.isVoid ·)), ?_⟩
  rw [Profile.column, hparts]
  rfl

end Column.Renders

section Parts

variable {p : Profile} {c : Column} {table : String} {inlineKey : Bool} {definition : Sql}

/-- A definition is made of the clauses of the column that are not empty. -/
theorem exists_parts (h : p.column c table inlineKey = .ok definition) :
    ∃ parts, p.clauseOrder.mapM (p.clause c table inlineKey) = .ok parts ∧
      definition = Sql.join " " (parts.filter (!p.isVoid ·)) := by
  have hall : Yields (p.column c table inlineKey) fun definition =>
      ∃ parts, p.clauseOrder.mapM (p.clause c table inlineKey) = .ok parts ∧
        definition = Sql.join " " (parts.filter (!p.isVoid ·)) := by
    unfold Profile.column
    exact yields_after (yields_bind _ fun parts hparts => yields_ok ⟨parts, hparts, rfl⟩)
  exact hall definition h

end Parts

section Says

variable {d : Dialect} {mode : Mode} {o : Options} {c : Column} {table : String}
  {inlineKey : Bool} {definition : Sql}

/-- All clauses but those for a collation and a description have their place in every definition. -/
theorem mem_clauseOrder (clause : Clause) (h : clause ∉ [.collation, .description]) :
    clause ∈ (Profile.of d mode o).clauseOrder := by
  rw [Profile.clauseOrder_of]
  cases clause with
  | collation | description => exact absurd (by decide) h
  | name | type | nullable | default | primaryKey | identity => cases d <;> decide

/-- A definition says what one of its clauses for NULL, for the key and for numbers says. -/
theorem says_column_iff (words : String) (hwords : words ∈ reservedWords)
    (h : (Profile.of d mode o).column c table inlineKey = .ok definition) :
    Says words definition ↔ Says words ((Profile.of d mode o).nullableClause c) ∨
      Says words ((Profile.of d mode o).primaryKeyMark c inlineKey) ∨
      Says words ((Profile.of d mode o).identityMark c) := by
  obtain ⟨parts, hparts, rfl⟩ := exists_parts h
  have hblank : ¬ Says words " " := by
    have hall : ∀ words ∈ reservedWords, ¬ Says words " " := by decide +kernel
    exact hall words hwords
  have hne : words.toList ≠ [] := by
    have hall : ∀ words ∈ reservedWords, words.toList ≠ [] := by decide
    exact hall words hwords
  rw [says_join hblank]
  constructor
  · rintro ⟨part, hpart, hsaid⟩
    obtain ⟨clause, -, hclause⟩ := exists_of_mem_mapM hparts (List.mem_filter.1 hpart).1
    cases clause with
    | nullable => cases hclause; exact .inl hsaid
    | primaryKey => cases hclause; exact .inr (.inl hsaid)
    | identity => cases hclause; exact .inr (.inr hsaid)
    | name | type | collation | default | description =>
        exact absurd hsaid (not_says_clause hwords (by decide) hclause)
  · have hpart : ∀ (clause : Clause) {sql}, clause ∉ [Clause.collation, .description] →
        (Profile.of d mode o).clause c table inlineKey clause = .ok sql → Says words sql →
        ∃ part ∈ parts.filter (!(Profile.of d mode o).isVoid ·), Says words part := by
      intro clause sql hclause hsql hsaid
      obtain ⟨part, hpart, hsame⟩ := mem_of_mapM hparts (mem_clauseOrder clause hclause)
      obtain rfl : sql = part := Except.ok.inj (hsql.symm.trans hsame)
      exact ⟨sql, List.mem_filter.2 ⟨hpart, by rw [not_isVoid_of_said hne hsaid]; rfl⟩, hsaid⟩
    rintro (hsaid | hsaid | hsaid)
    · exact hpart .nullable (by decide) rfl hsaid
    · exact hpart .primaryKey (by decide) rfl hsaid
    · exact hpart .identity (by decide) rfl hsaid

end Says

end SchemaChange
