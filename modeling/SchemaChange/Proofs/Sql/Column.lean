import SchemaChange.Proofs.Sql.Forms
import SchemaChange.Proofs.Sql.Outcome
import SchemaChange.Proofs.Sql.OwnSql
import SchemaChange.Sql.Column

/-!
# Columns in scripts

The definitions of columns and foreign keys are read as wholes. Only an empty collation can
leave a blank at the end of a definition.
-/
namespace SchemaChange

open Script Sql

/-- A profile under a policy that wraps every name, of any dialect but the one with blocks. -/
structure Profile.Wraps (p : Profile) (mark : Char) : Prop where
  wraps : p.quoter.Wraps mark
  notOracle : p.dialect ≠ .oracle
  same : p.quoter.dialect = p.dialect
  templates : ∀ r ∈ p.typeMap.registrations, isTemplate r.template
  schema : ∀ s, p.quoter.defaultSchema = some s → p.quoter.isQuoted s = false
  named : .name ∈ p.clauseOrder
  length : Naming.digestDigits + 1 < p.maxNameLength
  forms : p.forms.Sound p.quoter

/-- Every such profile wraps its names. -/
theorem wraps_of {d : Dialect} (hd : d ≠ .oracle) (mode : Mode) (o : Options)
    (hpolicy : (Profile.of d mode o).quoter.policy = .always) :
    ∃ mark, (Profile.of d mode o).Wraps mark := by
  obtain ⟨mark, hq⟩ := wraps_profile hd mode o hpolicy
  have htemplates := registrations_isTemplate hd mode o
  refine ⟨mark, ?_⟩
  cases d with
  | oracle => exact absurd rfl hd
  | postgres =>
      refine ⟨hq, hd, rfl, htemplates, ?_, .head _, ?_, Forms.sound_postgres _⟩
      · rintro _ ⟨⟩
        exact hq.isQuoted_of_head (c := 'p') (by decide) (by decide)
      · exact (by decide : Naming.digestDigits + 1 < 63)
  | snowflake =>
      refine ⟨hq, hd, rfl, htemplates, ?_, .head _, ?_, Forms.sound_snowflake _⟩
      · rintro _ ⟨⟩
        exact hq.isQuoted_of_head (c := 'P') (by decide) (by decide)
      · exact (by decide : Naming.digestDigits + 1 < 255)
  | sqlServer =>
      refine ⟨hq, hd, rfl, htemplates, ?_, .head _, ?_, Forms.sound_sqlServer _⟩
      · rintro _ ⟨⟩
        exact hq.isQuoted_of_head (c := 'd') (by decide) (by decide)
      · exact (by decide : Naming.digestDigits + 1 < 128)
  | mySql =>
      exact ⟨hq, hd, rfl, htemplates, nofun, .head _,
        (by decide : Naming.digestDigits + 1 < 64), Forms.sound_mySql _⟩
  | sqlite =>
      exact ⟨hq, hd, rfl, htemplates, nofun, .head _,
        (by decide : Naming.digestDigits + 1 < 128), Forms.sound_sqlite _⟩
  | hana =>
      exact ⟨hq, hd, rfl, htemplates, nofun, .head _,
        (by decide : Naming.digestDigits + 1 < 127), Forms.sound_hana _⟩

/-- A column whose definition holds no foreign SQL. Where the condition holds, it has no
empty collation. -/
structure Column.Fits (c : Column) (q : Quoter) (tight : Prop) : Prop where
  names : Unquoted q c.names
  values : ∀ v ∈ c.literals, v.isOwn
  type : c.customType = none
  collation : q.dialect ≠ .postgres → c.collation = none
  tight : tight → c.collation ≠ some ""
  ne_empty : c.name ≠ ""

/-- A column stays so without a value for existing rows. -/
theorem Column.Fits.fresh {c : Column} {q : Quoter} {tight : Prop} (h : c.Fits q tight)
    (nullable : Option Bool) (description : Option String) :
    ({ c with nullable, description, existingRows := none } : Column).Fits q tight :=
  ⟨h.names, fun v hv => h.values v (by simp_all [literals]), h.type, h.collation, h.tight,
    h.ne_empty⟩

namespace Profile.Wraps

variable {p : Profile} {mark : Char} {tight : Prop}

theorem literal (hp : p.Wraps mark) (tight : Prop) {v : Literal} (hv : v.isOwn) :
    Yields (v.sql p.dialect) (Closing p.quoter tight) := by
  intro sql h
  rw [← hp.same] at h
  exact closing_literal (hp.same ▸ hp.notOracle) hv h

theorem object (hp : p.Wraps mark) {n : ObjectName}
    (hn : Unquoted p.quoter n.names) (hne : tight → n.name ≠ "") :
    Closing p.quoter tight (p.quoter.object n) := by
  refine hp.wraps.closing_object (fun schema hs => ?_) hn.head hne
  rw [Quoter.schemaOf?] at hs
  rcases Option.or_eq_some_iff.1 hs with hs | ⟨-, hs⟩
  · exact hn schema (by simp [ObjectName.names, (Option.filter_eq_some_iff.1 hs).1])
  · exact hp.schema schema hs

end Profile.Wraps

section Clauses

variable {p : Profile} {mark : Char} {tight : Prop} {c : Column}

theorem closing_columnName (hp : p.Wraps mark) (hc : c.Fits p.quoter tight) {always : Prop} :
    Closing p.quoter always (Sql.name c.name) :=
  hp.wraps.closing_name hc.names.head fun _ => hc.ne_empty

theorem isVoid_of_mem {sql : Sql} {c : Char} (hc : c ∈ sql.chars p.quoter) :
    p.isVoid sql = false := by
  rw [Profile.isVoid, Bool.eq_false_iff, Ne, String.isEmpty_iff]
  intro he
  rw [← toList_write, he] at hc
  cases hc

theorem isVoid_of_ends {sql : Sql} (h : Ends p.quoter sql) : p.isVoid sql = false := by
  obtain ⟨c, hc, -⟩ := h
  exact isVoid_of_mem (List.mem_of_getLast? hc)

theorem yields_nativeType (hp : p.Wraps mark) (hc : c.Fits p.quoter tight) :
    Yields (p.nativeType c) (Closing p.quoter tight) := by
  rw [Profile.nativeType, hc.type]
  refine yields_bind _ fun sql hsql => yields_ok ?_
  exact closing_typeMap hp.templates hsql

theorem yields_columnType (hp : p.Wraps mark) (hc : c.Fits p.quoter tight) :
    Yields (p.columnType c) (Closing p.quoter tight) := by
  rw [Profile.columnType]
  split
  · refine yields_ok ?_
    rw [Profile.serialType.eq_def]
    split <;> exact .word (by decide)
  · exact yields_nativeType hp hc

theorem closing_collationName (hp : p.Wraps mark) (hc : c.Fits p.quoter tight)
    {collation : String} (h : c.collation = some collation) :
    Closing p.quoter tight (p.collationName collation) := by
  have hpostgres : p.dialect = .postgres := Decidable.byContradiction fun hne => by
    rw [hc.collation (hp.same ▸ hne)] at h
    cases h
  rw [Profile.collationName, if_pos hpostgres]
  refine hp.wraps.closing_name (hc.names _ (by simp [Column.names, h])) fun ht he => ?_
  exact hc.tight ht (he ▸ h)

theorem closing_defaultName (hp : p.Wraps mark) (table column : String) :
    Closing p.quoter tight (Sql.name (p.defaultConstraintName table column)) := by
  have hpattern : "DF_{table}_{column}".toList = 'D' :: "F_{table}_{column}".toList := by decide
  exact hp.wraps.closing_derived hpattern (by decide) _ hp.length tight

theorem yields_defaultClause (hp : p.Wraps mark) (hc : c.Fits p.quoter tight) (table : String) :
    Yields (p.defaultClause c table) fun sql => sql = [] ∨ Closing p.quoter tight sql := by
  rw [Profile.defaultClause]
  split
  · exact yields_ok (.inl rfl)
  · rename_i v hv
    have hown := hc.values v (by simp [Column.literals, hv])
    refine (hp.literal tight hown).bind fun sql hsql => ?_
    split
    · have hname : Closing p.quoter True (Sql.name (p.defaultConstraintName table c.name)) :=
        closing_defaultName hp table c.name
      simp only [List.append_assoc]
      exact yields_ok (.inr (.lead (by decide) (.then hname.woven (by decide) hsql)))
    · exact yields_ok (.inr (.lead (by decide) hsql))

theorem yields_clause (hp : p.Wraps mark) (hc : c.Fits p.quoter tight) (table : String)
    (inlineKey : Bool) (clause : Clause) :
    Yields (p.clause c table inlineKey clause) fun sql =>
      p.isVoid sql = true ∨ Closing p.quoter tight sql := by
  have empty : p.isVoid [] = true := rfl
  cases clause with
  | name => exact yields_ok (.inr (closing_columnName hp hc))
  | type => exact (yields_columnType hp hc).mono fun _ => .inr
  | collation =>
      refine yields_ok ?_
      rw [Profile.collationClause]
      split
      · rename_i collation h
        exact .inr (.lead (by decide) (closing_collationName hp hc h))
      · exact .inl empty
  | nullable =>
      refine yields_ok ?_
      rw [Profile.nullableClause]
      split
      · exact .inr (.word (by decide))
      · split
        · exact .inr (.word (by decide))
        · exact .inl empty
  | default =>
      refine (yields_defaultClause hp hc table).mono fun sql h => h.imp_left ?_
      rintro rfl
      exact empty
  | primaryKey =>
      refine yields_ok ?_
      rw [Profile.primaryKeyMark]
      split
      · split <;> exact .inr (.word (by decide))
      · exact .inl empty
  | identity =>
      refine yields_ok ?_
      rw [Profile.identityMark]
      split
      · cases hd : p.dialect with
        | oracle => exact absurd hd hp.notOracle
        | postgres | sqlite => exact .inl rfl
        | sqlServer | mySql | hana | snowflake => exact .inr (.word (by decide))
      · exact .inl empty
  | description =>
      refine yields_ok ?_
      rw [Profile.descriptionClause]
      split
      · exact .inr (.lead (by decide) (closing_text _ _))
      · exact .inl empty

/-- The definition of a column. -/
theorem yields_column (hp : p.Wraps mark) (hc : c.Fits p.quoter tight) (table : String)
    (inlineKey : Bool) : Yields (p.column c table inlineKey) (Closing p.quoter tight) := by
  rw [Profile.column]
  refine yields_after (yields_bind _ fun parts hparts => yields_ok ?_)
  have hall :=
    yields_mapM (fun clause _ => yields_clause hp hc table inlineKey clause) parts hparts
  obtain ⟨part, hmem, hname⟩ := mem_of_mapM hparts hp.named
  refine .join (by decide) ?_ fun part hpart => ?_
  · have hvoid : p.isVoid part = false := by
      cases hname
      exact isVoid_of_ends ((closing_columnName hp hc).ends trivial)
    exact List.ne_nil_of_mem (List.mem_filter.2 ⟨hmem, by simp [hvoid]⟩)
  · obtain ⟨hpart, hvoid⟩ := List.mem_filter.1 hpart
    exact (hall part hpart).resolve_left (by simpa using hvoid)

/-- The primary key behind the columns. -/
theorem woven_keyClause (hp : p.Wraps mark) {columns : List Column}
    (hcolumns : ∀ c ∈ columns, c.Fits p.quoter tight) :
    Woven p.quoter (Profile.keyClause columns) := by
  have hkeys : ∀ n ∈ (columns.filter (·.isPrimaryKey)).map (·.name),
      p.quoter.isQuoted n = false := by
    intro n hn
    obtain ⟨c, hc, rfl⟩ := List.mem_map.1 hn
    exact (hcolumns c (List.mem_filter.1 hc).1).names.head
  have hkey : Woven p.quoter ("PRIMARY KEY (" ++
      Sql.names ((columns.filter (·.isPrimaryKey)).map (·.name)) ++ ")") := by
    rw [List.append_assoc]
    exact .lead (by decide) (.last (hp.wraps.woven_names hkeys) (by decide))
  rw [Profile.keyClause]
  split
  · rename_i name hname
    obtain ⟨c, hc, hcname⟩ := List.exists_of_findSome?_eq_some hname
    have hn := (hcolumns c hc).names name (by simp [Column.names, hcname])
    simp only [List.append_assoc] at hkey ⊢
    exact .lead (by decide) (.then (hp.wraps.woven_name hn) (by decide) hkey)
  · exact hkey

/-- The columns of a table with its primary key. -/
theorem yields_columns (hp : p.Wraps mark) {columns : List Column}
    (hcolumns : ∀ c ∈ columns, c.Fits p.quoter tight) (table : String) :
    Yields (p.columns columns table) (Woven p.quoter) := by
  refine (yields_mapM fun c hc => yields_column hp (hcolumns c hc) table _).bind fun parts hparts =>
    yields_ok (.list fun part hpart => ?_)
  split at hpart
  · rcases List.mem_append.1 hpart with hpart | hpart
    · exact (hparts part hpart).woven
    · rw [List.mem_singleton.1 hpart]
      exact woven_keyClause hp hcolumns
  · exact (hparts part hpart).woven

end Clauses

section ForeignKeys

variable {p : Profile} {mark : Char} {tight : Prop} {k : ForeignKey}

theorem yields_onDelete (hp : p.Wraps mark) (k : ForeignKey) :
    Yields (p.onDelete k) (Optional p.quoter) := by
  rw [Profile.onDelete]
  split
  · exact yields_ok (.inl rfl)
  · rename_i words hwords
    rw [if_neg fun h => hp.notOracle h.1]
    refine yields_ok ?_
    cases hrule : k.onDelete <;> rw [hrule] at hwords <;> cases hwords <;>
      exact optional_word (by decide)

theorem yields_onUpdate (hp : p.Wraps mark) (k : ForeignKey) :
    Yields (p.onUpdate k) (Optional p.quoter) := by
  rw [Profile.onUpdate]
  split
  · exact yields_ok (.inl rfl)
  · rename_i words hwords
    rw [if_neg hp.notOracle]
    refine yields_ok ?_
    cases hrule : k.onUpdate <;> rw [hrule] at hwords <;> cases hwords <;>
      exact optional_word (by decide)

/-- The constraint of a foreign key. -/
theorem yields_foreignKey (hp : p.Wraps mark) (hk : Unquoted p.quoter k.names) :
    Yields (p.foreignKey k) (Closing p.quoter tight) := by
  have hname : Woven p.quoter (Sql.name (p.foreignKeyName k)) := by
    rw [Profile.foreignKeyName]
    cases hk' : k.name with
    | some name => exact hp.wraps.woven_name (hk name (by simp [ForeignKey.names, hk']))
    | none =>
        have hpattern :
            "FK_{foreign_table}_{foreign_columns}_{primary_table}_{primary_columns}".toList = 'F' ::
              "K_{foreign_table}_{foreign_columns}_{primary_table}_{primary_columns}".toList := by
          decide
        exact (hp.wraps.closing_derived hpattern (by decide) _ hp.length True).woven
  have hforeign : Woven p.quoter (Sql.names k.foreignColumns) :=
    hp.wraps.woven_names fun n hn => hk n (by simp [ForeignKey.names, hn])
  have hprimary : Woven p.quoter (Sql.names k.primaryColumns) :=
    hp.wraps.woven_names fun n hn => hk n (by simp [ForeignKey.names, hn])
  have htable : Closing p.quoter False (p.quoter.object k.primaryTable) :=
    hp.object (fun n hn => hk n (by simp [ForeignKey.names, hn])) nofun
  refine yields_bind _ fun _ _ => (yields_onDelete hp k).bind fun onDelete hdelete =>
    (yields_onUpdate hp k).bind fun onUpdate hupdate => yields_ok ?_
  refine .optional (.optional ?_ hdelete) hupdate
  simp only [List.append_assoc]
  exact .lead (by decide) (.then hname (by decide) (.then hforeign (by decide)
    (.then htable.woven (by decide) (.last hprimary (by decide)))))

end ForeignKeys

end SchemaChange
