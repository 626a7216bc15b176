import SchemaChange.Proofs.Sql.Scripts

/-!
# Reasons to fail

A valid definition of a table or a column fails for one of three reasons: the dialect lacks
something that was asked for, a column has no native type, or a value has no spelling. The
reasons of the steps of an operation are those of the whole.
-/
namespace SchemaChange

/-- Every failure of the operation has such a reason. -/
def FailsBy {α : Type} (reason : Error → Prop) (x : Except Error α) : Prop :=
  ∀ e, x = .error e → reason e

section FailsBy

variable {α β : Type} {reason : Error → Prop} {x : Except Error α}

theorem failsBy_ok (a : α) : FailsBy reason (.ok a : Except Error α) := nofun

theorem failsBy_error {e : Error} (h : reason e) : FailsBy reason (.error e : Except Error α) := by
  rintro _ ⟨⟩
  exact h

theorem FailsBy.bind {f : α → Except Error β} (hx : FailsBy reason x)
    (hf : ∀ a, FailsBy reason (f a)) : FailsBy reason (x >>= f) := by
  cases x with
  | error e => exact failsBy_error (hx e rfl)
  | ok a => exact hf a

theorem failsBy_mapM {f : α → Except Error β} {as : List α}
    (hf : ∀ a ∈ as, FailsBy reason (f a)) : FailsBy reason (as.mapM f) := by
  intro e he
  obtain ⟨before, a, after, rfl, -, ha⟩ := mapM_eq_error_iff.1 he
  exact hf a (by simp) e ha

/-- Work that first needs something in some case. -/
theorem FailsBy.after {c : Prop} [Decidable c] {first : Except Error β}
    (hx : FailsBy reason x) (hfirst : FailsBy reason first) :
    FailsBy reason (if c then first >>= fun _ => x else x) := by
  split
  · exact hfirst.bind fun _ => hx
  · exact hx

end FailsBy

/-- The reasons for which a type or a value of a column cannot be written are among these. -/
structure Column.Covered (c : Column) (p : Profile) (reason : Error → Prop) : Prop where
  type : FailsBy reason (p.nativeType c)
  values : ∀ v ∈ c.literals, FailsBy reason (v.sql p.dialect)

namespace Column.Covered

variable {c : Column} {p : Profile} {reason : Error → Prop}

/-- A column without what cannot be altered in place. -/
theorem plain (h : c.Covered p reason) :
    ({ c with defaultValue := none, isIdentity := false } : Column).Covered p reason :=
  ⟨h.type, fun v hv => h.values v (List.mem_append_right _ hv)⟩

/-- A column without a value for existing rows. -/
theorem fresh (h : c.Covered p reason) (nullable : Option Bool) (description : Option String) :
    ({ c with existingRows := none, nullable, description } : Column).Covered p reason := by
  refine ⟨h.type, fun v hv => h.values v (List.mem_append_left _ ?_)⟩
  simpa [Column.literals] using hv

theorem default (h : c.Covered p reason) {v : Literal} (hv : c.defaultValue = some v) :
    FailsBy reason (v.sql p.dialect) := h.values v (by simp [Column.literals, hv])

theorem existingRows (h : c.Covered p reason) {v : Literal} (hv : c.existingRows = some v) :
    FailsBy reason (v.sql p.dialect) := h.values v (by simp [Column.literals, hv])

end Column.Covered

section Definitions

variable {reason : Error → Prop} {p : Profile} {c : Column}

theorem failsBy_unsupported (hmissing : ∀ d feature, reason (.unsupported d feature))
    (feature : Feature) : FailsBy reason (p.unsupported feature) := by
  unfold Profile.unsupported
  split
  · exact failsBy_error (hmissing _ _)
  · exact failsBy_ok ()

theorem failsBy_skip (hmissing : ∀ d feature, reason (.unsupported d feature))
    (feature : Feature) : FailsBy reason (p.skip feature) := by
  unfold Profile.skip
  exact (failsBy_unsupported hmissing feature).bind fun _ => failsBy_ok []

theorem failsBy_columnType (hc : c.Covered p reason) : FailsBy reason (p.columnType c) := by
  unfold Profile.columnType
  split
  · exact failsBy_ok _
  · exact hc.type

theorem failsBy_defaultClause (hc : c.Covered p reason) (table : String) :
    FailsBy reason (p.defaultClause c table) := by
  unfold Profile.defaultClause
  split
  · exact failsBy_ok _
  · rename_i value hvalue
    refine (hc.default hvalue).bind fun sql => ?_
    split <;> exact failsBy_ok _

theorem failsBy_clause (hc : c.Covered p reason) (table : String) (inlineKey : Bool)
    (clause : Clause) : FailsBy reason (p.clause c table inlineKey clause) := by
  cases clause with
  | type => exact failsBy_columnType hc
  | default => exact failsBy_defaultClause hc table
  | name | collation | nullable | primaryKey | identity | description => exact failsBy_ok _

theorem failsBy_addDefault (hc : c.Covered p reason) (table : ObjectName) {value : Literal}
    (hvalue : c.defaultValue = some value) :
    FailsBy reason (p.addDefault table c.name value) := by
  unfold Profile.addDefault
  exact (hc.default hvalue).bind fun _ => failsBy_ok _

theorem failsBy_alterColumnParts (hc : c.Covered p reason) (table : ObjectName) :
    FailsBy reason (p.alterColumnParts table c) := by
  unfold Profile.alterColumnParts
  refine hc.type.bind fun type => ?_
  dsimp only
  split
  · rename_i value hvalue
    exact (hc.default hvalue).bind fun _ => failsBy_ok _
  · exact failsBy_ok _

variable (hmissing : ∀ d feature, reason (.unsupported d feature))
include hmissing

theorem failsBy_column (hc : c.Covered p reason) (table : String) (inlineKey : Bool) :
    FailsBy reason (p.column c table inlineKey) := by
  have hparts : FailsBy reason (p.clauseOrder.mapM (p.clause c table inlineKey)) :=
    failsBy_mapM fun clause _ => failsBy_clause hc table inlineKey clause
  unfold Profile.column
  exact (hparts.bind fun _ => failsBy_ok _).after (failsBy_unsupported hmissing _)

theorem failsBy_addColumn (hc : c.Covered p reason) (table : ObjectName) :
    FailsBy reason (p.addColumn table c) := by
  unfold Profile.addColumn
  exact (failsBy_column hmissing hc table.name true).bind fun _ => failsBy_ok _

theorem failsBy_columns {columns : List Column} (hc : ∀ c ∈ columns, c.Covered p reason)
    (table : String) : FailsBy reason (p.columns columns table) := by
  unfold Profile.columns
  have hparts := failsBy_mapM fun c h =>
    failsBy_column hmissing (hc c h) table (!p.hoistsKey columns)
  exact hparts.bind fun _ => failsBy_ok _

theorem failsBy_onDelete (k : ForeignKey) : FailsBy reason (p.onDelete k) := by
  unfold Profile.onDelete
  split
  · exact failsBy_ok _
  · split
    · exact (failsBy_unsupported hmissing _).bind fun _ => failsBy_ok _
    · exact failsBy_ok _

theorem failsBy_onUpdate (k : ForeignKey) : FailsBy reason (p.onUpdate k) := by
  unfold Profile.onUpdate
  split
  · exact failsBy_ok _
  · split
    · exact (failsBy_unsupported hmissing _).bind fun _ => failsBy_ok _
    · exact failsBy_ok _

/-- A valid key passes its own check again. -/
theorem failsBy_foreignKey {k : ForeignKey} (hk : k.check = .ok ()) :
    FailsBy reason (p.foreignKey k) := by
  unfold Profile.foreignKey
  rw [hk]
  exact (failsBy_ok ()).bind fun _ => (failsBy_onDelete hmissing k).bind fun _ =>
    (failsBy_onUpdate hmissing k).bind fun _ => failsBy_ok _

theorem failsBy_createForeignKey {k : ForeignKey} (hk : k.check = .ok ()) :
    FailsBy reason (p.createForeignKey k) := by
  unfold Profile.createForeignKey
  split
  · exact failsBy_skip hmissing _
  · exact (failsBy_foreignKey hmissing hk).bind fun _ => failsBy_ok _

theorem failsBy_createIndex (ix : Index) : FailsBy reason (p.createIndex ix) := by
  have hclustered : FailsBy reason (p.clusteredWord ix) := by
    unfold Profile.clusteredWord
    split
    · exact failsBy_ok _
    · split
      · exact failsBy_ok _
      · exact (failsBy_unsupported hmissing _).bind fun _ => failsBy_ok _
  unfold Profile.createIndex
  split
  · exact hclustered.bind fun _ => failsBy_ok _
  · exact failsBy_skip hmissing _

theorem failsBy_createTable {t : Table} (hc : ∀ c ∈ t.columns, c.Covered p reason)
    (hkeys : ∀ k ∈ t.foreignKeys, k.check = .ok ()) : FailsBy reason (p.createTable t) := by
  have hinner : FailsBy reason (t.foreignKeys.mapM p.foreignKey) :=
    failsBy_mapM fun k hk => failsBy_foreignKey hmissing (hkeys k hk)
  have hlater : FailsBy reason (t.foreignKeys.mapM p.createForeignKey) :=
    failsBy_mapM fun k hk => failsBy_createForeignKey hmissing (hkeys k hk)
  have hindexes : FailsBy reason (t.indexes.mapM p.createIndex) :=
    failsBy_mapM fun ix _ => failsBy_createIndex hmissing ix
  unfold Profile.createTable
  refine (failsBy_columns hmissing hc t.name.name).bind fun columns => ?_
  dsimp only
  split
  · refine hinner.bind fun inner => ?_
    exact (failsBy_ok []).bind fun keys => hindexes.bind fun indexes => failsBy_ok _
  · refine (failsBy_ok []).bind fun inner => ?_
    exact hlater.bind fun keys => hindexes.bind fun indexes => failsBy_ok _

theorem failsBy_alterBoundColumn (hc : c.Covered p reason) (table : ObjectName) :
    FailsBy reason (p.alterBoundColumn table c) := by
  unfold Profile.alterBoundColumn
  refine FailsBy.after ?_ (failsBy_unsupported hmissing _)
  refine (failsBy_column hmissing hc.plain table.name false).bind fun definition => ?_
  dsimp only
  split
  · exact failsBy_ok _
  · rename_i value hvalue
    exact (failsBy_addDefault hc table hvalue).bind fun _ => failsBy_ok _

theorem failsBy_alterTypeAndNull (hc : c.Covered p reason) (table : ObjectName) :
    FailsBy reason (p.alterTypeAndNull table c) := by
  unfold Profile.alterTypeAndNull
  exact (hc.type.bind fun _ => failsBy_ok _).after (failsBy_unsupported hmissing _)

theorem failsBy_alterColumn (hc : c.Covered p reason) (table : ObjectName) :
    FailsBy reason (p.alterColumn table c) := by
  unfold Profile.alterColumn
  dsimp only
  split
  · exact (failsBy_alterBoundColumn hmissing hc table).bind fun _ => failsBy_ok _
  · exact (failsBy_alterColumnParts hc table).bind fun _ => failsBy_ok _
  · exact (failsBy_alterTypeAndNull hmissing hc table).bind fun _ => failsBy_ok _
  · split
    · exact failsBy_skip hmissing _
    · exact (failsBy_column hmissing hc table.name false).bind fun _ => failsBy_ok _

theorem failsBy_createColumn (hc : c.Covered p reason) (table : ObjectName) :
    FailsBy reason (p.createColumn table c) := by
  unfold Profile.createColumn
  dsimp only
  split
  · rename_i value hvalue
    split
    · refine (failsBy_addColumn hmissing (hc.fresh _ _) table).bind fun add => ?_
      have hfill : FailsBy reason (p.assignment c.name value) := by
        unfold Profile.assignment
        exact (hc.existingRows hvalue).bind fun _ => failsBy_ok _
      refine hfill.bind fun fill => FailsBy.bind ?_ fun _ => failsBy_ok _
      split
      · exact failsBy_alterColumn hmissing (hc.fresh _ _) table
      · exact failsBy_alterColumn hmissing (hc.fresh _ _) table
    · exact (failsBy_addColumn hmissing hc table).bind fun _ => failsBy_ok _
  · exact (failsBy_addColumn hmissing hc table).bind fun _ => failsBy_ok _

end Definitions

section Changes

/-- A change of the definition of a table or of a column. -/
def Change.isDefinition : Change → Bool
  | createTable .. | alterTable .. | createColumn .. | alterColumn .. => true
  | _ => false

/-- The foreign keys of a valid table are valid. -/
theorem Table.check_foreignKeys {t : Table} (h : t.check = .ok ()) :
    ∀ k ∈ t.foreignKeys, k.check = .ok () := by
  obtain ⟨-, h⟩ := check_bind h
  obtain ⟨-, h⟩ := check_bind h
  obtain ⟨-, h⟩ := check_bind h
  exact check_of_forM (check_bind h).1

/-- Why a profile does not write a change: the dialect lacks a feature, or a type or a value of
its columns cannot be written. -/
inductive Change.Unwritten (change : Change) (p : Profile) (e : Error) : Prop
  | missing (h : e.isUnsupported = true)
  | type {c : Column} (hc : c ∈ change.columns) (h : p.nativeType c = .error e)
  | value {v : Literal} (hv : v ∈ change.literals) (h : v.sql p.dialect = .error e)

/-- The values of the columns are among those of the change. -/
theorem Change.mem_literals {change : Change} {c : Column} (hc : c ∈ change.columns) {v : Literal}
    (hv : v ∈ c.literals) : v ∈ change.literals := by
  cases change with
  | createTable | createColumn | alterColumn => exact List.mem_flatMap.2 ⟨c, hc, hv⟩
  | _ => cases hc

theorem Change.covered (p : Profile) {change : Change} {c : Column} (hc : c ∈ change.columns) :
    c.Covered p (change.Unwritten p) :=
  ⟨fun _ h => .type hc h, fun _ hv _ h => .value (mem_literals hc hv) h⟩

/-- What a valid definition fails by. -/
theorem failsBy_statementTexts (p : Profile) {change : Change} (hcheck : change.check = .ok ())
    (hdefinition : change.isDefinition = true) :
    FailsBy (change.Unwritten p) (p.statementTexts change) := by
  have hmissing : ∀ d feature, change.Unwritten p (.unsupported d feature) :=
    fun _ _ => .missing rfl
  unfold Profile.statementTexts Profile.statements Change.validate
  rw [hcheck]
  refine FailsBy.bind (FailsBy.bind (failsBy_ok ()) fun _ => ?_) fun _ => failsBy_ok _
  cases change with
  | createTable table =>
      exact failsBy_createTable hmissing (fun c hc => Change.covered p hc)
        (Table.check_foreignKeys hcheck)
  | alterTable table description => exact failsBy_ok _
  | createColumn table column =>
      exact failsBy_createColumn hmissing (Change.covered p (.head _)) table
  | alterColumn table column =>
      exact failsBy_alterColumn hmissing (Change.covered p (.head _)) table
  | _ => cases hdefinition

/-- A type is the one thing that a native type can lack. -/
theorem exists_noType {p : Profile} {c : Column} {e : Error} (h : p.nativeType c = .error e) :
    ∃ cause, e = .noType cause := by
  have hget : FailsBy (fun e => ∃ cause, e = .noType cause)
      (p.typeMap.get (c.dbType.getD .string) c.size c.precision) := by
    unfold TypeMap.get
    refine FailsBy.bind ?_ fun _ => failsBy_ok _
    cases p.typeMap.bucket (c.dbType.getD .string) (c.size.getD 0).toNat with
    | error cause => exact failsBy_error ⟨cause, rfl⟩
    | ok capacity => exact failsBy_ok capacity
  have hnative : FailsBy (fun e => ∃ cause, e = .noType cause) (p.nativeType c) := by
    unfold Profile.nativeType
    split
    · exact failsBy_ok _
    · exact hget.bind fun _ => failsBy_ok _
  exact hnative e h

/-- A value without a spelling is a system method or a number that is not finite. -/
theorem literal_error {d : Dialect} {v : Literal} {e : Error} (h : v.sql d = .error e) :
    e.isUnsupported = true ∨
      ∃ x, v = .float x ∧ x.isFinite = false ∧ e = .invalid (.notFinite x.toPlain) := by
  cases v with
  | float x =>
      rw [Literal.sql] at h
      split at h
      · cases h
      · rename_i hfinite
        cases h
        exact .inr ⟨x, rfl, Bool.not_eq_true _ ▸ hfinite, rfl⟩
  | systemMethod m =>
      rw [Literal.sql, Dialect.systemMethod] at h
      split at h
      · cases h
      · cases h
        exact .inl rfl
  | _ => cases h

end Changes

end SchemaChange
