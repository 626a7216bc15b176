import SchemaChange.Document.Table
import SchemaChange.Proofs.Document.Literal
import SchemaChange.Proofs.Sql.OwnSql

/-!
# Schema objects are read back

Each record is read from its own JSON, with every absent field absent again and the columns
of a constraint in their order. A record that holds literals is, if they are.
-/
namespace SchemaChange

open Json (Value Readable)
open Document
open Members (nullable?)

section Codes

@[simp] theorem DbType.ofCode?_code (t : DbType) : DbType.ofCode? t.code = some t := by
  cases t <;> rfl

@[simp] theorem Rule.ofCode?_code (r : Rule) : Rule.ofCode? r.code = some r := by
  cases r <;> rfl

@[simp] theorem Direction.ofCode?_code (d : Direction) : Direction.ofCode? d.code = some d := by
  cases d <;> rfl

@[simp] theorem ConstraintType.ofCode?_code (t : ConstraintType) :
    ConstraintType.ofCode? t.code = some t := by
  cases t <;> rfl

end Codes

section OptionalFields

@[simp] theorem nullable?_text (o : Option String) :
    nullable? text? (ofOption .string o) = some o :=
  Members.nullable?_ofOption (by simp) fun _ _ => rfl

@[simp] theorem nullable?_bool (o : Option Bool) :
    nullable? bool? (ofOption .bool o) = some o :=
  Members.nullable?_ofOption (by simp) fun _ _ => rfl

@[simp] theorem nullable?_uint32 (o : Option UInt32) :
    nullable? uint32? (ofOption (ofInt ·.toNat) o) = some o :=
  Members.nullable?_ofOption (by simp [ofInt]) fun n _ => uint32?_ofInt n

@[simp] theorem nullable?_int64 (o : Option Int64) :
    nullable? int64? (ofOption (ofInt ·.toInt) o) = some o :=
  Members.nullable?_ofOption (by simp [ofInt]) fun i _ => int64?_ofInt i

@[simp] theorem nullable?_dbType (o : Option DbType) :
    nullable? (choice? DbType.ofCode?) (ofOption (.string ·.code) o) = some o :=
  Members.nullable?_ofOption (by simp) fun t _ => t.ofCode?_code

theorem nullable?_literal {o : Option Literal} (h : ∀ l ∈ o.toList, l.Restores) :
    nullable? Literal.ofJson? (ofOption Literal.toJson o) = some o :=
  Members.nullable?_ofOption Literal.toJson_ne_null fun l hl => h l (by simp [hl])

end OptionalFields

namespace Column

/-- A column is read back if its values are. -/
theorem ofJson?_toJson {c : Column} (h : ∀ l ∈ c.literals, l.Restores) :
    ofJson? c.toJson = some c := by
  have hdefault := nullable?_literal fun l hl => h l (List.mem_append_left _ hl)
  have hexisting := nullable?_literal fun l hl => h l (List.mem_append_right _ hl)
  rw [ofJson?, toJson, record?_of_nodup (by simp)]
  -- field by field: rewriting below the remaining reads would visit each of them again
  refine Option.bind_eq_some_iff.2 ⟨_, rfl, ?_⟩
  refine Option.bind_eq_some_iff.2 ⟨c.name, by simp, ?_⟩
  refine Option.bind_eq_some_iff.2 ⟨c.dbType, by simp, ?_⟩
  refine Option.bind_eq_some_iff.2 ⟨c.customType, by simp, ?_⟩
  refine Option.bind_eq_some_iff.2 ⟨c.size, by simp, ?_⟩
  refine Option.bind_eq_some_iff.2 ⟨c.precision, by simp, ?_⟩
  refine Option.bind_eq_some_iff.2 ⟨c.nullable, by simp, ?_⟩
  refine Option.bind_eq_some_iff.2 ⟨c.defaultValue, by simp [hdefault], ?_⟩
  refine Option.bind_eq_some_iff.2 ⟨c.isIdentity, by simp, ?_⟩
  refine Option.bind_eq_some_iff.2 ⟨c.isPrimaryKey, by simp, ?_⟩
  refine Option.bind_eq_some_iff.2 ⟨c.primaryKeyName, by simp, ?_⟩
  refine Option.bind_eq_some_iff.2 ⟨c.collation, by simp, ?_⟩
  refine Option.bind_eq_some_iff.2 ⟨c.description, by simp, ?_⟩
  refine Option.bind_eq_some_iff.2 ⟨c.existingRows, by simp [hexisting], ?_⟩
  rfl

/-- Every value of a column that has been read has been read. -/
theorem decoded_of_mem_literals {c : Column} (h : Decoded ofJson? c) {l : Literal}
    (hl : l ∈ c.literals) : Decoded Literal.ofJson? l := by
  obtain ⟨v, hv⟩ := h
  -- the record itself and the six fields before the default
  iterate 7 obtain ⟨_, -, hv⟩ := Option.bind_eq_some_iff.1 hv
  obtain ⟨defaultValue, hdefault, hv⟩ := Option.bind_eq_some_iff.1 hv
  iterate 5 obtain ⟨_, -, hv⟩ := Option.bind_eq_some_iff.1 hv
  obtain ⟨existingRows, hexisting, hv⟩ := Option.bind_eq_some_iff.1 hv
  cases hv
  rcases List.mem_append.1 hl with hl | hl
  · exact decoded_of_optional? hdefault hl
  · exact decoded_of_optional? hexisting hl

theorem readable_toJson {depth : Nat} {c : Column} (h : ∀ l ∈ c.literals, l.IsExact) :
    Readable (depth + 3) c.toJson := by
  have hliteral : ∀ o : Option Literal, (∀ l ∈ o.toList, l.IsExact) →
      Readable (depth + 2) (ofOption Literal.toJson o) := fun o ho =>
    readable_ofOption fun l hl => Literal.readable_toJson (ho l (by simp [hl]))
  have hdefault := hliteral c.defaultValue fun l hl => h l (List.mem_append_left _ hl)
  have hexisting := hliteral c.existingRows fun l hl => h l (List.mem_append_right _ hl)
  refine .object ?_
  simp [hdefault, hexisting]

end Column

namespace ForeignKey

theorem ofJson?_toJson (k : ForeignKey) : ofJson? k.toJson = some k := by
  rw [ofJson?, toJson, record?_of_nodup (by simp [ObjectName.fields])]
  simp [ObjectName.fields, ObjectName.ofMembers?, choice?_string]

theorem readable_toJson {depth : Nat} (k : ForeignKey) : Readable (depth + 2) k.toJson := by
  refine .object ?_
  simp [ObjectName.fields]

end ForeignKey

namespace IndexColumn

theorem ofJson?_toJson (c : IndexColumn) : ofJson? c.toJson = some c := by
  rw [ofJson?, toJson, record?_of_nodup (by simp)]
  simp [choice?_string]

theorem readable_toJson {depth : Nat} (c : IndexColumn) : Readable (depth + 1) c.toJson := by
  refine .object ?_
  simp

end IndexColumn

namespace Index

theorem ofJson?_toJson (ix : Index) : ofJson? ix.toJson = some ix := by
  have hcolumns := list?_map fun c (_ : c ∈ ix.columns) => c.ofJson?_toJson
  rw [ofJson?, toJson, record?_of_nodup (by simp [ObjectName.fields])]
  simp [ObjectName.fields, ObjectName.ofMembers?, hcolumns]

theorem readable_toJson {depth : Nat} (ix : Index) : Readable (depth + 3) ix.toJson := by
  have hcolumns : Readable (depth + 2) (.array (ix.columns.map IndexColumn.toJson)) :=
    readable_array fun c _ => c.readable_toJson
  refine .object ?_
  simp [ObjectName.fields, hcolumns]

end Index

namespace Table

/-- A table is read back if the values of its columns are. -/
theorem ofJson?_toJson {t : Table}
    (h : ∀ l ∈ t.columns.flatMap Column.literals, l.Restores) :
    ofJson? t.toJson = some t := by
  have hcolumns := list?_map fun c hc => Column.ofJson?_toJson fun l hl =>
    h l (List.mem_flatMap.2 ⟨c, hc, hl⟩)
  have hforeignKeys := list?_map fun k (_ : k ∈ t.foreignKeys) => k.ofJson?_toJson
  have hindexes := list?_map fun ix (_ : ix ∈ t.indexes) => ix.ofJson?_toJson
  rw [ofJson?, toJson, record?_of_nodup (by simp [ObjectName.fields])]
  simp [ObjectName.fields, ObjectName.ofMembers?, hcolumns, hforeignKeys, hindexes]

/-- Every value of a table that has been read has been read. -/
theorem decoded_of_mem_literals {t : Table} (h : Decoded ofJson? t) {l : Literal}
    (hl : l ∈ t.columns.flatMap Column.literals) : Decoded Literal.ofJson? l := by
  obtain ⟨v, hv⟩ := h
  simp only [ofJson?, Option.pure_def, Option.bind_eq_bind, Option.bind_eq_some_iff] at hv
  obtain ⟨ms, -, name, -, columns, hcolumns, foreignKeys, -, indexes, -, description, -, ht⟩ :=
    hv
  cases ht
  obtain ⟨c, hc, hl⟩ := List.mem_flatMap.1 hl
  rcases eq_or_decoded_of_defaulted? hcolumns with rfl | ⟨w, hw⟩
  · cases hc
  · exact Column.decoded_of_mem_literals (decoded_of_list? hw c hc) hl

theorem readable_toJson {depth : Nat} {t : Table}
    (h : ∀ l ∈ t.columns.flatMap Column.literals, l.IsExact) :
    Readable (depth + 5) t.toJson := by
  have hcolumns : Readable (depth + 4) (.array (t.columns.map Column.toJson)) :=
    readable_array fun c hc => Column.readable_toJson fun l hl =>
      h l (List.mem_flatMap.2 ⟨c, hc, hl⟩)
  have hforeignKeys : Readable (depth + 4) (.array (t.foreignKeys.map ForeignKey.toJson)) :=
    readable_array fun k _ => k.readable_toJson
  have hindexes : Readable (depth + 4) (.array (t.indexes.map Index.toJson)) :=
    readable_array fun ix _ => ix.readable_toJson
  refine .object ?_
  simp [ObjectName.fields, hcolumns, hforeignKeys, hindexes]

end Table

namespace NameSet

theorem eq_of_names {s s' : NameSet} (h : s.names = s'.names) : s = s' := by
  cases s
  cases s'
  cases h
  rfl

/-- Names that a set does not have are appended in order. -/
theorem names_foldl_insert {names : List String} {s : NameSet}
    (h : (s.names ++ names).Nodup) : (names.foldl insert s).names = s.names ++ names := by
  induction names generalizing s with
  | nil => simp
  | cons name names ih =>
      have hnew : name ∉ s.names := by
        rw [List.nodup_append] at h
        exact fun hmem => h.2.2 name hmem name (by simp) rfl
      have hinsert : (s.insert name).names = s.names ++ [name] := by
        rw [insert, dif_neg hnew]
      rw [List.foldl_cons, ih (by simpa [hinsert] using h), hinsert, List.append_assoc,
        List.singleton_append]

/-- A set is made of its own names. -/
theorem ofList_names (s : NameSet) : ofList s.names = s := by
  refine eq_of_names ?_
  rw [ofList, names_foldl_insert (by simpa [empty] using s.nodup)]
  rfl

end NameSet

namespace Constraint

theorem ofJson?_toJson (c : Constraint) : ofJson? c.toJson = some c := by
  rw [ofJson?, toJson, record?_of_nodup (by simp [ObjectName.fields])]
  simp [ObjectName.fields, ObjectName.ofMembers?, choice?_string, NameSet.ofList_names]

theorem readable_toJson {depth : Nat} (c : Constraint) : Readable (depth + 2) c.toJson := by
  refine .object ?_
  simp [ObjectName.fields]

end Constraint

namespace Sequence

theorem ofJson?_toJson (s : Sequence) : ofJson? s.toJson = some s := by
  rw [ofJson?, toJson, record?_of_nodup (by simp [ObjectName.fields])]
  simp [ObjectName.fields, ObjectName.ofMembers?]

theorem readable_toJson {depth : Nat} (s : Sequence) : Readable (depth + 1) s.toJson := by
  refine .object ?_
  simp [ObjectName.fields]

end Sequence

end SchemaChange
