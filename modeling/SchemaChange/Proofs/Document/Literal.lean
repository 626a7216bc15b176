import SchemaChange.Document.Literal
import SchemaChange.Proofs.Calendar.RoundTrip
import SchemaChange.Proofs.Document.Fields
import SchemaChange.Proofs.Model.Guid

/-!
# Literals and rows are read back

A literal that has been read, other than a real number, is read from its own JSON again. So
is a row of such literals, in its order.
-/
namespace SchemaChange

open Json (Value Readable)
open Document

namespace SystemMethod

@[simp] theorem ofCode?_code (m : SystemMethod) : ofCode? m.code = some m := by
  cases m <;> rfl

end SystemMethod

namespace Literal

/-- The literal is read from its own JSON. -/
def Restores (l : Literal) : Prop := ofJson? l.toJson = some l

/-- A literal other than a real number. -/
def IsExact (l : Literal) : Prop := ∀ x, l ≠ float x

theorem toJson_ne_null (l : Literal) : l.toJson ≠ .null := by
  intro h
  cases h

theorem ofJson?_null : ofJson? null.toJson = some null := by decide +kernel

/-- The value of a literal of a kind is read by the reader of the kind. -/
theorem restores_of_decoder? {l : Literal} {v : Value} {decode : Decoder Literal}
    (hcontent : l.content? = some v) (hkind : l.kindCode ≠ "null")
    (hdecoder : decoder? l.kindCode = some decode) (h : decode v = some l) : l.Restores := by
  have hrecord : record? ["kind", "value"] l.toJson =
      some [("kind", .string l.kindCode), ("value", v)] := by
    rw [toJson, hcontent]
    exact record?_of_nodup (by simp) _
  rw [Restores, ofJson?, hrecord]
  simp [choice?_string, hkind, hdecoder, h]

/-- The reader of times with an offset is the only one that gives such a time. -/
theorem exists_of_decoded_dateTimeOffset {t : OffsetDateTime}
    (h : Decoded ofJson? (dateTimeOffset t)) :
    ∃ s, Calendar.readOffsetDateTime? s = some t := by
  obtain ⟨v, hv⟩ := h
  obtain ⟨ms, -, hms⟩ := Option.bind_eq_some_iff.1 hv
  obtain ⟨kind, -, hkind⟩ := Option.bind_eq_some_iff.1 hms
  split at hkind
  · split at hkind <;> cases hkind
  · obtain ⟨decode, hdecode, hvalue⟩ := Option.bind_eq_some_iff.1 hkind
    obtain ⟨w, -, hw⟩ := Option.bind_eq_some_iff.1 hvalue
    unfold decoder? at hdecode
    split at hdecode <;> cases hdecode
    all_goals simp [Option.bind_eq_some_iff] at hw
    obtain ⟨s, -, hread⟩ := hw
    exact ⟨s, hread⟩

/-- A literal that has been read and is no real number is read from its own JSON. -/
theorem restores_of_decoded {l : Literal} (h : Decoded ofJson? l) (hexact : l.IsExact) :
    l.Restores := by
  cases l with
  | null => exact ofJson?_null
  | string s => exact restores_of_decoder? rfl (by simp [kindCode]) rfl rfl
  | char c => exact restores_of_decoder? rfl (by simp [kindCode]) rfl (by simp [oneChar?])
  | bool b => exact restores_of_decoder? rfl (by simp [kindCode]) rfl rfl
  | int i => exact restores_of_decoder? rfl (by simp [kindCode]) rfl (by simp)
  | uint n => exact restores_of_decoder? rfl (by simp [kindCode]) rfl (by simp)
  | float x => exact absurd rfl (hexact x)
  | guid g =>
      exact restores_of_decoder? rfl (by simp [kindCode]) rfl (by simp [Guid.read?_hyphenated])
  | date d =>
      exact restores_of_decoder? rfl (by simp [kindCode]) rfl
        (by simp [Calendar.readDate?_text])
  | dateTime t =>
      have hread := Calendar.readDateTime?_text t
      exact restores_of_decoder? rfl (by simp [kindCode]) rfl
        (by simp only [text?_string, Option.bind_eq_bind, Option.bind_some, hread]; rfl)
  | dateTimeOffset t =>
      obtain ⟨s, hs⟩ := exists_of_decoded_dateTimeOffset h
      have hread := Calendar.readOffsetDateTime?_text
        (Calendar.ofParts?_of_readOffsetDateTime? hs)
      exact restores_of_decoder? rfl (by simp [kindCode]) rfl
        (by simp only [text?_string, Option.bind_eq_bind, Option.bind_some, hread]; rfl)
  | enum s => exact restores_of_decoder? rfl (by simp [kindCode]) rfl rfl
  | binary bytes =>
      have hread : list? byte? (.array (bytes.map fun b => ofInt b.toNat)) = some bytes :=
        list?_map fun b _ => byte?_ofInt b
      exact restores_of_decoder? rfl (by simp [kindCode]) rfl (by simp [hread])
  | systemMethod m =>
      exact restores_of_decoder? rfl (by simp [kindCode]) rfl (by simp [choice?_string])
  | function s => exact restores_of_decoder? rfl (by simp [kindCode]) rfl rfl

/-- A literal other than a real number nests two deep at most. -/
theorem readable_toJson {depth : Nat} {l : Literal} (hexact : l.IsExact) :
    Readable (depth + 2) l.toJson := by
  have hcontent : ∀ v, l.content? = some v → Readable (depth + 1) v := by
    intro v hv
    cases l <;> cases hv
    case bool b => exact .bool b
    case int i => exact readable_int64 i
    case uint n => exact readable_uint64 n
    case float x => exact absurd rfl (hexact x)
    case binary bytes => exact readable_array fun b _ => readable_byte b
    all_goals exact .string _
  refine .object fun member hmember => ?_
  rcases List.mem_cons.1 hmember with rfl | hmember
  · exact .string _
  · cases hvalue : l.content? with
    | none => simp [hvalue] at hmember
    | some v =>
        simp only [hvalue, Option.map_some, Option.toList_some, List.mem_singleton] at hmember
        subst hmember
        exact hcontent v hvalue

end Literal

namespace Row

theorem eq_of_entries {row row' : Row} (h : row.entries = row'.entries) : row = row' := by
  cases row
  cases row'
  cases h
  rfl

/-- Columns that a row does not have are appended in order. -/
theorem entries_foldl_set {entries : List (String × Literal)} {row : Row}
    (h : ((row.entries ++ entries).map (·.1)).Nodup) :
    (entries.foldl (fun row (column, value) => row.set column value) row).entries =
      row.entries ++ entries := by
  induction entries generalizing row with
  | nil => simp
  | cons entry entries ih =>
      have hnew : entry.1 ∉ row.entries.map (·.1) := by
        rw [List.map_append, List.nodup_append] at h
        exact fun hmem => h.2.2 entry.1 hmem entry.1 (by simp) rfl
      have hset : (row.set entry.1 entry.2).entries = row.entries ++ [entry] := by
        rw [set, dif_neg hnew]
      rw [List.foldl_cons, ih (by simpa [hset] using h), hset, List.append_assoc,
        List.singleton_append]

/-- A row is made of its own entries. -/
theorem ofList_entries (row : Row) : ofList row.entries = row := by
  refine eq_of_entries ?_
  rw [ofList, entries_foldl_set (by simpa [empty] using row.nodup)]
  rfl

theorem mem_values_set {row : Row} {column : String} {value l : Literal}
    (h : l ∈ (row.set column value).values) : l ∈ row.values ∨ l = value := by
  unfold set at h
  split at h
  · obtain ⟨entry, hentry, rfl⟩ := List.mem_map.1 h
    obtain ⟨old, hold, rfl⟩ := List.mem_map.1 hentry
    unfold replace
    split
    · exact .inr rfl
    · exact .inl (List.mem_map.2 ⟨old, hold, rfl⟩)
  · simpa [values] using h

theorem mem_values_foldl_set {entries : List (String × Literal)} {row : Row} {l : Literal}
    (h : l ∈ (entries.foldl (fun row (column, value) => row.set column value) row).values) :
    l ∈ row.values ∨ l ∈ entries.map (·.2) := by
  induction entries generalizing row with
  | nil => exact .inl h
  | cons entry entries ih =>
      rcases ih h with h | h
      · rcases mem_values_set h with h | h
        · exact .inl h
        · exact .inr (by simp [h])
      · exact .inr (List.mem_cons_of_mem _ h)

/-- Every value of a row is one of those that it is made of. -/
theorem mem_values_ofList {entries : List (String × Literal)} {l : Literal}
    (h : l ∈ (ofList entries).values) : l ∈ entries.map (·.2) := by
  rcases mem_values_foldl_set h with h | h
  · cases h
  · exact h

/-- The reader of one column with its value. -/
def cell? (member : String × Value) : Option (String × Literal) := do
  return (member.1, ← Literal.ofJson? member.2)

theorem ofJson?_object (members : Members) :
    ofJson? (.object members) = (members.mapM cell?).map ofList := by
  have hread : ofJson? (.object members) = (members.mapM cell?).bind fun entries =>
      some (ofList entries) := rfl
  rw [hread, Option.map_eq_bind]
  rfl

theorem mapM_cell?_toJson {entries : List (String × Literal)}
    (h : ∀ entry ∈ entries, entry.2.Restores) :
    (entries.map fun (column, value) => (column, value.toJson)).mapM cell? =
      some entries := by
  induction entries with
  | nil => rfl
  | cons entry entries ih =>
      have hentry : Literal.ofJson? entry.2.toJson = some entry.2 :=
        h entry (List.mem_cons_self ..)
      have hrest := ih fun other hother => h other (List.mem_cons_of_mem _ hother)
      rw [List.map_cons, List.mapM_cons, hrest]
      simp [cell?, hentry]

/-- A row is read back if each of its values is. -/
theorem ofJson?_toJson {row : Row} (h : ∀ l ∈ row.values, l.Restores) :
    ofJson? row.toJson = some row := by
  have hread := mapM_cell?_toJson fun entry hentry =>
    h entry.2 (List.mem_map.2 ⟨entry, hentry, rfl⟩)
  rw [toJson, ofJson?_object, hread, Option.map_some, ofList_entries]

theorem decoded_of_mapM_cell? {members : Members} {entries : List (String × Literal)}
    (h : members.mapM cell? = some entries) :
    ∀ entry ∈ entries, Decoded Literal.ofJson? entry.2 := by
  induction members generalizing entries with
  | nil =>
      cases h
      simp
  | cons member members ih =>
      simp only [List.mapM_cons, Option.pure_def, Option.bind_eq_bind, cell?,
        Option.bind_eq_some_iff] at h
      obtain ⟨entry, ⟨value, hvalue, hentry⟩, rest, hrest, hcons⟩ := h
      cases hentry
      cases hcons
      exact List.forall_mem_cons.2 ⟨⟨member.2, hvalue⟩, ih hrest⟩

/-- Every value of a row that has been read has been read. -/
theorem decoded_of_mem_values {row : Row} (h : Decoded ofJson? row) {l : Literal}
    (hl : l ∈ row.values) : Decoded Literal.ofJson? l := by
  obtain ⟨v, hv⟩ := h
  cases v with
  | object members =>
      rw [ofJson?_object] at hv
      obtain ⟨entries, hentries, rfl⟩ := Option.map_eq_some_iff.1 hv
      obtain ⟨entry, hentry, rfl⟩ := List.mem_map.1 (mem_values_ofList hl)
      exact decoded_of_mapM_cell? hentries entry hentry
  | _ => cases hv

/-- A row without real numbers nests three deep at most. -/
theorem readable_toJson {depth : Nat} {row : Row} (h : ∀ l ∈ row.values, l.IsExact) :
    Readable (depth + 3) row.toJson := by
  refine .object fun member hmember => ?_
  obtain ⟨entry, hentry, rfl⟩ := List.mem_map.1 hmember
  exact Literal.readable_toJson (h entry.2 (List.mem_map.2 ⟨entry, hentry, rfl⟩))

end Row

end SchemaChange
