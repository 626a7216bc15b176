import SchemaChange.Document.Change
import SchemaChange.Proofs.Document.Table

/-!
# Changes are read back

A change that has been read from a document and holds no real number is read from its own
text again. For each kind, its fields are found beside the kind; the values in them restore
because they have been read themselves.
-/
namespace SchemaChange

open Json (Value Readable)
open Document

namespace Change

/-- No value of a change is a real number. -/
def IsExact (change : Change) : Prop := ∀ l ∈ change.literals, l.IsExact

section Readback

/-- The object of a change names each of its fields once. -/
theorem record?_toJson (known : List String) (change : Change) :
    record? known change.toJson = some (("type", .string change.tag) :: change.fields) := by
  refine record?_of_nodup ?_ known
  cases change <;> simp [fields, named]

theorem withText?_withText (n : ObjectName) {textKey : String} (hname : textKey ≠ "name")
    (hschema : textKey ≠ "schema_name") (text : String) :
    withText? textKey (withText n textKey text) = some (n, text) := by
  rw [withText?, named?, withText, record?_of_nodup]
  · simp [ObjectName.fields, ObjectName.ofMembers?, hname.symm, hschema.symm]
  · simp [ObjectName.fields, hname.symm, hschema.symm]

/-- The list of rows of a change is read back if their values are. -/
theorem list?_rows {rows : List Row} (h : ∀ l ∈ rows.flatMap Row.values, l.Restores) :
    list? Row.ofJson? (.array (rows.map Row.toJson)) = some rows :=
  list?_map fun row hrow => Row.ofJson?_toJson fun l hl =>
    h l (List.mem_flatMap.2 ⟨row, hrow, hl⟩)

/-- A change of any kind is read back if its values are. -/
theorem ofFields?_toJson {change : Change} (h : ∀ l ∈ change.literals, l.Restores) :
    ofFields? change.toJson change.tag = some change := by
  have hrecord := fun known => record?_toJson known change
  cases change <;> simp only [tag, ofFields?, single?, onTable?, named?, hrecord]
  -- the kinds that hold values come first
  case createTable table =>
    have htable := Table.ofJson?_toJson h
    simp [fields, htable]
  case createColumn table column | alterColumn table column =>
    have hcolumn : Column.ofJson? column.toJson = some column :=
      Column.ofJson?_toJson fun l hl => h l (by simpa [literals, columns] using hl)
    simp [fields, named, ObjectName.ofMembers?, hcolumn]
  case alterDefaultConstraint table column value =>
    have hvalue : Literal.ofJson? value.toJson = some value := h value (by simp [literals])
    simp [fields, named, ObjectName.ofMembers?, hvalue]
  case insertData table rows _ | deleteData table rows _ =>
    have hrows := list?_rows h
    simp [fields, named, ObjectName.ofMembers?, hrows]
  case updateData table assignments filter allRows =>
    have hassignments := Row.ofJson?_toJson fun l hl => h l (List.mem_append_left _ hl)
    have hfilter := Row.ofJson?_toJson fun l hl => h l (List.mem_append_right _ hl)
    simp [fields, named, ObjectName.ofMembers?, hassignments, hfilter]
  all_goals
    simp [fields, named, ObjectName.ofMembers?, withText?_withText, ForeignKey.ofJson?_toJson,
      Index.ofJson?_toJson, Constraint.ofJson?_toJson, Sequence.ofJson?_toJson]

/-- A change is read back if its values are. -/
theorem ofJson?_toJson {change : Change} (h : ∀ l ∈ change.literals, l.Restores) :
    ofJson? change.toJson = some change := by
  have htag : single? change.toJson "type" text? = some change.tag := by
    rw [single?, record?_toJson]
    simp
  rw [ofJson?, htag]
  exact ofFields?_toJson h

theorem readable_rows {depth : Nat} {rows : List Row}
    (h : ∀ l ∈ rows.flatMap Row.values, l.IsExact) :
    Readable (depth + 4) (.array (rows.map Row.toJson)) :=
  readable_array fun row hrow => Row.readable_toJson fun l hl =>
    h l (List.mem_flatMap.2 ⟨row, hrow, hl⟩)

theorem readable_withText {depth : Nat} (n : ObjectName) (textKey text : String) :
    Readable (depth + 1) (withText n textKey text) := by
  refine .object ?_
  simp [ObjectName.fields]

/-- A change without real numbers nests six deep at most. -/
theorem readable_toJson {depth : Nat} {change : Change} (h : change.IsExact) :
    Readable (depth + 6) change.toJson := by
  refine .object (List.forall_mem_cons.2 ⟨.string _, ?_⟩)
  cases change
  case createTable table =>
    have htable : Readable (depth + 5) table.toJson := Table.readable_toJson h
    simp [fields, htable]
  case createColumn table column | alterColumn table column =>
    have hcolumn : Readable (depth + 5) column.toJson :=
      Column.readable_toJson fun l hl => h l (by simpa [literals, columns] using hl)
    simp [fields, named, hcolumn]
  case alterDefaultConstraint table column value =>
    have hvalue : Readable (depth + 5) value.toJson :=
      Literal.readable_toJson (h value (by simp [literals]))
    simp [fields, named, hvalue]
  case insertData table rows _ | deleteData table rows _ =>
    have hrows : Readable (depth + 5) (.array (rows.map Row.toJson)) := readable_rows h
    simp [fields, named, hrows]
  case updateData table assignments filter allRows =>
    have hassignments : Readable (depth + 5) assignments.toJson :=
      Row.readable_toJson fun l hl => h l (List.mem_append_left _ hl)
    have hfilter : Readable (depth + 5) filter.toJson :=
      Row.readable_toJson fun l hl => h l (List.mem_append_right _ hl)
    simp [fields, named, hassignments, hfilter]
  all_goals
    simp [fields, named, readable_withText, ForeignKey.readable_toJson, Index.readable_toJson,
      Constraint.readable_toJson, Sequence.readable_toJson]

end Readback

section Sources

/-- What is read from the fields of a kind is a change of that kind. -/
theorem tag_of_ofFields? {v : Value} {kind : String} {change : Change}
    (h : ofFields? v kind = some change) : change.tag = kind := by
  unfold ofFields? at h
  split at h
  all_goals
    simp only [Option.map_eq_some_iff, Option.bind_eq_bind, Option.bind_eq_some_iff,
      Option.pure_def, Option.some.injEq, reduceCtorEq] at h
  all_goals first
    | obtain ⟨_, -, rfl⟩ := h
      rfl
    | obtain ⟨_, -, _, -, rfl⟩ := h
      rfl
    | obtain ⟨_, -, _, -, _, -, rfl⟩ := h
      rfl
    | obtain ⟨_, -, _, -, _, -, _, -, rfl⟩ := h
      rfl

theorem decoded_of_single? {α : Type} {v : Value} {name : String} {decode : Decoder α} {a : α}
    (h : single? v name decode = some a) : Decoded decode a := by
  obtain ⟨ms, -, hms⟩ := Option.bind_eq_some_iff.1 h
  exact decoded_of_required? hms

theorem decoded_of_onTable? {α : Type} {v : Value} {key : String} {decode : Decoder α}
    {table : ObjectName} {a : α} (h : onTable? v key decode = some (table, a)) :
    Decoded decode a := by
  simp only [onTable?, Option.pure_def, Option.bind_eq_bind, Option.bind_eq_some_iff,
    Option.some.injEq, Prod.mk.injEq] at h
  obtain ⟨⟨_, ms⟩, -, b, hb, -, rfl⟩ := h
  exact decoded_of_required? hb

theorem decoded_of_mem_rows {rows : List Row} (h : Decoded (list? Row.ofJson?) rows)
    {l : Literal} (hl : l ∈ rows.flatMap Row.values) : Decoded Literal.ofJson? l := by
  obtain ⟨v, hv⟩ := h
  obtain ⟨row, hrow, hl⟩ := List.mem_flatMap.1 hl
  exact Row.decoded_of_mem_values (decoded_of_list? hv row hrow) hl

/-- Every value of a change that has been read has been read. -/
theorem decoded_of_mem_literals {change : Change} (h : Decoded ofJson? change) {l : Literal}
    (hl : l ∈ change.literals) : Decoded Literal.ofJson? l := by
  obtain ⟨v, hv⟩ := h
  obtain ⟨kind, -, hfields⟩ := Option.bind_eq_some_iff.1 hv
  -- the kind of the change tells which fields have been read
  obtain rfl := tag_of_ofFields? hfields
  cases change
  case createTable table =>
    obtain ⟨_, htable, hchange⟩ := Option.map_eq_some_iff.1 hfields
    cases hchange
    exact Table.decoded_of_mem_literals (decoded_of_single? htable) hl
  case createColumn table column | alterColumn table column =>
    obtain ⟨⟨_, _⟩, hcolumn, hchange⟩ := Option.bind_eq_some_iff.1 hfields
    cases hchange
    exact Column.decoded_of_mem_literals (decoded_of_onTable? hcolumn)
      (by simpa [literals, columns] using hl)
  case alterDefaultConstraint table column value =>
    obtain ⟨⟨_, ms⟩, -, hrest⟩ := Option.bind_eq_some_iff.1 hfields
    obtain ⟨_, -, hrest⟩ := Option.bind_eq_some_iff.1 hrest
    obtain ⟨_, hvalue, hchange⟩ := Option.bind_eq_some_iff.1 hrest
    cases hchange
    obtain rfl := List.mem_singleton.1 hl
    exact decoded_of_required? hvalue
  case insertData table rows identityInsert =>
    obtain ⟨⟨_, ms⟩, -, hrest⟩ := Option.bind_eq_some_iff.1 hfields
    obtain ⟨_, hrows, hrest⟩ := Option.bind_eq_some_iff.1 hrest
    obtain ⟨_, -, hchange⟩ := Option.bind_eq_some_iff.1 hrest
    cases hchange
    exact decoded_of_mem_rows (decoded_of_required? hrows) hl
  case updateData table assignments filter allRows =>
    obtain ⟨⟨_, ms⟩, -, hrest⟩ := Option.bind_eq_some_iff.1 hfields
    obtain ⟨_, hassignments, hrest⟩ := Option.bind_eq_some_iff.1 hrest
    obtain ⟨_, hfilter, hrest⟩ := Option.bind_eq_some_iff.1 hrest
    obtain ⟨_, -, hchange⟩ := Option.bind_eq_some_iff.1 hrest
    cases hchange
    rcases List.mem_append.1 hl with hl | hl
    · exact Row.decoded_of_mem_values (decoded_of_required? hassignments) hl
    · rcases eq_or_decoded_of_defaulted? hfilter with rfl | hfilter
      · cases hl
      · exact Row.decoded_of_mem_values hfilter hl
  case deleteData table rows allRows =>
    obtain ⟨⟨_, ms⟩, -, hrest⟩ := Option.bind_eq_some_iff.1 hfields
    obtain ⟨_, hrows, hrest⟩ := Option.bind_eq_some_iff.1 hrest
    obtain ⟨_, -, hchange⟩ := Option.bind_eq_some_iff.1 hrest
    cases hchange
    rcases eq_or_decoded_of_defaulted? hrows with rfl | hrows
    · cases hl
    · exact decoded_of_mem_rows hrows hl
  all_goals cases hl

end Sources

/-- The values of a change that has been read restore unless they are real numbers. -/
theorem restores_of_decoded {change : Change} (h : Decoded ofJson? change)
    (hexact : change.IsExact) : ∀ l ∈ change.literals, l.Restores :=
  fun l hl => Literal.restores_of_decoded (decoded_of_mem_literals h hl) (hexact l hl)

/-- The changes of a document without real numbers are read from their own text. -/
theorem readDocument?_text {text : String} {changes : List Change}
    (h : readDocument? text = some changes) (hexact : ∀ change ∈ changes, change.IsExact) :
    readDocument? (Value.array (changes.map toJson)).text = some changes := by
  obtain ⟨v, -, hv⟩ := Option.bind_eq_some_iff.1 h
  have hreadable : Readable Json.maxDepth (.array (changes.map toJson)) :=
    readable_array fun change hchange => readable_toJson (hexact change hchange)
  rw [readDocument?, hreadable.read?_text]
  refine list?_map fun change hchange => ofJson?_toJson ?_
  exact restores_of_decoded (decoded_of_list? hv change hchange) (hexact change hchange)

/-- The change that a text holds. -/
def read? (text : String) : Option Change := do
  ofJson? (← Json.read? text)

/-- A change of exact values that restore is read from its own text. -/
theorem read?_toJson {change : Change} (hexact : change.IsExact)
    (hrestores : ∀ l ∈ change.literals, l.Restores) :
    read? change.toJson.text = some change := by
  have hreadable : Readable Json.maxDepth change.toJson := readable_toJson hexact
  rw [read?, hreadable.read?_text]
  exact ofJson?_toJson hrestores

/-- A change that has been read from a text and holds no real number is read from its own
text, and writing it again gives that text. -/
theorem read_text_toJson {text : String} {change : Change} (h : read? text = some change)
    (hfloat : ∀ x, Literal.float x ∉ change.literals) :
    read? change.toJson.text = some change ∧
      (read? change.toJson.text).map (fun again => again.toJson.text) =
        some change.toJson.text := by
  obtain ⟨v, -, hv⟩ := Option.bind_eq_some_iff.1 h
  have hexact : change.IsExact := by
    rintro l hl x rfl
    exact hfloat x hl
  have hread : read? change.toJson.text = some change :=
    read?_toJson hexact (restores_of_decoded ⟨v, hv⟩ hexact)
  constructor
  · exact hread
  · rw [hread, Option.map_some]

/-- A leap second of a year of five digits. -/
def leapSecond : OffsetDateTime :=
  ⟨⟨⟨12345, 6, 30, by decide⟩, 23, 59, 60, 500000000, by decide, by decide, by decide,
    by decide⟩, 0, by decide⟩

/-- Fields in another order, a column named twice and a leap second. -/
theorem read_text_toJson_leapSecond :
    let text := "\x7b\"rows\":[\x7b\"b\":\x7b\"kind\":\"null\"\x7d,\"a\":\x7b\"value\":\"" ++
      "+12345-06-30 23:59:60.5utc\",\"kind\":\"date_time_offset\"\x7d,\"b\":" ++
      "\x7b\"kind\":\"char\",\"value\":\"\\u0007\"\x7d\x7d]," ++
      "\"table_name\":\"t\",\"type\":\"insert_data\"\x7d"
    let row := Row.ofList [("b", .char '\x07'), ("a", .dateTimeOffset leapSecond)]
    let change := insertData ⟨"t", none⟩ [row] false
    read? text = some change ∧ read? change.toJson.text = some change := by
  intro text row change
  have hread : read? text = some change := by decide +kernel
  have hliterals : change.literals = [.char '\x07', .dateTimeOffset leapSecond] := by
    decide +kernel
  have hfloat : ∀ x, Literal.float x ∉ change.literals := by simp [hliterals]
  exact ⟨hread, (read_text_toJson hread hfloat).1⟩

end Change

end SchemaChange
