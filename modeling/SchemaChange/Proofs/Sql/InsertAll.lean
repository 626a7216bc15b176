import SchemaChange.Proofs.Naming.Pattern
import SchemaChange.Proofs.Sql.Written

/-!
# Rows inserted by one statement

A statement for several rows holds what the statements for the single rows say behind their first
word, in the same order. It fails where the first of them fails, for the same value.
-/
namespace SchemaChange

/-- The pattern of a statement that inserts one row. -/
def insertPattern : String := "INSERT INTO {table} ({columns}) VALUES ({values})"

theorem format_insertPattern (table columns values : String) :
    Naming.format insertPattern [("table", table), ("columns", columns), ("values", values)] =
      "INSERT " ++ ("INTO " ++ table ++ " (" ++ columns ++ ") VALUES (" ++ values ++ ")") := by
  apply String.toList_injective
  have hkeys : "table" ≠ "columns" ∧ "table" ≠ "values" ∧ "columns" ≠ "values" := by decide
  rw [insertPattern, Naming.toList_format [.text "INSERT ", .text "INTO ", .key "table",
    .text " (", .key "columns", .text ") VALUES (", .key "values", .text ")"] (by decide)
    (by decide)]
  simp only [List.flatMap_cons, List.flatMap_nil, Naming.Segment.filled_text,
    Naming.Segment.filled_first, Naming.Segment.filled_other hkeys.1,
    Naming.Segment.filled_other hkeys.2.1, Naming.Segment.filled_other hkeys.2.2,
    String.toList_append, List.append_assoc, List.append_nil]

namespace Profile

/-- The text that inserts one row: the pattern with the table, the quoted columns and the written
values. -/
def InsertsRow (p : Profile) (table : Sql) (row : Row) (text : String) : Prop :=
  ∃ values : List String,
    List.Forall₂ (fun value written => ∃ sql : Sql, value.sql p.dialect = .ok sql ∧
      written = sql.write p.quoter) row.values values ∧
    text = Naming.format insertPattern [("table", table.write p.quoter),
      ("columns", ", ".intercalate (row.columns.map p.quoter.quote)),
      ("values", ", ".intercalate values)]

/-- The text of a row behind the words that lead it. -/
def rowText (p : Profile) (table : Sql) (row : Row) (values : List Sql) : String :=
  table.write p.quoter ++ " (" ++ ", ".intercalate (row.columns.map p.quoter.quote) ++
    ") VALUES (" ++ ", ".intercalate (values.map (Sql.write p.quoter)) ++ ")"

/-- One statement for rows whose own statements go on with these texts behind their first word. -/
def insertAllText (rests : List String) : String :=
  "INSERT ALL" ++ String.join (rests.map ("\n  " ++ ·)) ++ "\nSELECT 1 FROM DUAL"

/-- One statement for several rows inserts what single statements insert, or fails as they do. -/
structure InsertsLikeSingles (p : Profile) (table : Sql) (rows : List Row) : Prop where
  rendered : (∀ row ∈ rows, ∃ single, p.insertRow table row = .ok single) →
    ∃ singles rests all, rows.mapM (p.insertRow table) = .ok singles ∧
      List.Forall₂ (fun row single => p.InsertsRow table row (single.write p.quoter))
        rows singles ∧
      List.Forall₂ (fun single rest => single.write p.quoter = "INSERT " ++ rest) singles rests ∧
      p.insertAll table rows = .ok all ∧ all.write p.quoter = insertAllText rests
  failed : (∃ row ∈ rows, ∃ e, p.insertRow table row = .error e) →
    ∃ before value after e, rows.flatMap Row.values = before ++ value :: after ∧
      (∀ other ∈ before, ∃ sql, other.sql p.dialect = .ok sql) ∧
      value.sql p.dialect = .error e ∧ p.insertAll table rows = .error e ∧
      rows.mapM (p.insertRow table) = .error e

section Insert

variable {p : Profile} {table : Sql} {row : Row} {rows : List Row} {e : Error}

theorem write_row (lead : String) (values : List Sql) :
    Sql.write p.quoter (lead ++ table ++ " (" ++ Sql.names row.columns ++ ") VALUES (" ++
      Sql.list values ++ ")") = lead ++ p.rowText table row values := by
  simp only [Sql.write_append, Sql.write_code, Sql.write_names, Sql.write_list, rowText,
    String.append_assoc]

theorem exists_of_insertRow {single : Sql} (h : p.insertRow table row = .ok single) :
    ∃ values, row.values.mapM (Literal.sql p.dialect) = .ok values ∧
      single.write p.quoter = "INSERT " ++ ("INTO " ++ p.rowText table row values) := by
  obtain ⟨values, hvalues, h⟩ := exists_of_bind h
  cases h
  have hlead : "INSERT " ++ "INTO " = "INSERT INTO " := by decide
  exact ⟨values, hvalues, by rw [write_row, ← String.append_assoc, hlead]⟩

theorem exists_of_intoLine {line : Sql} (h : p.intoLine table row = .ok line) :
    ∃ values, row.values.mapM (Literal.sql p.dialect) = .ok values ∧
      line.write p.quoter = "\n  " ++ ("INTO " ++ p.rowText table row values) := by
  obtain ⟨values, hvalues, h⟩ := exists_of_bind h
  cases h
  have hlead : "\n  " ++ "INTO " = "\n  INTO " := by decide
  exact ⟨values, hvalues, by rw [write_row, ← String.append_assoc, hlead]⟩

theorem insertRow_eq_error_iff : p.insertRow table row = .error e ↔
    row.values.mapM (Literal.sql p.dialect) = .error e := by
  rw [insertRow, map_eq_error_iff]

theorem intoLine_eq_error_iff : p.intoLine table row = .error e ↔
    row.values.mapM (Literal.sql p.dialect) = .error e := by
  rw [intoLine, map_eq_error_iff]

/-- The statement of one row is the filled pattern. -/
theorem insertsRow_of_insertRow {single : Sql} (h : p.insertRow table row = .ok single) :
    p.InsertsRow table row (single.write p.quoter) := by
  obtain ⟨values, hvalues, hsingle⟩ := exists_of_insertRow h
  refine ⟨values.map (Sql.write p.quoter), ?_, ?_⟩
  · rw [List.forall₂_map_right_iff]
    exact (forall₂_of_mapM hvalues).imp fun _ sql hsql => ⟨sql, hsql, rfl⟩
  · rw [format_insertPattern, hsingle, rowText]
    simp only [String.append_assoc]

/-- A row fails in its own statement where it fails in one for several rows. -/
theorem insertRow_eq_error_iff_intoLine (row : Row) (e : Error) :
    p.insertRow table row = .error e ↔ p.intoLine table row = .error e := by
  rw [insertRow_eq_error_iff, intoLine_eq_error_iff]

/-- The two texts of a row go on alike. -/
theorem exists_rest {single line : Sql} (hsingle : p.insertRow table row = .ok single)
    (hline : p.intoLine table row = .ok line) :
    ∃ rest, single.write p.quoter = "INSERT " ++ rest ∧ line.write p.quoter = "\n  " ++ rest := by
  obtain ⟨values, hvalues, hsingle⟩ := exists_of_insertRow hsingle
  obtain ⟨values', hvalues', hline⟩ := exists_of_intoLine hline
  obtain rfl : values = values' := Except.ok.inj (hvalues.symm.trans hvalues')
  exact ⟨_, hsingle, hline⟩

theorem exists_rests {singles lines : List Sql}
    (hsingles : List.Forall₂ (fun row single => p.insertRow table row = .ok single) rows singles)
    (hlines : List.Forall₂ (fun row line => p.intoLine table row = .ok line) rows lines) :
    ∃ rests, List.Forall₂ (fun single rest => single.write p.quoter = "INSERT " ++ rest)
        singles rests ∧
      lines.map (Sql.write p.quoter) = rests.map ("\n  " ++ ·) := by
  induction hsingles generalizing lines with
  | nil =>
      cases hlines
      exact ⟨[], .nil, rfl⟩
  | cons hsingle _ ih =>
      cases hlines with
      | cons hline hlines =>
          obtain ⟨rest, hsingle, hline⟩ := exists_rest hsingle hline
          obtain ⟨rests, hsingles, hlines⟩ := ih hlines
          exact ⟨rest :: rests, .cons hsingle hsingles, by rw [List.map_cons, hline, hlines]; rfl⟩

theorem insertAll_eq_error_iff : p.insertAll table rows = .error e ↔
    rows.mapM (p.insertRow table) = .error e := by
  rw [insertAll, map_eq_error_iff, mapM_eq_error_congr insertRow_eq_error_iff_intoLine]

/-- The first value that cannot be written decides the failure. -/
theorem exists_failing_value (h : rows.mapM (p.insertRow table) = .error e) :
    ∃ before value after, rows.flatMap Row.values = before ++ value :: after ∧
      (∀ other ∈ before, ∃ sql, other.sql p.dialect = .ok sql) ∧
      value.sql p.dialect = .error e := by
  obtain ⟨earlier, row, later, rfl, hearlier, hrow⟩ := mapM_eq_error_iff.1 h
  obtain ⟨before, value, after, hvalues, hbefore, hvalue⟩ :=
    mapM_eq_error_iff.1 (insertRow_eq_error_iff.1 hrow)
  refine ⟨earlier.flatMap Row.values ++ before, value, after ++ later.flatMap Row.values, ?_, ?_,
    hvalue⟩
  · simp [hvalues]
  · intro other hother
    rcases List.mem_append.1 hother with hother | hother
    · obtain ⟨row, hmem, hother⟩ := List.mem_flatMap.1 hother
      obtain ⟨single, hsingle⟩ := hearlier row hmem
      obtain ⟨values, hvalues, -⟩ := exists_of_insertRow hsingle
      obtain ⟨sql, -, hsql⟩ := mem_of_mapM hvalues hother
      exact ⟨sql, hsql⟩
    · exact hbefore other hother

theorem insertsLikeSingles (p : Profile) (table : Sql) (rows : List Row) :
    p.InsertsLikeSingles table rows := by
  constructor
  · intro hrendered
    obtain ⟨singles, hsingles⟩ := exists_mapM hrendered
    obtain ⟨lines, hlines⟩ : ∃ lines, rows.mapM (p.intoLine table) = .ok lines :=
      exists_mapM fun row hrow =>
        exists_ok_of_fail (insertRow_eq_error_iff_intoLine row) (hrendered row hrow)
    obtain ⟨rests, hrests, htexts⟩ :=
      exists_rests (forall₂_of_mapM hsingles) (forall₂_of_mapM hlines)
    refine ⟨singles, rests, "INSERT ALL" ++ lines.flatten ++ "\nSELECT 1 FROM DUAL", hsingles,
      (forall₂_of_mapM hsingles).imp fun _ _ => insertsRow_of_insertRow, hrests, ?_, ?_⟩
    · rw [insertAll, hlines]
      rfl
    · rw [Sql.write_append, Sql.write_append, Sql.write_flatten, htexts, insertAllText,
        Sql.write_code, Sql.write_code]
  · rintro ⟨row, hrow, e, he⟩
    cases hsingles : rows.mapM (p.insertRow table) with
    | error e =>
        obtain ⟨before, value, after, hvalues, hbefore, hvalue⟩ := exists_failing_value hsingles
        exact ⟨before, value, after, e, hvalues, hbefore, hvalue,
          insertAll_eq_error_iff.2 hsingles, rfl⟩
    | ok singles =>
        obtain ⟨single, -, hsingle⟩ := mem_of_mapM hsingles hrow
        cases he.symm.trans hsingle

/-- Two rows that are inserted, and two values that cannot be written. -/
theorem insertsLikeSingles_oracle :
    let p := Profile.of .oracle .strict {}
    let table := p.quoter.object ⟨"T", none⟩
    let noted := Row.ofList [("ID", .int 7), ("NOTE", .string "\x7bvalues\x7d, 'x'")]
    let blank := Row.ofList [("ID", .null)]
    let infinite := Row.ofList [("ID", .float ⟨0x7FF0000000000000⟩)]
    let undefined := Row.ofList [("ID", .float ⟨0x7FF8000000000000⟩)]
    (p.insertAll table [noted, blank]).map (Sql.write p.quoter) = .ok
        ("INSERT ALL\n  INTO T (ID, NOTE) VALUES (7, '\x7bvalues\x7d, ''x''')\n" ++
          "  INTO T (ID) VALUES (NULL)\nSELECT 1 FROM DUAL") ∧
      (∃ rests all, p.insertAll table [noted, blank] = .ok all ∧
        all.write p.quoter = insertAllText rests) ∧
      (∃ value ∈ [noted, infinite, undefined].flatMap Row.values, ∃ e,
        value.sql p.dialect = .error e ∧
        p.insertAll table [noted, infinite, undefined] = .error e ∧
        [noted, infinite, undefined].mapM (p.insertRow table) = .error e) := by
  intro p table noted blank infinite undefined
  have hrendered : ∀ row ∈ [noted, blank], ∃ single, p.insertRow table row = .ok single := by
    intro row hrow
    rcases List.mem_pair.1 hrow with rfl | rfl
    · exact ⟨_, rfl⟩
    · exact ⟨_, rfl⟩
  have hfailed : ∃ row ∈ [noted, infinite, undefined], ∃ e, p.insertRow table row = .error e :=
    ⟨infinite, by simp, _, rfl⟩
  obtain ⟨-, rests, all, -, -, -, hall, htext⟩ :=
    (insertsLikeSingles p table [noted, blank]).rendered hrendered
  obtain ⟨before, value, after, e, hvalues, -, hvalue, hfails, hsingles⟩ :=
    (insertsLikeSingles p table [noted, infinite, undefined]).failed hfailed
  exact ⟨by decide +kernel, ⟨rests, all, hall, htext⟩, value, by simp [hvalues], e, hvalue, hfails,
    hsingles⟩

end Insert

end Profile

end SchemaChange
