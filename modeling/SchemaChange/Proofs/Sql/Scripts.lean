import SchemaChange.Proofs.Sql.Data
import SchemaChange.Sql.Join

/-!
# Generated scripts split into their statements

The script of a change that holds no foreign SQL is divided into the statements of the
change, for every dialect whose statements end with semicolons. An empty collation at the
end of a statement leaves a blank there, which division drops.
-/
namespace SchemaChange

open Script Sql

section Checks

theorem check_bind {x : Check} {f : Unit → Check} (h : (x >>= f) = .ok ()) :
    x = .ok () ∧ f () = .ok () := by
  cases x with
  | error e => cases h
  | ok u => exact ⟨rfl, h⟩

theorem named_of_requireName {name what : String} (h : requireName name what = .ok ()) :
    Text.allBlank name = false := by
  cases hname : Text.allBlank name with
  | false => rfl
  | true =>
      rw [requireName, hname] at h
      cases h

theorem ne_empty_of_named {name : String} (h : Text.allBlank name = false) : name ≠ "" := by
  rintro rfl
  cases h

theorem ne_empty_of_requireName {name what : String} (h : requireName name what = .ok ()) :
    name ≠ "" := ne_empty_of_named (named_of_requireName h)

theorem Check.ok_of_inTable {check : Check} {table : String} (h : check.inTable table = .ok ()) :
    check = .ok () := by
  cases check with
  | error e => cases h
  | ok u => rfl

theorem Column.named_of_check {c : Column} (h : c.check = .ok ()) :
    Text.allBlank c.name = false := named_of_requireName (check_bind h).1

theorem named_of_checkColumns {table : String} {seen : List String} {columns : List Column}
    (h : checkColumns table seen columns = .ok ()) :
    ∀ c ∈ columns, Text.allBlank c.name = false := by
  induction columns generalizing seen with
  | nil => simp
  | cons c columns ih =>
      obtain ⟨hc, h⟩ := check_bind h
      obtain ⟨-, h⟩ := check_bind h
      exact List.forall_mem_cons.2 ⟨Column.named_of_check (Check.ok_of_inTable hc), ih h⟩

theorem check_of_forM {α : Type} {check : α → Check} {as : List α} (h : as.forM check = .ok ()) :
    ∀ a ∈ as, check a = .ok () := by
  induction as with
  | nil => simp
  | cons a as ih =>
      obtain ⟨ha, h⟩ := check_bind h
      exact List.forall_mem_cons.2 ⟨ha, ih h⟩

/-- No column of a valid change has a blank name. -/
theorem Change.named_of_check {change : Change} (h : change.check = .ok ()) :
    ∀ c ∈ change.columns, Text.allBlank c.name = false := by
  cases change with
  | createTable table =>
      obtain ⟨-, h⟩ := check_bind h
      obtain ⟨-, h⟩ := check_bind h
      exact named_of_checkColumns (check_bind h).1
  | createColumn table column | alterColumn table column =>
      have hcolumn := Check.ok_of_inTable (check_bind h).2
      simpa [Change.columns] using Column.named_of_check hcolumn
  | _ => simp [Change.columns]

end Checks

/-- No column of the change has an empty collation. -/
def Change.Tight (change : Change) : Prop := ∀ c ∈ change.columns, c.collation ≠ some ""

theorem Change.OwnSql.tight {d : Dialect} {change : Change} (hown : change.OwnSql d)
    (h : d = .postgres → change.Tight) : change.Tight := by
  by_cases hd : d = .postgres
  · exact h hd
  · intro c hc
    rw [hown.collations hd c hc]
    nofun

theorem Profile.dialect_of (d : Dialect) (mode : Mode) (o : Options) :
    (Profile.of d mode o).dialect = d := by
  cases d <;> rfl

/-- A profile of a dialect whose statements end with semicolons, under a policy that wraps
every name. -/
structure Profile.Suits (p : Profile) (mark : Char) : Prop extends p.Wraps mark where
  semicolon : p.dialect.splitter.separator = .semicolon

/-- Every such profile suits. -/
theorem suits_profile {d : Dialect} (hd : d.splitter.separator = .semicolon) (mode : Mode)
    (o : Options) (hpolicy : (Profile.of d mode o).quoter.policy = .always) :
    ∃ mark, (Profile.of d mode o).Suits mark := by
  have hblocks : d ≠ .oracle := by
    rintro rfl
    cases hd
  obtain ⟨mark, hp⟩ := wraps_of hblocks mode o hpolicy
  exact ⟨mark, hp, (Profile.dialect_of d mode o).symm ▸ hd⟩

section Statements

variable {p : Profile} {mark : Char} {change : Change}

theorem fits_columns (hp : p.Wraps mark) (hcheck : change.check = .ok ())
    (hown : change.OwnSql p.dialect) (hnames : Unquoted p.quoter change.names) :
    ∀ c ∈ change.columns, c.Fits p.quoter change.Tight := by
  intro c hc
  exact ⟨fun n hn => hnames n (Change.names_subset hc hn),
    fun v hv => hown.values v (Change.literals_subset hc hv), hown.types c hc,
    fun hne => hown.collations (hp.same ▸ hne) c hc, fun ht => ht c hc,
    ne_empty_of_named (Change.named_of_check hcheck c hc)⟩

theorem ne_empty_of_requireName_bind {name what : String} {f : Unit → Check}
    (h : (requireName name what >>= f) = .ok ()) : name ≠ "" :=
  ne_empty_of_requireName (check_bind h).1

section Kinds

variable {tight : Prop} {table : ObjectName}

theorem yields_createSchema (hp : p.Wraps mark) {schema : String}
    (hcheck : (Change.createSchema schema).check = .ok ())
    (hnames : Unquoted p.quoter (Change.createSchema schema).names) :
    Yields (p.statementsOfValid (.createSchema schema)) (Statements p.quoter tight) := by
  simp only [Profile.statementsOfValid]
  split
  · exact yields_ok (statements_one (hp.forms.createSchema _ ‹_›
      (hp.wraps.closing_name hnames.head fun _ => ne_empty_of_requireName hcheck)))
  · exact yields_skip p _

theorem yields_deleteSchema (hp : p.Wraps mark) {schema : String}
    (hcheck : (Change.deleteSchema schema).check = .ok ())
    (hnames : Unquoted p.quoter (Change.deleteSchema schema).names) :
    Yields (p.statementsOfValid (.deleteSchema schema)) (Statements p.quoter tight) := by
  simp only [Profile.statementsOfValid]
  split
  · exact yields_ok (statements_one (hp.forms.dropSchema _ ‹_›
      (hp.wraps.closing_name hnames.head fun _ => ne_empty_of_requireName hcheck)))
  · exact yields_skip p _

theorem yields_alterSchema (hp : p.Wraps mark) {destination : String}
    (hcheck : (Change.alterSchema table destination).check = .ok ())
    (hnames : Unquoted p.quoter (Change.alterSchema table destination).names) :
    Yields (p.statementsOfValid (.alterSchema table destination)) (Statements p.quoter tight) := by
  have htable := ne_empty_of_requireName_bind hcheck
  have hdestination := ne_empty_of_requireName (check_bind hcheck).2
  simp only [Profile.statementsOfValid]
  split
  · exact yields_ok (statements_one (hp.forms.moveTable _ ‹_›
      (hp.object hnames.tail fun _ => htable)
      (hp.wraps.closing_name hnames.tail.head fun _ => htable)
      (hp.wraps.closing_name hnames.head fun _ => hdestination)))
  · exact yields_skip p _

theorem yields_alterTable (hp : p.Wraps mark) (hnames : Unquoted p.quoter table.names)
    (description : Option String) :
    Yields (p.statementsOfValid (.alterTable table description)) (Statements p.quoter tight) := by
  refine yields_ok ?_
  cases description with
  | none => exact statements_nil
  | some description => exact statements_describeTable hp hnames description true

theorem yields_renameTable (hp : p.Wraps mark) {newName : String}
    (hcheck : (Change.renameTable table newName).check = .ok ())
    (hnames : Unquoted p.quoter (Change.renameTable table newName).names) :
    Yields (p.statementsOfValid (.renameTable table newName)) (Statements p.quoter tight) := by
  have hnew := ne_empty_of_requireName (check_bind hcheck).2
  have hrenamed : Unquoted p.quoter ({ table with name := newName } : ObjectName).names :=
    List.forall_mem_cons.2 ⟨hnames.head, hnames.tail.tail⟩
  exact yields_ok (statements_one (hp.forms.renameTable
    (hp.object hnames.tail fun _ => ne_empty_of_requireName_bind hcheck)
    (hp.object hrenamed fun _ => hnew) (hp.wraps.closing_name hnames.head fun _ => hnew)))

theorem yields_deleteColumn (hp : p.Wraps mark) {columns : List String}
    (hcheck : (Change.deleteColumn table columns).check = .ok ())
    (hnames : Unquoted p.quoter (Change.deleteColumn table columns).names)
    (hline : p.dialect = .sqlServer →
      ∀ n ∈ (Change.deleteColumn table columns).unbound, '\n' ∉ n.toList) :
    Yields (p.statementsOfValid (.deleteColumn table columns)) (Statements p.quoter tight) := by
  obtain ⟨-, hcolumns⟩ := check_bind (check_bind hcheck).2
  exact yields_ok (statements_deleteColumns hp hnames.left hnames.right
    (fun n hn => ne_empty_of_requireName (check_of_forM hcolumns n hn)) hline)

theorem yields_renameColumn (hp : p.Wraps mark) {oldName newName : String}
    (hcheck : (Change.renameColumn table oldName newName).check = .ok ())
    (hnames : Unquoted p.quoter (Change.renameColumn table oldName newName).names) :
    Yields (p.statementsOfValid (.renameColumn table oldName newName))
      (Statements p.quoter tight) := by
  obtain ⟨hold, hnew⟩ := check_bind (check_bind hcheck).2
  exact yields_ok (statements_one (hp.forms.renameColumn
    (hp.object hnames.tail.tail fun _ => ne_empty_of_requireName_bind hcheck)
    (hp.wraps.closing_name hnames.head fun _ => ne_empty_of_requireName hold)
    (hp.wraps.closing_name hnames.tail.head fun _ => ne_empty_of_requireName hnew)))

theorem yields_deleteForeignKey (hp : p.Wraps mark) {key : String}
    (hcheck : (Change.deleteForeignKey table key).check = .ok ())
    (hnames : Unquoted p.quoter (Change.deleteForeignKey table key).names) :
    Yields (p.statementsOfValid (.deleteForeignKey table key)) (Statements p.quoter tight) := by
  have hkey := ne_empty_of_requireName (check_bind hcheck).2
  simp only [Profile.statementsOfValid]
  split
  · exact yields_ok (statements_one (hp.forms.dropForeignKey _ ‹_› (woven_object hp hnames.tail)
      (hp.wraps.closing_name hnames.head fun _ => hkey)))
  · exact yields_skip p _

/-- A statement that drops an object by its name. -/
theorem statement_drop (hp : p.Wraps mark) {words what : String} {object : ObjectName}
    (hwords : (isFirm words.toList && isOpening words) = true)
    (hcheck : requireName object.name what = .ok ()) (hnames : Unquoted p.quoter object.names) :
    Statement p.quoter tight (words ++ p.quoter.object object) :=
  .lead hwords (hp.object hnames fun _ => ne_empty_of_requireName hcheck)

/-- The rows of a change hold no foreign SQL and no names that stand in quotes of their own. -/
theorem Row.Fits.of_mem {q : Quoter} {rows : List Row}
    (hcolumns : Unquoted q (rows.flatMap Row.columns))
    (hvalues : ∀ v ∈ rows.flatMap Row.values, v.isOwn) : ∀ row ∈ rows, row.Fits q := fun row hrow =>
  ⟨fun n hn => hcolumns n (List.mem_flatMap.2 ⟨row, hrow, hn⟩),
    fun v hv => hvalues v (List.mem_flatMap.2 ⟨row, hrow, hv⟩)⟩

end Kinds

/-- Every statement of a valid change stands for itself, if no comment in it goes over to another
line. -/
theorem yields_statementsOfValid (hp : p.Wraps mark) (hcheck : change.check = .ok ())
    (hown : change.OwnSql p.dialect) (hnames : Unquoted p.quoter change.names)
    (hline : p.dialect = .sqlServer → ∀ n ∈ change.unbound, '\n' ∉ n.toList) :
    Yields (p.statementsOfValid change) (Statements p.quoter change.Tight) := by
  have hfits := fits_columns hp hcheck hown hnames
  cases change with
  | createSchema schema => exact yields_createSchema hp hcheck hnames
  | deleteSchema schema => exact yields_deleteSchema hp hcheck hnames
  | alterSchema table destination => exact yields_alterSchema hp hcheck hnames
  | createTable table => exact yields_createTable hp hnames hfits
  | alterTable table description => exact yields_alterTable hp hnames description
  | deleteTable table ifExists =>
      exact yields_deleteTable hp hnames (ne_empty_of_requireName hcheck) ifExists
  | renameTable table newName => exact yields_renameTable hp hcheck hnames
  | createColumn table column =>
      exact yields_createColumn hp hnames.left (hfits column (.head _)) hline
  | alterColumn table column =>
      exact yields_alterColumn hp hnames.left (hfits column (.head _)) hline
  | deleteColumn table columns => exact yields_deleteColumn hp hcheck hnames hline
  | renameColumn table oldName newName => exact yields_renameColumn hp hcheck hnames
  | createForeignKey key => exact yields_createForeignKey hp hnames
  | deleteForeignKey table key => exact yields_deleteForeignKey hp hcheck hnames
  | createIndex index => exact yields_createIndex hp hnames
  | deleteIndex table indexName =>
      exact yields_deleteIndex hp hnames.tail (ne_empty_of_requireName_bind hcheck) hnames.head
        (ne_empty_of_requireName (check_bind hcheck).2)
  | createConstraint c => exact yields_createConstraint hp hnames
  | deleteConstraint c =>
      refine yields_deleteConstraint hp hnames fun hc => ?_
      have hname := (check_bind hcheck).2
      rw [hc] at hname
      exact ne_empty_of_requireName hname rfl
  | alterDefaultConstraint table column value =>
      exact yields_alterDefault hp hnames.tail (ne_empty_of_requireName_bind hcheck) hnames.head
        (ne_empty_of_requireName (check_bind hcheck).2) (hown.values value (.head _)) hline
  | deleteDefaultConstraint table column =>
      exact yields_deleteDefault hp hnames.tail hnames.head hline
  | createSequence sequence =>
      exact yields_createSequence hp hnames (ne_empty_of_requireName_bind hcheck)
  | deleteSequence sequence =>
      exact yields_able p _ (.inl (statement_drop hp (by decide) hcheck hnames))
  | insertData table rows identity =>
      exact yields_insertData hp hnames.left (Row.Fits.of_mem hnames.right hown.values) identity
  | updateData table assignments filter allRows =>
      have hassignments : assignments.Fits p.quoter :=
        ⟨hnames.left.right, fun v hv => hown.values v (List.mem_append_left _ hv)⟩
      have hfilter : filter.Fits p.quoter :=
        ⟨hnames.right, fun v hv => hown.values v (List.mem_append_right _ hv)⟩
      exact (yields_updateData hp hnames.left.left hassignments hfilter allRows).bind
        fun sql hsql => yields_ok (statements_one hsql)
  | deleteData table rows allRows =>
      exact yields_deleteData hp hnames.left (Row.Fits.of_mem hnames.right hown.values) allRows
  | createView view definition | createFunction routine body | createProcedure routine body
  | executeSql sql => exact absurd hown.statement (by simp [Change.isVerbatim])
  | deleteView view =>
      exact yields_ok (statements_one (statement_drop hp (by decide) hcheck hnames))
  | deleteFunction routine | deleteProcedure routine =>
      exact yields_able p _ (.inl (statement_drop hp (by decide) hcheck hnames))
  | performDbOperation description => exact yields_ok statements_nil

theorem yields_stands (hp : p.Wraps mark) (hown : change.OwnSql p.dialect)
    (hnames : Unquoted p.quoter change.names)
    (hline : p.dialect = .sqlServer → ∀ n ∈ change.unbound, '\n' ∉ n.toList) :
    Yields (p.statements change) (Statements p.quoter change.Tight) := by
  rw [Profile.statements, Change.validate]
  refine yields_bind _ fun _ hcheck => yields_statementsOfValid hp ?_ hown hnames hline
  cases h : change.check with
  | ok u => rfl
  | error e => rw [h] at hcheck; cases hcheck

/-- Where semicolons end statements, every statement of a change is read as a whole. -/
theorem yields_statements (hp : p.Suits mark) (hown : change.OwnSql p.dialect)
    (hnames : Unquoted p.quoter change.names) :
    Yields (p.statements change) (∀ sql ∈ ·, Statement p.quoter change.Tight sql) := by
  have hserver : p.dialect ≠ .sqlServer := fun he => by
    have := hp.semicolon
    rw [he] at this
    cases this
  refine (yields_stands hp.toWraps hown hnames fun he => absurd he hserver).mono
    fun sqls hsqls sql hsql => (hsqls sql hsql).resolve_right fun h => ?_
  exact hserver (hp.same.symm.trans h.1)

end Statements

/-- Outside the dialect with blocks, one text for several statements has semicolons between
them. -/
theorem Profile.joinStatements_eq_separated {p : Profile} (hp : p.dialect ≠ .oracle)
    (texts : List String) : p.joinStatements texts = separated texts := by
  match texts with
  | [] => rfl
  | [s] => simp [joinStatements, separated, append]
  | s :: s' :: texts => simp [joinStatements, hp]

theorem exists_of_statementTexts {p : Profile} {change : Change} {texts : List String}
    (h : p.statementTexts change = .ok texts) :
    ∃ sqls, p.statements change = .ok sqls ∧
      (sqls.map (Sql.write p.quoter)).filter (fun s => !Text.allBlank s) = texts := by
  cases hsqls : p.statements change with
  | error e => rw [Profile.statementTexts, hsqls] at h; cases h
  | ok sqls =>
      rw [Profile.statementTexts, hsqls] at h
      cases h
      exact ⟨sqls, rfl, rfl⟩

section Division

variable {d : Dialect} {mode : Mode} {o : Options} {change : Change} {texts : List String}

/-- The script of a change is divided into its statements, each without the blanks at its
ends. -/
theorem exists_generate_split (hd : d.splitter.separator = .semicolon)
    (hpolicy : (Profile.of d mode o).quoter.policy = .always) (hown : change.OwnSql d)
    (hnames : Unquoted (Profile.of d mode o).quoter change.names)
    (htexts : (Profile.of d mode o).statementTexts change = .ok texts) :
    ∃ script, (Profile.of d mode o).generate change = .ok script ∧
      (d.splitter.withStripComments false).split script =
        texts.map (fun s => ⟨Text.trim s, .statement⟩) ∧
      ((d = .postgres → change.Tight) → texts.map Text.trim = texts) := by
  obtain ⟨mark, hp⟩ := suits_profile hd mode o hpolicy
  have hdialect := Profile.dialect_of d mode o
  obtain ⟨sqls, hsqls, rfl⟩ := exists_of_statementTexts htexts
  have hstatements := yields_statements hp (hdialect.symm ▸ hown) hnames sqls hsqls
  have htext : ∀ s ∈ ((sqls.map (Sql.write (Profile.of d mode o).quoter)).filter
      fun s => !Text.allBlank s), Text.allBlank s = false ∧
        ∃ sql ∈ sqls, sql.write (Profile.of d mode o).quoter = s := by
    intro s hs
    obtain ⟨hmem, hblank⟩ := List.mem_filter.1 hs
    exact ⟨by simpa using hblank, List.mem_map.1 hmem⟩
  refine ⟨_, congrArg (Except.map _) htexts, ?_, fun htight => ?_⟩
  · rw [Profile.joinStatements_eq_separated hp.notOracle,
      (d.splitter.withStripComments false).split_of_semicolon hd rfl (withinLines_splitter d)]
    refine automatonBatches_separated (fun s hs => (htext s hs).1) fun s hs => ?_
    obtain ⟨-, sql, hsql, rfl⟩ := htext s hs
    have hstanding := (hstatements sql hsql).woven.standing
    rwa [← Sql.toList_write, hp.same, hdialect] at hstanding
  · refine (List.map_congr_left fun s hs => ?_).trans (List.map_id _)
    obtain ⟨-, sql, hsql, rfl⟩ := htext s hs
    have hstatement := hstatements sql hsql
    exact trim_write hstatement.begins (hstatement.ends (hown.tight htight))

end Division

/-- One dialect under the switch that quotes every name. -/
def quotedPostgres : Profile := .of .postgres .strict { quoteIdentifiers := some true }

theorem exists_generate_split_createTable :
    let change : Change := .createTable
      { name := ⟨"a;b", none⟩, description := some "x'$$;",
        columns := [{ name := "it's\"--", dbType := some .string,
                      defaultValue := some (.string "';'\n/*") }] }
    ∃ script, quotedPostgres.generate change = .ok script ∧
      (Dialect.postgres.splitter.withStripComments false).split script =
        [⟨"CREATE TABLE \"public\".\"a;b\" (\"it's\"\"--\" text NOT NULL DEFAULT ''';''\n/*')",
            .statement⟩,
          ⟨"COMMENT ON TABLE \"public\".\"a;b\" IS 'x''$$;'", .statement⟩] := by
  intro change
  have hown : change.OwnSql .postgres := ⟨rfl, by decide, by decide, absurd rfl⟩
  have htexts : quotedPostgres.statementTexts change =
      .ok ["CREATE TABLE \"public\".\"a;b\" (\"it's\"\"--\" text NOT NULL DEFAULT ''';''\n/*')",
        "COMMENT ON TABLE \"public\".\"a;b\" IS 'x''$$;'"] := by decide +kernel
  obtain ⟨script, hscript, hsplit, -⟩ :=
    exists_generate_split rfl rfl hown (by decide +kernel) htexts
  exact ⟨script, hscript, hsplit.trans (by decide +kernel)⟩

/-- An empty collation leaves a blank at the end of a statement, which its batch lacks. -/
theorem not_split_of_emptyCollation :
    let change : Change := .createColumn ⟨"t", none⟩
      { name := "c", dbType := some .string, nullable := some true, collation := some "" }
    let script := "ALTER TABLE \"public\".\"t\" ADD \"c\" text COLLATE "
    quotedPostgres.quoter.policy = .always ∧ change.OwnSql .postgres ∧
      Unquoted quotedPostgres.quoter change.names ∧
      quotedPostgres.statementTexts change = .ok [script] ∧
      quotedPostgres.generate change = .ok script ∧
      (Dialect.postgres.splitter.withStripComments false).split script ≠
        [⟨script, .statement⟩] := by
  refine ⟨rfl, ⟨rfl, by decide, by decide, absurd rfl⟩, by decide +kernel, by decide +kernel,
    by decide +kernel, by decide +kernel⟩

end SchemaChange
