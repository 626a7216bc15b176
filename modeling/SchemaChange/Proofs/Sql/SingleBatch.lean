import SchemaChange.Proofs.Sql.Scripts

/-!
# Generated scripts are one batch where GO lines separate

No line of a script that is written for a change separates, whatever line breaks stand in its
names and strings, as long as these are quoted. The comment that names the column of a dropped
default does not quote it.
-/
namespace SchemaChange

open Script Sql

section Batch

variable {d : Dialect} {mode : Mode} {o : Options} {change : Change} {script : String}

/-- Every statement of a change is a batch by itself. -/
theorem whole_write {p : Profile} {mark : Char} {sqls : List Sql} (hp : p.Wraps mark)
    (hown : change.OwnSql p.dialect) (htight : change.Tight)
    (hnames : Unquoted p.quoter change.names)
    (hline : p.dialect = .sqlServer → ∀ n ∈ change.unbound, '\n' ∉ n.toList)
    (hsqls : p.statements change = .ok sqls) :
    ∀ sql ∈ sqls, Whole p.dialect (sql.write p.quoter).toList := by
  intro sql hsql
  rw [Sql.toList_write, ← hp.same]
  obtain hstatement | ⟨-, hwhole⟩ := yields_stands hp hown hnames hline sqls hsqls sql hsql
  · exact hstatement.whole htight
  · exact hwhole

/-- The script of a change is one batch, or empty when nothing is left to do. Where defaults are
dropped by a script, the names of their columns must not go over to another line. -/
theorem generate_split_single (hd : d.splitter.separator = .go)
    (hpolicy : (Profile.of d mode o).quoter.policy = .always) (hown : change.OwnSql d)
    (hnames : Unquoted (Profile.of d mode o).quoter change.names)
    (hline : d = .sqlServer → ∀ n ∈ change.unbound, '\n' ∉ n.toList)
    (hscript : (Profile.of d mode o).generate change = .ok script) :
    (d.splitter.withStripComments false).split script =
      if script = "" then [] else [⟨script, .statement⟩] := by
  have hblocks : d ≠ .oracle := by
    rintro rfl
    cases hd
  have hpostgres : d ≠ .postgres := by
    rintro rfl
    cases hd
  obtain ⟨mark, hp⟩ := wraps_of hblocks mode o hpolicy
  have hdialect := Profile.dialect_of d mode o
  cases htexts : (Profile.of d mode o).statementTexts change with
  | error e => rw [Profile.generate, htexts] at hscript; cases hscript
  | ok texts =>
      rw [Profile.generate, htexts] at hscript
      obtain rfl := Except.ok.inj hscript
      obtain ⟨sqls, hsqls, rfl⟩ := exists_of_statementTexts htexts
      have hwhole := whole_write hp (hdialect.symm ▸ hown)
        (hown.tight fun h => absurd h hpostgres) hnames (hdialect.symm ▸ hline) hsqls
      rw [hdialect] at hwhole
      rw [Profile.joinStatements_eq_separated hp.notOracle]
      refine split_separated hd fun s hs => ?_
      obtain ⟨sql, hsql, rfl⟩ := List.mem_map.1 (List.mem_filter.1 hs).1
      exact hwhole sql hsql

/-- One statement is the whole script. -/
theorem generate_one {p : Profile} {sql : Sql} (hsqls : p.statements change = .ok [sql])
    (htext : (sql.chars p.quoter).all Text.isBlank = false) :
    p.generate change = .ok (sql.write p.quoter) ∧ sql.write p.quoter ≠ "" := by
  have hblank : Text.allBlank (sql.write p.quoter) = false := by
    rw [Text.allBlank, toList_write, htext]
  have htexts : p.statementTexts change = .ok [sql.write p.quoter] := by
    rw [Profile.statementTexts, hsqls]
    simp only [bind, Except.bind, pure, Except.pure, List.map_cons, List.map_nil]
    rw [List.filter_cons_of_pos (by simp [hblank]), List.filter_nil]
  refine ⟨by rw [Profile.generate, htexts]; rfl, fun hempty => ?_⟩
  rw [hempty] at hblank
  cases hblank

end Batch

/-- The lines in the name of a table do not separate, wherever the script holds that name. -/
theorem generate_split_single_dropDefault :
    let p := Profile.of .sqlServer .strict {}
    let change : Change := .deleteDefaultConstraint ⟨"a\nGO\nb", none⟩ "c"
    ∃ script, p.generate change = .ok script ∧
      (Dialect.sqlServer.splitter.withStripComments false).split script =
        [⟨script, .statement⟩] := by
  intro p change
  have hown : change.OwnSql .sqlServer := ⟨rfl, by decide, by decide, fun _ => by decide⟩
  have hsqls : p.statements change = .ok [p.dropDefaults ⟨"a\nGO\nb", none⟩ ["c"]] := rfl
  obtain ⟨hscript, hne⟩ := generate_one hsqls (by decide +kernel)
  have hsplit := generate_split_single rfl rfl hown (by decide +kernel) (fun _ => by decide)
    hscript
  exact ⟨_, hscript, hsplit.trans (if_neg hne)⟩

/-- A line break in the name of a column ends the comment that names it. -/
theorem not_split_single_of_newline :
    let p := Profile.of .sqlServer .strict {}
    let change : Change := .deleteDefaultConstraint ⟨"t", none⟩ "a\nGO"
    p.quoter.policy = .always ∧ change.OwnSql .sqlServer ∧ Unquoted p.quoter change.names ∧
      ∃ script, p.generate change = .ok script ∧
        ¬ (Dialect.sqlServer.splitter.withStripComments false).split script =
          if script = "" then [] else [⟨script, .statement⟩] := by
  intro p change
  have hsqls : p.statements change = .ok [p.dropDefaults ⟨"t", none⟩ ["a\nGO"]] := rfl
  obtain ⟨hscript, hne⟩ := generate_one hsqls (by decide +kernel)
  refine ⟨rfl, ⟨rfl, by decide, by decide, fun _ => by decide⟩, by decide +kernel, _, hscript,
    fun hsplit => ?_⟩
  rw [if_neg hne, split_eq_batches _ rfl, toList_write] at hsplit
  exact absurd (congrArg List.length hsplit) (by decide +kernel)

end SchemaChange
