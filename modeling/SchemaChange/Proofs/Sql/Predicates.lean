import SchemaChange.Proofs.Sql.Identifier
import SchemaChange.Proofs.Sql.Written

/-!
# Rows that updates and deletions touch

A change of some rows writes one statement for each row of predicates, and the condition of the
statement is the conjunction of the predicates of that row. A deletion accepts a row without
predicates and then touches every row; an update does not.
-/
namespace SchemaChange

open Sql

namespace Change

/-- The rows of predicates of a change that is not asked to touch every row. -/
def selections? : Change → Option (List Row)
  | updateData _ _ filter false => some [filter]
  | deleteData _ rows false => some rows
  | _ => none

/-- The rows of predicates of a deletion that is not asked to touch every row. -/
def deletions : Change → List Row
  | deleteData _ rows false => rows
  | _ => []

end Change

namespace Profile

/-- The predicate of one entry: NULL is tested for, any other value is compared with. -/
inductive Predicate (p : Profile) : String × Literal → String → Prop
  | isNull (column : String) : Predicate p (column, .null) (p.quoter.quote column ++ " IS NULL")
  | equals {column : String} {value : Literal} {sql : Sql} (hvalue : value ≠ .null)
      (hsql : value.sql p.dialect = .ok sql) :
      Predicate p (column, value) (p.quoter.quote column ++ " = " ++ sql.write p.quoter)

/-- The condition is a conjunction of one predicate for each entry of a row, in their order, and
of at least one. It reads as the one that holds for every row in no case but this: the only column
of the row is named `1`, and names stand without quotes. -/
structure Selects (p : Profile) (row : Row) (condition : String) : Prop where
  conjunction : ∃ predicates, predicates ≠ [] ∧
    List.Forall₂ p.Predicate row.entries predicates ∧ condition = " AND ".intercalate predicates
  bounded : condition = "1 = 1" → p.quoter.policy = .never ∧ row.columns = ["1"]

/-- What stands before the condition of a statement. -/
def Targets (p : Profile) (target : String) : Change → Prop
  | .updateData table assignments _ _ => ∃ parts,
      List.Forall₂ (fun entry part => ∃ sql, entry.2.sql p.dialect = .ok sql ∧
        part = p.quoter.quote entry.1 ++ " = " ++ sql.write p.quoter) assignments.entries parts ∧
      target = "UPDATE " ++ p.quoter.quoteObject table ++ " SET " ++ ", ".intercalate parts
  | .deleteData table _ _ => target = "DELETE FROM " ++ p.quoter.quoteObject table
  | _ => False

/-- Every statement of the change touches only what a row of predicates selects. -/
def Restricts (p : Profile) (change : Change) (rows : List Row) (texts : List String) : Prop :=
  ∃ target, p.Targets target change ∧
    List.Forall₂ (fun row text => ∃ condition, text = target ++ " WHERE " ++ condition ∧
      p.Selects row condition) rows texts

end Profile

section Conditions

variable {p : Profile}

theorem write_assignment {column : String} {value : Literal} {sql : Sql}
    (h : p.assignment column value = .ok sql) : ∃ v, value.sql p.dialect = .ok v ∧
      sql.write p.quoter = p.quoter.quote column ++ " = " ++ v.write p.quoter := by
  obtain ⟨v, hv, h⟩ := exists_of_bind h
  cases h
  exact ⟨v, hv, by simp only [write_append, write_name, write_code]⟩

theorem predicate_write {entry : String × Literal} {sql : Sql}
    (h : p.predicate entry.1 entry.2 = .ok sql) : p.Predicate entry (sql.write p.quoter) := by
  obtain ⟨column, value⟩ := entry
  cases value with
  | null =>
      cases h
      simpa using Profile.Predicate.isNull (p := p) column
  | _ =>
      obtain ⟨v, hv, hwrite⟩ := write_assignment h
      rw [hwrite]
      exact .equals nofun hv

/-- The condition of a row with entries. -/
theorem conjunction_of_condition {row : Row} {sql : Sql} (hrow : row.isEmpty = false)
    (h : p.condition row = .ok sql) : ∃ predicates, predicates ≠ [] ∧
      List.Forall₂ p.Predicate row.entries predicates ∧
      sql.write p.quoter = " AND ".intercalate predicates := by
  rw [Profile.condition, hrow] at h
  obtain ⟨parts, hparts, h⟩ := exists_of_bind h
  cases h
  have hall := forall₂_of_mapM hparts
  refine ⟨parts.map (Sql.write p.quoter), ?_, ?_, by rw [write_join, write_code]⟩
  · rintro hnil
    rw [List.map_eq_nil_iff.1 hnil, List.forall₂_nil_right_iff] at hall
    rw [Row.isEmpty, hall] at hrow
    cases hrow
  · exact List.forall₂_map_right_iff.2 (hall.imp fun _ _ => predicate_write)

/-- A row without predicates selects nothing. -/
theorem Profile.Selects.isEmpty_eq_false {row : Row} {condition : String}
    (h : p.Selects row condition) : row.isEmpty = false := by
  obtain ⟨⟨predicates, hne, hall, -⟩, -⟩ := h
  refine Bool.eq_false_iff.2 fun hempty => hne ?_
  rwa [List.isEmpty_iff.1 hempty, List.forall₂_nil_left_iff] at hall

end Conditions

section Bounded

variable {d : Dialect} {mode : Mode} {o : Options}

theorem opening_profile (d : Dialect) (mode : Mode) (o : Options) :
    (Profile.of d mode o).quoter.opening.toList = [d.openingQuote] := by
  have hsame : (Profile.of d mode o).quoter.opening = (Profile.of d .strict {}).quoter.opening := by
    cases d <;> rfl
  rw [hsame]
  cases d <;> decide

/-- A name that needs no quotes begins with a letter or an underscore. -/
theorem isDigit_of_isSimpleName {c : Char} {cs : List Char} (h : isSimpleName (c :: cs) = true) :
    c.isDigit = false := by
  have hletter : ('a' ≤ c ∧ c ≤ 'z') ∨ c = '_' := by
    simpa using (Bool.and_eq_true_iff.1 h).1
  rcases hletter with ⟨hlow, -⟩ | rfl
  · rw [Char.isDigit, Bool.and_eq_false_iff]
    refine .inr (decide_eq_false fun hhigh => ?_)
    exact absurd (Char.le_trans hlow hhigh) (by decide)
  · rfl

/-- A written name begins with a quote, a letter or an underscore, unless nothing is quoted. -/
theorem isDigit_head?_quote (hpolicy : (Profile.of d mode o).quoter.policy ≠ .never) {n : String}
    {c : Char} (hc : ((Profile.of d mode o).quoter.quote n).toList.head? = some c) :
    c.isDigit = false := by
  have hopening := opening_profile d mode o
  have hmark : d.openingQuote.isDigit = false := by cases d <;> rfl
  generalize (Profile.of d mode o).quoter = q at hpolicy hopening hc
  rw [Quoter.quote] at hc
  split at hc
  · rename_i hkept
    simp only [Bool.or_eq_true, Bool.not_eq_true'] at hkept
    rcases hkept with (hempty | hquoted) | hplain
    · rw [String.isEmpty_iff.1 hempty] at hc
      cases hc
    · simp only [Quoter.isQuoted, hopening, Bool.and_eq_true, List.isPrefixOf_iff_prefix]
        at hquoted
      obtain ⟨rest, hrest⟩ := hquoted.1.2
      rw [← hrest] at hc
      cases hc
      exact hmark
    · -- the name is one that needs no quotes
      obtain ⟨cs, hcs⟩ := List.head?_eq_some_iff.1 hc
      have hsimple : isSimpleName (c :: cs) = true := by
        rw [Quoter.needsQuoting] at hplain
        split at hplain
        · cases hplain
        · exact absurd ‹_› hpolicy
        · rw [← hcs]
          simpa using (Bool.or_eq_false_iff.1 hplain).1
      exact isDigit_of_isSimpleName hsimple
  · rw [String.toList_ofList, Quoter.wrap, hopening] at hc
    cases hc
    exact hmark

/-- What is compared with one where every row is meant is one itself. -/
theorem eq_one_of_append {xs ys : List Char}
    (h : "1 = 1".toList = xs ++ " = ".toList ++ ys) : xs = ['1'] := by
  have hchars : "1 = 1".toList = ['1', ' ', '=', ' ', '1'] := by decide
  have hequals : " = ".toList = [' ', '=', ' '] := by decide
  rw [hchars, hequals, List.append_assoc] at h
  match xs with
  | [] => cases h
  | [c] =>
      cases h
      rfl
  | [c, c'] => simp at h
  | c :: c' :: c'' :: rest =>
      have hlength := congrArg List.length h
      simp at hlength
      omega

/-- Only where nothing is quoted can one predicate be what holds for every row. -/
theorem Profile.Predicate.eq_one {entry : String × Literal} {text : String}
    (h : (Profile.of d mode o).Predicate entry text) (htext : text = "1 = 1") :
    (Profile.of d mode o).quoter.policy = .never ∧ entry.1 = "1" := by
  cases h with
  | isNull column =>
      have hmem : 'I' ∈ "1 = 1".toList := by
        rw [← htext, String.toList_append]
        exact List.mem_append_right _ (by decide)
      exact absurd hmem (by decide)
  | @equals column value sql hvalue hsql =>
      have hchars := congrArg String.toList htext.symm
      rw [String.toList_append, String.toList_append] at hchars
      have hone := eq_one_of_append hchars
      have hpolicy : (Profile.of d mode o).quoter.policy = .never :=
        Decidable.byContradiction fun hpolicy =>
          absurd (isDigit_head?_quote hpolicy (congrArg List.head? hone)) (by decide)
      have hkept : (Profile.of d mode o).quoter.quote column = column := by
        simp [Quoter.quote, Quoter.needsQuoting, hpolicy]
      rw [hkept] at hone
      exact ⟨hpolicy, String.toList_injective hone⟩

/-- A conjunction of predicates is not what holds for every row, that one predicate apart. -/
theorem bounded_of_conjunction {row : Row} {predicates : List String} (hne : predicates ≠ [])
    (hall : List.Forall₂ (Profile.of d mode o).Predicate row.entries predicates)
    (h : " AND ".intercalate predicates = "1 = 1") :
    (Profile.of d mode o).quoter.policy = .never ∧ row.columns = ["1"] := by
  rw [Row.columns]
  generalize row.entries = entries at hall
  cases hall with
  | nil => exact absurd rfl hne
  | @cons entry predicate entries others hfirst hothers =>
      cases hothers with
      | nil =>
          obtain ⟨hpolicy, hcolumn⟩ := hfirst.eq_one h
          exact ⟨hpolicy, by rw [List.map_singleton, hcolumn]⟩
      | cons _ _ =>
          have hmem : 'A' ∈ "1 = 1".toList := by
            rw [← h, String.intercalate_cons_cons, String.toList_append, String.toList_append]
            exact List.mem_append_left _ (List.mem_append_right _ (by decide))
          exact absurd hmem (by decide)

end Bounded

section Statements

variable {p : Profile} {change : Change} {rows : List Row} {texts : List String}

/-- Behind the target of the change, every row has its statement with its condition. -/
def Profile.Conditions (p : Profile) (change : Change) (rows : List Row) (texts : List String) :
    Prop :=
  ∃ target, p.Targets target change ∧
    List.Forall₂ (fun row text => ∃ condition, p.condition row = .ok condition ∧
      text = target ++ " WHERE " ++ condition.write p.quoter) rows texts

/-- The one statement of an update, whose row of predicates is not empty. -/
theorem conditions_updateData {table : ObjectName} {assignments filter : Row}
    (htexts : p.statementTexts (.updateData table assignments filter false) = .ok texts) :
    filter.isEmpty = false ∧
      p.Conditions (.updateData table assignments filter false) [filter] texts := by
  obtain ⟨sqls, hcheck, hstatements, hwritten⟩ := exists_statements htexts
  have hfilter : filter.isEmpty = false := by
    obtain ⟨-, hcheck⟩ := check_bind hcheck
    obtain ⟨-, hcheck⟩ := check_bind hcheck
    cases hempty : filter.isEmpty with
    | true => rw [hempty] at hcheck; cases hcheck
    | false => rfl
  obtain ⟨update, hupdate, h⟩ := exists_of_bind hstatements
  obtain ⟨parts, hparts, hupdate⟩ := exists_of_bind hupdate
  obtain ⟨condition, hcondition, hsql⟩ := exists_of_bind hupdate
  cases h
  cases hsql
  rw [hwritten (List.forall_mem_singleton.2 rfl), List.map_singleton]
  refine ⟨hfilter, _, ⟨parts.map (Sql.write p.quoter), ?_, rfl⟩,
    .cons ⟨condition, hcondition, ?_⟩ .nil⟩
  · exact List.forall₂_map_right_iff.2
      ((forall₂_of_mapM hparts).imp fun entry part h => write_assignment h)
  · simp only [Profile.update, write_append, write_code, write_list, Quoter.quoteObject]

/-- The statements of a deletion. -/
theorem conditions_deleteData {table : ObjectName}
    (htexts : p.statementTexts (.deleteData table rows false) = .ok texts) :
    p.Conditions (.deleteData table rows false) rows texts := by
  obtain ⟨sqls, -, hstatements, hwritten⟩ := exists_statements htexts
  have hdelete : rows.mapM (fun row => do return p.delete table (← p.condition row)) =
    .ok sqls := hstatements
  have hworded : Yields (rows.mapM fun row => do return p.delete table (← p.condition row))
      (∀ sql ∈ ·, sql.isWorded = true) :=
    yields_mapM fun row _ => yields_bind _ fun condition _ => yields_ok rfl
  rw [hwritten (hworded sqls hdelete)]
  refine ⟨_, rfl, List.forall₂_map_right_iff.2 ((forall₂_of_mapM hdelete).imp fun row sql h => ?_)⟩
  obtain ⟨condition, hcondition, h⟩ := exists_of_bind h
  cases h
  refine ⟨condition, hcondition, ?_⟩
  simp only [Profile.delete, write_append, write_code, Quoter.quoteObject]

/-- What is written for a change of some rows. Only a deletion accepts a row without predicates. -/
theorem conditions_of_statementTexts (hrows : change.selections? = some rows)
    (htexts : p.statementTexts change = .ok texts) : p.Conditions change rows texts ∧
      ((∀ row ∈ change.deletions, row.isEmpty = false) → ∀ row ∈ rows, row.isEmpty = false) ∧
      change.deletions ⊆ rows := by
  cases change with
  | updateData table assignments filter allRows =>
      cases allRows with
      | true => cases hrows
      | false =>
          cases hrows
          obtain ⟨hfilter, hconditions⟩ := conditions_updateData htexts
          exact ⟨hconditions, fun _ => List.forall_mem_singleton.2 hfilter, nofun⟩
  | deleteData table deleted allRows =>
      cases allRows with
      | true => cases hrows
      | false =>
          cases hrows
          exact ⟨conditions_deleteData htexts, id, List.Subset.refl _⟩
  | _ => cases hrows

end Statements

section Restricted

variable {d : Dialect} {mode : Mode} {o : Options} {change : Change} {rows : List Row}
  {texts : List String}

/-- The statements of an accepted update or deletion of some rows touch only what their predicates
select, unless a row of a deletion has no predicates. -/
theorem restricts_iff (hrows : change.selections? = some rows)
    (htexts : (Profile.of d mode o).statementTexts change = .ok texts) :
    (Profile.of d mode o).Restricts change rows texts ↔
      ∀ row ∈ change.deletions, row.isEmpty = false := by
  obtain ⟨⟨target, htarget, hall⟩, hne, hsub⟩ := conditions_of_statementTexts hrows htexts
  constructor
  · rintro ⟨target', -, hselects⟩ row hrow
    obtain ⟨text, -, condition, -, hselected⟩ := exists_of_forall₂ hselects (hsub hrow)
    exact hselected.isEmpty_eq_false
  · intro hdeletions
    have hrowed := (List.forall₂_and_left _ _).2 ⟨hne hdeletions, hall⟩
    refine ⟨target, htarget, hrowed.imp fun row text h => ?_⟩
    obtain ⟨hrow, condition, hcondition, htext⟩ := h
    obtain ⟨predicates, hnil, hpredicates, hwrite⟩ := conjunction_of_condition hrow hcondition
    refine ⟨_, htext, ⟨predicates, hnil, hpredicates, hwrite⟩, fun hbound => ?_⟩
    exact bounded_of_conjunction hnil hpredicates (hwrite ▸ hbound)

/-- Two rows of predicates, one of them with a test for NULL. -/
theorem restricts_deleteData :
    let p := Profile.of .postgres .strict {}
    let rows := [Row.ofList [("id", .int 7), ("note", .null)],
      Row.ofList [("name", .string "O'Brien")]]
    let change : Change := .deleteData ⟨"users", none⟩ rows false
    let texts := ["DELETE FROM \"public\".\"users\" WHERE \"id\" = 7 AND \"note\" IS NULL",
      "DELETE FROM \"public\".\"users\" WHERE \"name\" = 'O''Brien'"]
    change.selections? = some rows ∧ p.statementTexts change = .ok texts ∧
      p.Restricts change rows texts := by
  intro p rows change texts
  have htexts : p.statementTexts change = .ok texts := by decide +kernel
  exact ⟨rfl, htexts, (restricts_iff rfl htexts).2 (by decide)⟩

/-- A deletion accepts a row without predicates among its rows and deletes every row. -/
theorem not_restricts_of_emptyRow :
    let p := Profile.of .postgres .strict {}
    let rows := [Row.empty]
    let change : Change := .deleteData ⟨"users", none⟩ rows false
    let texts := ["DELETE FROM \"public\".\"users\" WHERE 1 = 1"]
    change.selections? = some rows ∧ p.statementTexts change = .ok texts ∧
      ¬ p.Restricts change rows texts := by
  intro p rows change texts
  refine ⟨rfl, by decide +kernel, ?_⟩
  rintro ⟨target, -, hall⟩
  obtain ⟨⟨condition, -, hselects⟩, -⟩ := List.forall₂_cons.1 hall
  exact absurd hselects.isEmpty_eq_false (by decide)

end Restricted

end SchemaChange
