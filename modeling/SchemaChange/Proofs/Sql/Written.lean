import SchemaChange.Proofs.Sql.Scripts

/-!
# The text of SQL in pieces

The text of a part is the text of its pieces in order, with the separators written between joined
parts. A statement that begins with a word is never left out as blank.
-/
namespace SchemaChange

namespace Sql

section Text

variable (q : Quoter)

@[simp] theorem write_append (x y : Sql) : write q (x ++ y) = write q x ++ write q y := by
  apply String.toList_injective
  rw [String.toList_append, toList_write, toList_write, toList_write, chars_append]

@[simp] theorem write_code (s : String) : write q [.code s] = s := by simp [write, Piece.write]

@[simp] theorem write_name (n : String) : write q (name n) = q.quote n := by
  simp [write, name, Piece.write]

theorem write_join (separator : Sql) (parts : List Sql) :
    write q (join separator parts) = (write q separator).intercalate (parts.map (write q)) := by
  induction parts with
  | nil => rfl
  | cons part parts ih =>
      cases parts with
      | nil => simp [join]
      | cons next parts =>
          rw [join, write_append, write_append, ih, List.map_cons, List.map_cons, List.map_cons,
            String.intercalate_cons_cons]
          simp

theorem write_flatten (parts : List Sql) :
    write q parts.flatten = String.join (parts.map (write q)) := by
  induction parts with
  | nil => rfl
  | cons part parts ih =>
      rw [List.flatten_cons, write_append, ih, List.map_cons, String.join_cons]

theorem write_list (parts : List Sql) :
    write q (list parts) = ", ".intercalate (parts.map (write q)) := by
  rw [list, write_join, write_code]

theorem write_names (columns : List String) :
    write q (names columns) = ", ".intercalate (columns.map q.quote) := by
  simp [names, write_list, Function.comp_def]

end Text

/-- Whether SQL begins with a word of the library's own. -/
def isWorded : Sql → Bool
  | .code code :: _ => !Text.allBlank code
  | _ => false

theorem isWorded_ofList {c : Char} (h : Text.isBlank c = false) (cs : List Char) :
    Sql.isWorded [.code (String.ofList (c :: cs))] = true := by
  rw [isWorded, Text.allBlank, String.toList_ofList, List.all_cons, h]
  rfl

theorem isWorded_append {sql : Sql} (h : sql.isWorded = true) (rest : Sql) :
    Sql.isWorded (sql ++ rest) = true := by
  match sql, h with
  | .code code :: pieces, h => exact h

theorem allBlank_write {sql : Sql} (h : sql.isWorded = true) (q : Quoter) :
    Text.allBlank (sql.write q) = false := by
  match sql, h with
  | .code code :: rest, h =>
      have hcode : code.toList.all Text.isBlank = false := by
        rw [isWorded, Bool.not_eq_true'] at h
        exact h
      rw [Text.allBlank, toList_write, chars, List.flatMap_cons, List.all_append, Piece.write,
        hcode, Bool.false_and]

end Sql

section Texts

variable {p : Profile} {change : Change} {texts : List String}

/-- A change with statements is valid. -/
theorem check_of_statements {sqls : List Sql} (h : p.statements change = .ok sqls) :
    change.check = .ok () ∧ p.statementsOfValid change = .ok sqls := by
  rw [Profile.statements] at h
  obtain ⟨⟨⟩, hvalid, h⟩ := exists_of_bind h
  refine ⟨?_, h⟩
  rw [Change.validate, Check.orFail] at hvalid
  cases hcheck : change.check with
  | error e => rw [hcheck] at hvalid; cases hvalid
  | ok u => rfl

/-- The texts of a valid change are those of its statements. None is left out if they all begin
with words. -/
theorem exists_statements (htexts : p.statementTexts change = .ok texts) :
    ∃ sqls, change.check = .ok () ∧ p.statementsOfValid change = .ok sqls ∧
      ((∀ sql ∈ sqls, sql.isWorded = true) → texts = sqls.map (Sql.write p.quoter)) := by
  obtain ⟨sqls, hsqls, rfl⟩ := exists_of_statementTexts htexts
  obtain ⟨hcheck, hstatements⟩ := check_of_statements hsqls
  refine ⟨sqls, hcheck, hstatements, fun hworded => List.filter_eq_self.2 fun text htext => ?_⟩
  obtain ⟨sql, hsql, rfl⟩ := List.mem_map.1 htext
  rw [Sql.allBlank_write (hworded sql hsql)]
  rfl

/-- The statements of a valid change that all begin with words are written one by one. -/
theorem statementTexts_of_isWorded {sqls : List Sql}
    (hcheck : change.check = .ok ()) (hsqls : p.statementsOfValid change = .ok sqls)
    (hworded : ∀ sql ∈ sqls, sql.isWorded = true) :
    p.statements change = .ok sqls ∧
      p.statementTexts change = .ok (sqls.map (Sql.write p.quoter)) := by
  have hstatements : p.statements change = .ok sqls := by
    rw [Profile.statements, Change.validate, hcheck]
    exact hsqls
  obtain ⟨texts, htexts⟩ : ∃ texts, p.statementTexts change = .ok texts := by
    rw [Profile.statementTexts, hstatements]
    exact ⟨_, rfl⟩
  obtain ⟨sqls', -, hsqls', hwritten⟩ := exists_statements htexts
  obtain rfl : sqls = sqls' := Except.ok.inj (hsqls.symm.trans hsqls')
  exact ⟨hstatements, by rw [htexts, hwritten hworded]⟩

end Texts

end SchemaChange
