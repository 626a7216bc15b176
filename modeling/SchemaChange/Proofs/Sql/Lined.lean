import SchemaChange.Proofs.Sql.Quoting
import SchemaChange.Sql.Statement

/-!
# Statements over several lines

One dialect drops the default of a column by a script, in which a comment names the column, and
replaces a description by a second statement. No line of them is a separator as long as the
comment ends with its line.
-/
namespace SchemaChange

open Script

namespace Sql

/-- SQL of which no line but perhaps the first one separates. -/
def Spread (q : Quoter) (sql : Sql) : Prop := Lined q.dialect (sql.chars q)

section Spread

variable {q : Quoter} {x y : Sql} {s s' : String}

theorem spread_nil (q : Quoter) : Spread q [] := lined_nil _

theorem Spread.then (hx : Spread q x) (hs : isLined s.toList = true) (hy : Spread q y) :
    Spread q (x ++ ([.code s] ++ y)) := by
  rw [Spread, chars_append, chars_append, chars_singleton]
  exact Lined.then hx hs hy

/-- Fixed SQL in two parts, of which only both together end with a line. -/
theorem Spread.then₂ (hx : Spread q x) (hs : isLined (s ++ s').toList = true) (hy : Spread q y) :
    Spread q (x ++ ([.code s] ++ ([.code s'] ++ y))) := by
  rw [String.toList_append] at hs
  rw [Spread, chars_append, chars_append, chars_append, chars_singleton, chars_singleton,
    Piece.write, Piece.write, ← List.append_assoc s.toList]
  exact Lined.then hx hs hy

theorem Spread.lead (hs : isLined s.toList = true) (hy : Spread q y) :
    Spread q ([.code s] ++ y) := .then (spread_nil q) hs hy

theorem Spread.lead₂ (hs : isLined (s ++ s').toList = true) (hy : Spread q y) :
    Spread q ([.code s] ++ ([.code s'] ++ y)) := .then₂ (spread_nil q) hs hy

theorem Spread.last (hx : Spread q x) (hs : isLined s.toList = true) :
    Spread q (x ++ [.code s]) := by
  simpa using hx.then hs (spread_nil q)

theorem spread_text (q : Quoter) (s : String) : Spread q (text s) := (woven_text q s).lined

/-- A comment that names a column, behind an empty line. The next line begins with fixed SQL. -/
theorem Spread.comment {note : List Char} (hs : s.toList = '\n' :: '\n' :: '-' :: '-' :: note)
    {column : String} (hnote : '\n' ∉ note ++ column.toList) (hs' : s'.toList.head? = some '\n')
    (hy : Spread q ([.code s'] ++ y)) :
    Spread q ([.code s] ++ (verbatim column ++ ([.code s'] ++ y))) := by
  have hhead : (chars q ([.code s'] ++ y)).head? = some '\n' := by
    rw [chars_append, chars_singleton, Piece.write, List.head?_append, hs', Option.some_or]
  rw [Spread, chars_append, chars_append, chars_singleton, verbatim, chars_singleton, Piece.write,
    Piece.write, hs]
  exact Lined.comment hnote hy hhead

end Spread

/-- More parts behind a statement, each of which ends with a semicolon. -/
theorem whole_flatMap {q : Quoter} {first : Sql} {part : String → Sql} {columns : List String}
    (hfirst : Whole q.dialect (first.chars q))
    (hpart : ∀ c ∈ columns, Spread q (part c) ∧ Apart ((part c).chars q) ∧
      ((part c).chars q).getLast? = some ';') :
    Whole q.dialect (chars q (first ++ columns.flatMap part)) := by
  induction columns generalizing first with
  | nil => simpa using hfirst
  | cons c columns ih =>
      obtain ⟨hspread, hapart, hlast⟩ := hpart c (List.mem_cons_self ..)
      rw [List.flatMap_cons, ← List.append_assoc]
      refine ih ?_ fun c hc => hpart c (List.mem_cons_of_mem _ hc)
      rw [chars_append]
      exact hfirst.more hspread hapart (by simp only [hlast]; decide)

end Sql

open Sql

variable {p : Profile} {table : ObjectName}

/-- The script that drops defaults, if no comment in it goes over to another line. -/
theorem whole_dropDefaults {columns : List String} (h : ∀ c ∈ columns, '\n' ∉ c.toList) :
    Whole p.quoter.dialect ((p.dropDefaults table columns).chars p.quoter) := by
  rw [Profile.dropDefaults]
  refine whole_flatMap ?_ fun column hcolumn => ?_
  · rw [chars_singleton, Piece.write]
    refine ⟨fun rest _ => unbroken_of_isLined _ ?_ rest, ?_, ?_⟩ <;> decide +kernel
  · have hnote : '\n' ∉ " drop the default bound to ".toList ++ column.toList := by
      simp [h column hcolumn]
    have htext := spread_text p.quoter
    refine ⟨?_, ?_, ?_⟩
    · simp only [List.append_assoc]
      refine .comment (by decide +kernel) hnote (by decide +kernel) ?_
      refine .lead₂ (by decide +kernel) (.then₂ (htext _) (by decide +kernel)
        (.then (htext _) (by decide +kernel) (.then (htext _) (by decide +kernel)
          (.last (htext _) (by decide +kernel)))))
    · simp only [List.append_assoc, chars_append, chars_singleton, Piece.write]
      exact apart_cons (by decide) _
    · have hlast : " + QUOTENAME(@default);\nEXEC sp_executesql @sql;".toList.getLast? =
          some ';' := by decide +kernel
      rw [chars_append, chars_singleton, Piece.write, List.getLast?_append, hlast, Option.some_or]

section Properties

variable {q : Quoter} {tight : Prop}

theorem closing_propertyLevels (schema table : String) (column : Option String) :
    Closing q tight (Profile.propertyLevels schema table column) := by
  have htext := woven_text q
  cases column with
  | none =>
      simp only [Profile.propertyLevels, List.append_assoc]
      exact .lead (by decide +kernel) (.then (htext _) (by decide +kernel) (closing_text q _))
  | some column =>
      simp only [Profile.propertyLevels, List.append_assoc]
      exact .lead (by decide +kernel) (.then (htext _) (by decide +kernel)
        (.then (htext _) (by decide +kernel) (closing_text q _)))

/-- A description that is new. -/
theorem statement_extendedProperty (table : ObjectName) (column : Option String)
    (description : String) :
    Statement q tight ((p.extendedProperty table column description false)) := by
  simp only [Profile.extendedProperty, List.append_assoc, Bool.false_eq_true, if_false]
  exact .lead (by decide +kernel) (.then (woven_text q _) (by decide +kernel)
    (closing_propertyLevels _ _ _))

/-- A description that replaces another one. -/
theorem whole_extendedProperty (table : ObjectName) (column : Option String)
    (description : String) :
    Whole q.dialect ((p.extendedProperty table column description true).chars q) := by
  have htext := spread_text q
  have hlevels : ∀ schema name column,
      Closing q True (Profile.propertyLevels schema name column) := closing_propertyLevels
  have hends : Ends q (p.extendedProperty table column description true) := by
    simp only [Profile.extendedProperty, if_true]
    exact (((hlevels _ _ _).ends trivial).append _).append _
  have hlined : ∀ schema name column,
      Spread q (Profile.propertyLevels schema name column) := fun _ _ _ =>
    (hlevels _ _ _).woven.lined
  refine whole_of_ends ?_ ?_ hends
  · simp only [Profile.extendedProperty, List.append_assoc, if_true]
    refine Spread.lead (by decide +kernel) (.then (htext _) (by decide +kernel)
      (.then (htext _) (by decide +kernel) (.then ?filter (by decide +kernel)
        (.then₂ (hlined _ _ _) (by decide +kernel) (.then (htext _) (by decide +kernel)
          (hlined _ _ _))))))
    cases column with
    | some column => exact .lead (by decide +kernel) (htext _)
    | none => exact .last (spread_nil q) (by decide +kernel)
  · simp only [Profile.extendedProperty, List.append_assoc, if_true]
    exact (begins_code (by decide +kernel)).append _

end Properties

end SchemaChange
