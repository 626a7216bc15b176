import SchemaChange.Dialect.Known
import SchemaChange.Proofs.Sql.Woven
import SchemaChange.Sql.Literal

/-!
# Names and texts in scripts

A name in quotes and a string literal are read as wholes: every quote inside them is
doubled, so the range that opens with the first quote closes with the last one.
-/
namespace SchemaChange

open Script

/-- A quoter that wraps every name in quotes that scripts of its dialect know, of which the mark
is the closing one. -/
structure Quoter.Wraps (q : Quoter) (mark : Char) : Prop where
  opening : q.opening.toList = [opener mark]
  closing : q.closing.toList = [mark]
  always : q.policy = .always
  quotes : Quotes q.dialect mark
  delimits : isQuote mark

theorem doubled_replaceAll (mark : Char) (cs : List Char) :
    Doubled mark (Text.replaceAll [mark] [mark, mark] cs) := by
  induction cs with
  | nil => simpa [Text.replaceAll] using Doubled.nil
  | cons c cs ih =>
      by_cases hc : mark = c
      · subst hc
        simpa [Text.replaceAll, List.isPrefixOf] using ih.pair
      · simpa [Text.replaceAll, List.isPrefixOf, hc] using ih.other (Ne.symm hc)

theorem doubled_escape (d : Dialect) (cs : List Char) :
    Doubled '\x27' (cs.flatMap (Quoter.escape d)) := by
  induction cs with
  | nil => exact .nil
  | cons c cs ih =>
      rw [List.flatMap_cons, Quoter.escape]
      split
      · exact ih.pair
      · rename_i hc
        split
        · exact .other (by decide) (.other (by decide) ih)
        · exact .other hc ih

/-- Every text is read as a whole. -/
theorem woven_text (q : Quoter) (s : String) : Sql.Woven q (Sql.text s) := by
  have hbody := doubled_escape q.dialect s.toList
  have hquoted := standing_quoted (quotes_single q.dialect) (by decide) hbody
  have hnational : Firm q.dialect ['N'] := firm (by decide)
  refine .one ?_
  rw [Piece.write, Quoter.string, String.toList_ofList]
  split
  · exact hquoted.lead hnational
  · exact hquoted

theorem closing_text (q : Quoter) (s : String) {tight : Prop} :
    Sql.Closing q tight (Sql.text s) where
  woven := woven_text q s
  ends _ := by
    refine ⟨'\x27', ?_, by decide⟩
    rw [Sql.text, Sql.chars_singleton, Piece.write, Quoter.string, String.toList_ofList,
      List.getLast?_append, getLast?_quoted, Option.some_or]

namespace Quoter.Wraps

variable {q : Quoter} {mark : Char}

theorem quote_eq (hq : q.Wraps mark) {n : String} (hn : q.isQuoted n = false) (hne : n ≠ "") :
    (q.quote n).toList =
      opener mark :: (Text.replaceAll [mark] [mark, mark] n.toList ++ [mark]) := by
  have hempty : n.isEmpty = false := by simpa using hne
  simp [quote, hempty, hn, needsQuoting, hq.always, wrap, doubledClosing, hq.opening, hq.closing]

/-- A name is read as a whole unless it stands in quotes of its own. -/
theorem woven_name (hq : q.Wraps mark) {n : String} (hn : q.isQuoted n = false) :
    Sql.Woven q (Sql.name n) := by
  refine .one ?_
  by_cases hne : n = ""
  · subst hne
    exact ⟨fun rest _ => .nil _ rest, by simp [Piece.write, quote, Text.trimEnd]⟩
  · rw [Piece.write, hq.quote_eq hn hne]
    exact standing_quoted hq.quotes hq.delimits (doubled_replaceAll mark _)

theorem closing_name (hq : q.Wraps mark) {n : String} (hn : q.isQuoted n = false)
    {tight : Prop} (hne : tight → n ≠ "") : Sql.Closing q tight (Sql.name n) where
  woven := hq.woven_name hn
  ends h := by
    refine ⟨mark, ?_, (isBlank_of_isQuote hq.delimits).1⟩
    rw [Sql.name, Sql.chars_singleton, Piece.write, hq.quote_eq hn (hne h), getLast?_quoted]

theorem woven_names (hq : q.Wraps mark) {columns : List String}
    (hn : ∀ n ∈ columns, q.isQuoted n = false) : Sql.Woven q (Sql.names columns) := by
  refine .list fun part hpart => ?_
  obtain ⟨n, hmem, rfl⟩ := List.mem_map.1 hpart
  exact hq.woven_name (hn n hmem)

/-- An object is read as a whole with its schema. -/
theorem closing_object (hq : q.Wraps mark) {n : ObjectName}
    (hschema : ∀ schema, q.schemaOf? n.schema = some schema → q.isQuoted schema = false)
    (hn : q.isQuoted n.name = false) {tight : Prop} (hne : tight → n.name ≠ "") :
    Sql.Closing q tight (q.object n) := by
  rw [object]
  split
  · rename_i schema hs
    exact .then (hq.woven_name (hschema schema hs)) (by decide) (hq.closing_name hn hne)
  · exact hq.closing_name hn hne

end Quoter.Wraps

/-- The quoters of all dialects but the one with blocks wrap every name when the policy asks for
that. -/
theorem wraps_profile {d : Dialect} (hd : d ≠ .oracle) (mode : Mode)
    (o : Options) (hpolicy : (Profile.of d mode o).quoter.policy = .always) :
    ∃ mark, (Profile.of d mode o).quoter.Wraps mark := by
  have hdouble : "\"".toList = ['"'] := by decide
  have hback : "\x60".toList = ['\x60'] := by decide
  have hopening : "[".toList = ['['] := by decide
  have hclosing : "]".toList = [']'] := by decide
  cases d with
  | oracle => exact absurd rfl hd
  | postgres | hana | snowflake | sqlite =>
      exact ⟨'"', hdouble, hdouble, hpolicy, fun rest => rfl, rfl⟩
  | mySql => exact ⟨'\x60', hback, hback, hpolicy, fun rest => rfl, rfl⟩
  | sqlServer => exact ⟨']', hopening, hclosing, hpolicy, fun rest => rfl, rfl⟩

end SchemaChange
