import SchemaChange.Naming.Convention
import SchemaChange.Proofs.Sql.Quoting

/-!
# Derived names

A conventional name begins with a letter that its pattern gives, also when it is shortened.
It never stands in quotes.
-/
namespace SchemaChange

open Script

namespace Naming

theorem head_format {pattern : String} {c : Char} {cs : List Char}
    (hp : pattern.toList = c :: cs) (hc : c ≠ '\x7b') (values : List (String × String)) :
    (format pattern values).toList.head? = some c := by
  rw [format, String.toList_ofList, hp, fill, if_neg hc]
  rfl

/-- A shortened name begins like the full one, or with an underscore. -/
theorem head_truncate {name : String} {c : Char} (h : name.toList.head? = some c)
    {limit : Nat} (hl : digestDigits + 1 < limit) :
    ∃ c', (truncate name limit).toList.head? = some c' ∧ (c' = c ∨ c' = '_') := by
  simp only [truncate]
  split
  · exact ⟨c, h, .inl rfl⟩
  · rw [if_neg (by omega), String.toList_ofList]
    obtain ⟨cs, hcs⟩ := List.head?_eq_some_iff.1 h
    rw [hcs, Text.takeBytes]
    split
    · exact ⟨c, rfl, .inl rfl⟩
    · exact ⟨'_', rfl, .inr rfl⟩

end Naming

namespace Quoter.Wraps

variable {q : Quoter} {mark : Char}

theorem isQuoted_of_head (hq : q.Wraps mark) {name : String} {c : Char}
    (h : name.toList.head? = some c) (hc : isMark c = false) : q.isQuoted name = false := by
  obtain ⟨cs, hcs⟩ := List.head?_eq_some_iff.1 h
  have hmark : opener mark ≠ c := fun he => by simp [← he, isMark_opener hq.delimits] at hc
  simp [isQuoted, hq.opening, hcs, List.isPrefixOf, hmark]

/-- A conventional name is read as a whole. -/
theorem closing_derived (hq : q.Wraps mark) {pattern : String} {c : Char} {cs : List Char}
    (hp : pattern.toList = c :: cs) (hc : (isMark c || c == '\x7b') = false)
    (values : List (String × String)) {limit : Nat} (hl : Naming.digestDigits + 1 < limit)
    (tight : Prop) :
    Sql.Closing q tight (Sql.name (Naming.truncate (Naming.format pattern values) limit)) := by
  simp only [Bool.or_eq_false_iff, beq_eq_false_iff_ne] at hc
  obtain ⟨c', hc', hor⟩ := Naming.head_truncate (Naming.head_format hp hc.2 values) hl
  have hplain : isMark c' = false := by
    rcases hor with rfl | rfl
    · exact hc.1
    · decide
  refine hq.closing_name (hq.isQuoted_of_head hc' hplain) fun _ he => ?_
  simp [he] at hc'

end Quoter.Wraps

end SchemaChange
