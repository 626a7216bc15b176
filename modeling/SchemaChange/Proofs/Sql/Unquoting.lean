import SchemaChange.Proofs.Sql.Identifier

/-!
# Quoted names are unquoted again

Putting a name in quotes doubles every closing quote in it, and taking the quotes away makes one
of every two. Whether the policy asks for quotes or not, what has been written for a name gives the
name back, and writing it again changes nothing.
-/
namespace SchemaChange

section Names

variable {q : Quoter} {d : Dialect}

/-- A name is written as it is or between quotes. -/
theorem Quoter.quote_cases (q : Quoter) (name : String) :
    q.quote name = name ∨ q.quote name = String.ofList (q.wrap name.toList) := by
  rw [Quoter.quote]
  split
  · exact .inl rfl
  · exact .inr rfl

variable (hq : ({ q with policy := .always } : Quoter).UsesQuotes d)
include hq

theorem isQuoted_wrap (cs : List Char) : q.isQuoted (String.ofList (q.wrap cs)) = true := by
  have hcs : q.wrap cs = _ := hq.wrap_eq cs
  have hopening : q.opening.toList = _ := hq.opening
  have hclosing : q.closing.toList = _ := hq.closing
  simp [Quoter.isQuoted, hcs, hopening, hclosing]

/-- What stands between the quotes is the text that was put there. -/
theorem unquote_wrap (cs : List Char) :
    q.unquote (String.ofList (q.wrap cs)) = String.ofList cs := by
  have hcs : q.wrap cs = _ := hq.wrap_eq cs
  have hopening : q.opening.toList = _ := hq.opening
  have hclosing : q.closing.toList = _ := hq.closing
  rw [Quoter.unquote, if_pos (isQuoted_wrap hq cs)]
  simp [Quoter.doubledClosing, hcs, hopening, hclosing, Text.undouble_double]

/-- A name that does not stand in quotes comes back, whatever the policy has made of it. -/
theorem unquote_quote {name : String} (hname : q.isQuoted name = false) :
    q.unquote (q.quote name) = name := by
  rcases q.quote_cases name with hquote | hquote
  · rw [hquote, Quoter.unquote, if_neg (by simp [hname])]
  · rw [hquote, unquote_wrap hq, String.ofList_toList]

/-- Names that do not stand in quotes are written alike only if they are the same. -/
theorem quote_injective {x y : String} (hx : q.isQuoted x = false) (hy : q.isQuoted y = false)
    (h : q.quote x = q.quote y) : x = y := by
  rw [← unquote_quote hq hx, h, unquote_quote hq hy]

/-- A name that stands in quotes gets shorter without them. -/
theorem length_unquote_lt {name : String} (hname : q.isQuoted name = true) :
    (q.unquote name).toList.length < name.toList.length := by
  have hopening : q.opening.toList = _ := hq.opening
  have hclosing : q.closing.toList = _ := hq.closing
  have hlong : 2 ≤ name.toList.length := by
    simp only [Quoter.isQuoted, hopening, hclosing, Bool.and_eq_true, decide_eq_true_eq] at hname
    exact hname.1.1
  rw [Quoter.unquote, if_pos hname, String.toList_ofList]
  have hshorter : q.closing.toList.length ≤ q.doubledClosing.length := by
    simp [Quoter.doubledClosing]
  have hle := Text.length_replaceAll_le hshorter
    ((name.toList.drop q.opening.toList.length).take
      (name.toList.length - q.opening.toList.length - q.closing.toList.length))
  simp only [hopening, hclosing, List.length_take, List.length_drop, List.length_singleton]
    at hle ⊢
  omega

theorem quote_quote (name : String) : q.quote (q.quote name) = q.quote name := by
  rcases q.quote_cases name with hquote | hquote
  · rw [hquote, hquote]
  · rw [hquote, Quoter.quote_of_isQuoted (isQuoted_wrap hq _)]

end Names

/-- The quotes of a dialect do not depend on the policy. -/
theorem usesQuotes_marks (d : Dialect) (mode : Mode) (o : Options) :
    ({ (Profile.of d mode o).quoter with policy := .always } : Quoter).UsesQuotes d := by
  have h : (Profile.of d mode { quoteIdentifiers := some true }).quoter.UsesQuotes d :=
    usesQuotes_profile (by cases d <;> rfl)
  cases d <;> exact ⟨h.opening, h.closing, rfl⟩

/-- Under every policy, unquoting undoes quoting for exactly the names that do not stand in quotes
of their own, and a name that has been written is not quoted again. -/
theorem unquote_quote_iff (d : Dialect) (mode : Mode) (o : Options) (name : String) :
    let q := (Profile.of d mode o).quoter
    (q.unquote (q.quote name) = name ↔ q.isQuoted name = false) ∧
      q.quote (q.quote name) = q.quote name := by
  intro q
  have hq := usesQuotes_marks d mode o
  refine ⟨⟨fun h => ?_, unquote_quote hq⟩, quote_quote hq name⟩
  rw [Bool.eq_false_iff]
  intro hname
  have hlt := length_unquote_lt hq hname
  rw [Quoter.quote_of_isQuoted hname] at h
  rw [h] at hlt
  exact Nat.lt_irrefl _ hlt

end SchemaChange
