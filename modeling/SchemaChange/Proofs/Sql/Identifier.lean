import SchemaChange.Proofs.Sql.Quoting

/-!
# Names as identifiers

An engine reads an identifier from its opening quote up to the first closing quote that is not
written twice. A name that a profile puts in quotes is read so as a whole, whatever stands behind
it. A name that comes in quotes of its own is written as it is, so it is read as a whole only if
every closing quote inside it is doubled already.
-/
namespace SchemaChange

open Script

namespace Dialect

/-- The character that opens a quoted identifier. -/
def openingQuote : Dialect → Char
  | sqlServer => '['
  | mySql => '\x60'
  | postgres | oracle | sqlite | hana | snowflake => '"'

/-- The character that closes a quoted identifier. -/
def closingQuote : Dialect → Char
  | sqlServer => ']'
  | mySql => '\x60'
  | postgres | oracle | sqlite | hana | snowflake => '"'

end Dialect

/-- How many characters an identifier still takes behind its opening quote. The closing quote
written twice is a character of the name. -/
def closesAfter? (mark : Char) : List Char → Option Nat
  | [] => none
  | [c] => if c = mark then some 1 else none
  | c :: d :: cs =>
      if c = mark then
        if d = mark then (closesAfter? mark cs).map (· + 2) else some 1
      else (closesAfter? mark (d :: cs)).map (· + 1)

namespace Dialect

/-- How many characters the identifier at the front of a text takes. -/
def identifierLength? (d : Dialect) : List Char → Option Nat
  | [] => none
  | c :: cs =>
      if c = d.openingQuote then (closesAfter? d.closingQuote cs).map (· + 1) else none

/-- The text is one identifier: before anything but another closing quote, the identifier at its
front ends with its last character. -/
def IsIdentifier (d : Dialect) (text : List Char) : Prop :=
  ∀ rest, rest.head? ≠ some d.closingQuote →
    d.identifierLength? (text ++ rest) = some text.length

end Dialect

section Body

variable {mark : Char}

theorem closesAfter?_other {c : Char} (hc : c ≠ mark) (cs : List Char) :
    closesAfter? mark (c :: cs) = (closesAfter? mark cs).map (· + 1) := by
  cases cs with
  | nil => simp [closesAfter?, hc]
  | cons d cs => rw [closesAfter?, if_neg hc]

theorem closesAfter?_lone {rest : List Char} (h : rest.head? ≠ some mark) :
    closesAfter? mark (mark :: rest) = some 1 := by
  cases rest with
  | nil => simp [closesAfter?]
  | cons d rest =>
      have hd : d ≠ mark := by simpa using h
      rw [closesAfter?, if_pos rfl, if_neg hd]

/-- The closing quote behind a doubled text is the one that closes. -/
theorem closesAfter?_doubled {body rest : List Char} (hbody : Doubled mark body)
    (hrest : rest.head? ≠ some mark) :
    closesAfter? mark (body ++ mark :: rest) = some (body.length + 1) := by
  induction hbody with
  | nil => exact closesAfter?_lone hrest
  | pair next ih =>
      rw [List.cons_append, List.cons_append, closesAfter?, if_pos rfl, if_pos rfl, ih]
      rfl
  | other hc next ih =>
      rw [List.cons_append, closesAfter?_other hc, ih]
      rfl

/-- A text that closes with its last character has all other closing quotes doubled. -/
theorem exists_doubled_of_closesAfter? {cs : List Char}
    (h : closesAfter? mark cs = some cs.length) :
    ∃ body, Doubled mark body ∧ cs = body ++ [mark] := by
  fun_induction closesAfter? mark cs with
  | case1 => cases h
  | case2 => exact ⟨[], .nil, rfl⟩
  | case3 c hc => cases h
  | case4 cs ih =>
      obtain ⟨n, hn, hlen⟩ := Option.map_eq_some_iff.1 h
      have hcs : closesAfter? mark cs = some cs.length := by
        simp only [List.length_cons] at hlen
        rw [hn]
        congr 1
        omega
      obtain ⟨body, hbody, rfl⟩ := ih hcs
      exact ⟨_, hbody.pair, rfl⟩
  | case5 d cs hd =>
      simp only [List.length_cons, Option.some.injEq] at h
      omega
  | case6 c d cs hc ih =>
      obtain ⟨n, hn, hlen⟩ := Option.map_eq_some_iff.1 h
      have hcs : closesAfter? mark (d :: cs) = some (d :: cs).length := by
        simp only [List.length_cons] at hlen ⊢
        rw [hn]
        congr 1
        omega
      obtain ⟨body, hbody, hsplit⟩ := ih hcs
      exact ⟨c :: body, hbody.other hc, by rw [hsplit]; rfl⟩

/-- Every doubled text is some text with its quotes doubled. -/
theorem exists_replaceAll_of_doubled {body : List Char} (h : Doubled mark body) :
    ∃ inner, body = Text.replaceAll [mark] [mark, mark] inner := by
  induction h with
  | nil => exact ⟨[], by simp [Text.replaceAll]⟩
  | pair next ih =>
      obtain ⟨inner, rfl⟩ := ih
      exact ⟨mark :: inner, by simp [Text.replaceAll, List.isPrefixOf]⟩
  | @other c cs hc next ih =>
      obtain ⟨inner, rfl⟩ := ih
      exact ⟨c :: inner, by simp [Text.replaceAll, List.isPrefixOf, Ne.symm hc]⟩

end Body

/-- A quoter that wraps names in the quotes of its dialect. -/
structure Quoter.UsesQuotes (q : Quoter) (d : Dialect) : Prop where
  opening : q.opening.toList = [d.openingQuote]
  closing : q.closing.toList = [d.closingQuote]
  always : q.policy = .always

theorem usesQuotes_profile {d : Dialect} {mode : Mode} {o : Options}
    (hpolicy : (Profile.of d mode o).quoter.policy = .always) :
    (Profile.of d mode o).quoter.UsesQuotes d := by
  have hdouble : "\"".toList = ['"'] := by decide
  have hback : "\x60".toList = ['\x60'] := by decide
  have hopening : "[".toList = ['['] := by decide
  have hclosing : "]".toList = [']'] := by decide
  cases d with
  | sqlServer => exact ⟨hopening, hclosing, hpolicy⟩
  | mySql => exact ⟨hback, hback, hpolicy⟩
  | postgres | oracle | sqlite | hana | snowflake => exact ⟨hdouble, hdouble, hpolicy⟩

namespace Quoter.UsesQuotes

variable {q : Quoter} {d : Dialect}

theorem wrap_eq (hq : q.UsesQuotes d) (inner : List Char) :
    q.wrap inner = d.openingQuote ::
      (Text.replaceAll [d.closingQuote] [d.closingQuote, d.closingQuote] inner ++
        [d.closingQuote]) := by
  simp [wrap, doubledClosing, hq.opening, hq.closing]

/-- Whatever is put between the quotes, the closing one is found behind it. -/
theorem isIdentifier_wrap (hq : q.UsesQuotes d) (inner : List Char) :
    d.IsIdentifier (q.wrap inner) := by
  intro rest hrest
  have hbody := doubled_replaceAll d.closingQuote inner
  have hcloses := closesAfter?_doubled hbody hrest
  rw [hq.wrap_eq, List.cons_append, List.append_assoc, List.singleton_append,
    Dialect.identifierLength?, if_pos rfl, hcloses]
  simp

/-- Only wrapped texts are identifiers. -/
theorem exists_wrap_of_isIdentifier (hq : q.UsesQuotes d) {text : List Char}
    (h : d.IsIdentifier text) : ∃ inner, text = q.wrap inner := by
  have halone : d.identifierLength? text = some text.length := by
    have := h [] (by simp)
    rwa [List.append_nil] at this
  cases text with
  | nil => cases halone
  | cons c cs =>
      rw [Dialect.identifierLength?] at halone
      split at halone
      · rename_i hc
        obtain ⟨n, hn, hlen⟩ := Option.map_eq_some_iff.1 halone
        obtain rfl : n = cs.length := by simpa using hlen
        obtain ⟨body, hbody, rfl⟩ := exists_doubled_of_closesAfter? hn
        obtain ⟨inner, rfl⟩ := exists_replaceAll_of_doubled hbody
        exact ⟨inner, by rw [hq.wrap_eq, hc]⟩
      · cases halone

/-- A name that does not stand in quotes is wrapped. -/
theorem quote_of_unquoted (hq : q.UsesQuotes d) {name : String} (hne : name ≠ "")
    (hname : q.isQuoted name = false) : (q.quote name).toList = q.wrap name.toList := by
  have hempty : name.isEmpty = false := by simpa using hne
  simp [quote, hempty, hname, needsQuoting, hq.always]

end Quoter.UsesQuotes

/-- A name in quotes of its own is left as it is. -/
theorem Quoter.quote_of_isQuoted {q : Quoter} {name : String} (h : q.isQuoted name = true) :
    q.quote name = name := by
  rw [quote, if_pos]
  simp [h]

section Profile

variable {d : Dialect} {mode : Mode} {o : Options}

/-- Under a policy that quotes every name, a written name is one identifier unless it comes in
quotes of its own. Then it is one exactly if it is some text that the quoter has wrapped. -/
theorem isIdentifier_quote_iff (hpolicy : (Profile.of d mode o).quoter.policy = .always)
    {name : String} (hne : name ≠ "") :
    d.IsIdentifier ((Profile.of d mode o).quoter.quote name).toList ↔
      ((Profile.of d mode o).quoter.isQuoted name = true →
        ∃ inner, name.toList = (Profile.of d mode o).quoter.wrap inner) := by
  have hq := usesQuotes_profile hpolicy
  by_cases hname : (Profile.of d mode o).quoter.isQuoted name = true
  · rw [Quoter.quote_of_isQuoted hname]
    constructor
    · intro h _
      exact hq.exists_wrap_of_isIdentifier h
    · intro h
      obtain ⟨inner, hinner⟩ := h hname
      rw [hinner]
      exact hq.isIdentifier_wrap inner
  · rw [hq.quote_of_unquoted hne (Bool.eq_false_iff.2 hname)]
    constructor
    · intro _ h
      exact absurd h hname
    · intro _
      exact hq.isIdentifier_wrap name.toList

theorem isIdentifier_quote_brackets :
    let q := (Profile.of .sqlServer .strict {}).quoter
    q.policy = .always ∧ "[a]]]; --" ≠ "" ∧
      Dialect.sqlServer.IsIdentifier (q.quote "[a]]]; --").toList := by
  intro q
  refine ⟨rfl, by decide, ?_⟩
  apply (isIdentifier_quote_iff rfl (by decide)).2
  intro h
  exact absurd h (by decide)

/-- A name in quotes of its own may close early and go on as SQL. -/
theorem not_isIdentifier_quote :
    let q := (Profile.of .postgres .strict {}).quoter
    q.policy = .always ∧ "\"a\"; DROP TABLE \"b\"" ≠ "" ∧
      q.quote "\"a\"; DROP TABLE \"b\"" = "\"a\"; DROP TABLE \"b\"" ∧
      Dialect.postgres.identifierLength? (q.quote "\"a\"; DROP TABLE \"b\"").toList = some 3 ∧
      ¬ Dialect.postgres.IsIdentifier (q.quote "\"a\"; DROP TABLE \"b\"").toList := by
  intro q
  have hlength : Dialect.postgres.identifierLength?
      (q.quote "\"a\"; DROP TABLE \"b\"").toList = some 3 := by decide +kernel
  refine ⟨rfl, by decide, by decide +kernel, hlength, fun h => ?_⟩
  have halone := h [] (by simp)
  rw [List.append_nil, hlength] at halone
  exact absurd halone (by decide +kernel)

end Profile

end SchemaChange
