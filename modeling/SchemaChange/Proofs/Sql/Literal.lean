import SchemaChange.Proofs.Sql.Quoting
import SchemaChange.Proofs.Text.Digit

/-!
# Values in scripts

Every spelling of a value is read as a whole: numbers are made of digits, dates and binary
values stand in quotes that they do not contain, and texts have their quotes doubled.
-/
namespace SchemaChange

open Script

/-- A property that neither a mark nor a line break has. -/
theorem isQuiet_of {holds : Char → Bool}
    (hnone : ['\x27', '"', '\x60', ']', '[', '-', '/', '#', '$', ';', '\n'].any holds = false)
    {c : Char} (h : holds c = true) : isQuiet c = true := by
  have hc : c ∉ ['\x27', '"', '\x60', ']', '[', '-', '/', '#', '$', ';', '\n'] := fun hmem =>
    List.any_eq_false.1 hnone c hmem h
  simpa [isQuiet, isMark, isQuote, and_assoc] using hc

theorem isQuiet_of_isDigit {c : Char} (h : c.isDigit) : isQuiet c = true :=
  isQuiet_of (by decide) h

/-- Digits, perhaps with a point among them, perhaps behind a sign. -/
inductive Numeral : List Char → Prop
  | unsigned {cs} (hne : cs ≠ []) (hall : ∀ c ∈ cs, c.isDigit ∨ c = '.') : Numeral cs
  | negative {cs} (hne : cs ≠ []) (hall : ∀ c ∈ cs, c.isDigit ∨ c = '.') : Numeral ('-' :: cs)

theorem plain_of_digit_or_point {c : Char} (h : c.isDigit ∨ c = '.') :
    isQuiet c = true ∧ Text.isBlank c = false := by
  rcases h with h | rfl
  · exact ⟨isQuiet_of_isDigit h, Text.isBlank_of_isDigit h⟩
  · decide

/-- A numeral separates whatever stands on both sides. -/
theorem Numeral.firm {d : Dialect} {cs : List Char} (h : Numeral cs) : Firm d cs := by
  have body : ∀ {cs : List Char}, cs ≠ [] → (∀ c ∈ cs, c.isDigit ∨ c = '.') →
      isPlain cs = true := by
    intro cs hne hall
    simp only [isPlain, Bool.and_eq_true, Bool.not_eq_true', List.isEmpty_eq_false_iff,
      List.all_eq_true]
    exact ⟨hne, fun c hc => (plain_of_digit_or_point (hall c hc)).1⟩
  cases h with
  | unsigned hne hall => exact Script.firm (isFirm_of_isPlain (body hne hall))
  | @negative cs hne hall =>
      have hfirm : Firm d cs := Script.firm (isFirm_of_isPlain (body hne hall))
      have hhyphen : cs.head? ≠ some '-' := fun h => by
        have := (plain_of_digit_or_point (hall '-' (List.mem_of_head? h))).1
        exact absurd this (by decide)
      refine ⟨by simp, apart_cons (by decide) cs, fun rest => ?_, ?_⟩
      · refine .cons (reads_hyphen d ?_) (hfirm.reads rest)
        simpa [List.head?_append, hfirm.ne_nil] using hhyphen
      · have hhead : (Text.trimEnd ['-']).getLast? ≠ some ';' := by decide
        exact ending_append hhead hfirm.ending

theorem Numeral.ends {cs : List Char} (h : Numeral cs) :
    cs.getLast?.any (!Text.isBlank ·) = true := by
  have body : ∀ {cs : List Char} (hne : cs ≠ []), (∀ c ∈ cs, c.isDigit ∨ c = '.') →
      Text.isBlank (cs.getLast hne) = false := fun hne hall =>
    (plain_of_digit_or_point (hall _ (List.getLast_mem hne))).2
  cases h with
  | unsigned hne hall => simp [List.getLast?_eq_some_getLast hne, body hne hall]
  | negative hne hall => simp [List.getLast?_cons, List.getLast?_eq_some_getLast hne, body hne hall]

theorem numeral_nat (n : Nat) : Numeral (Nat.toDigits 10 n) :=
  .unsigned Nat.toDigits_ne_nil fun _ hc =>
    .inl (Nat.isDigit_of_mem_toDigits (by decide) (by decide) hc)

theorem numeral_int (i : Int) : Numeral (toString i).toList := by
  rw [Int.toString_eq_repr, Int.repr_eq_if]
  split
  · rw [Nat.toList_repr]
    exact numeral_nat _
  · have hminus : "-".toList = ['-'] := by decide
    rw [String.toList_append, Nat.toList_repr, hminus]
    exact .negative Nat.toDigits_ne_nil fun _ hc =>
      .inl (Nat.isDigit_of_mem_toDigits (by decide) (by decide) hc)

theorem isDigit_positional (d : Decimal) :
    d.positional ≠ [] ∧ ∀ c ∈ d.positional, c.isDigit ∨ c = '.' := by
  have digits : ∀ c ∈ d.text, c.isDigit := fun c hc =>
    Nat.isDigit_of_mem_toDigits (by decide) (by decide) hc
  have padded : ∀ n, ∀ c ∈ List.replicate n '0' ++ d.text, c.isDigit := by
    intro n c hc
    rcases List.mem_append.1 hc with hc | hc
    · rw [List.eq_of_mem_replicate hc]
      rfl
    · exact digits c hc
  simp only [Decimal.positional]
  split
  · refine ⟨by simp [Decimal.text], fun c hc => .inl ?_⟩
    rcases List.mem_append.1 hc with hc | hc
    · exact digits c hc
    · rw [List.eq_of_mem_replicate hc]
      rfl
  · refine ⟨by simp, fun c hc => ?_⟩
    rcases List.mem_append.1 hc with hc | hc
    · exact .inl (padded _ c (List.mem_of_mem_take hc))
    · rcases List.mem_cons.1 hc with rfl | hc
      · exact .inr rfl
      · exact .inl (padded _ c (List.mem_of_mem_drop hc))

/-- A finite number is written without an exponent. -/
theorem numeral_toPlain {x : Binary64} (h : x.isFinite) : Numeral x.toPlain.toList := by
  obtain ⟨hne, hall⟩ := isDigit_positional (x.shortest .up)
  rw [Binary64.toPlain, if_pos h, String.toList_ofList, Binary64.sign]
  split
  · exact .negative hne hall
  · exact .unsigned hne hall

section Characters

/-- A character of dates, times of day and offsets. -/
def isClockChar (c : Char) : Bool := c.isDigit || ['-', '+', ':', '.', ' ', 'T'].contains c

/-- The marks between the numbers. -/
theorem isClockChar_marks : isClockChar '-' = true ∧ isClockChar '+' = true ∧
    isClockChar ':' = true ∧ isClockChar '.' = true ∧ isClockChar ' ' = true ∧
    isClockChar 'T' = true := by decide

theorem all_padded (width n : Nat) : (padded width n).all isClockChar = true :=
  List.all_eq_true.2 fun _ hc => Bool.or_eq_true_iff.2 (.inl (isDigit_padded hc))

theorem all_date (d : Date) : d.text.all isClockChar = true := by
  simp only [Date.text, yearText]
  split
  · simp [all_padded, isClockChar_marks]
  · split <;> simp [all_padded, isClockChar_marks]

theorem all_offset (minutes : Int) : (offsetText minutes).all isClockChar = true := by
  simp only [offsetText]
  split <;> simp [all_padded, isClockChar_marks]

theorem all_fraction (t : DateTime) : t.fractionText.all isClockChar = true := by
  simp only [DateTime.fractionText]
  split
  · rfl
  · split
    · simp [all_padded, isClockChar_marks]
    · split <;> simp [all_padded, isClockChar_marks]

theorem all_clock (t : DateTime) : t.clockText.all isClockChar = true := by
  simp [DateTime.clockText, all_padded, isClockChar_marks]

/-- A hexadecimal digit in either case, or a hyphen between them. -/
def isGuidChar (c : Char) : Bool := (Text.hexValue? c).isSome || c == '-'

theorem all_plain (g : Guid) : g.plain.all isGuidChar = true := by
  have digit : ∀ d : Fin 16, isGuidChar (Nat.digitChar d.val) = true := by decide
  simpa [Guid.plain] using fun d _ => digit d

theorem all_plain_toUpper (g : Guid) : (g.plain.map Char.toUpper).all isGuidChar = true := by
  have digit : ∀ d : Fin 16, isGuidChar (Nat.digitChar d.val).toUpper = true := by decide
  simpa [Guid.plain] using fun d _ => digit d

theorem all_hyphenated (g : Guid) : g.hyphenated.all isGuidChar = true := by
  have plain := List.all_eq_true.1 (all_plain g)
  have hyphen : isGuidChar '-' = true := rfl
  have behind : ∀ n, ∀ c ∈ g.plain.drop n, isGuidChar c = true := fun n c h =>
    plain c (List.mem_of_mem_drop h)
  have part : ∀ n m, ∀ c ∈ (g.plain.drop n).take m, isGuidChar c = true := fun n m c h =>
    behind n c (List.mem_of_mem_take h)
  have start : ∀ c ∈ g.plain.take 8, isGuidChar c = true := fun c h =>
    plain c (List.mem_of_mem_take h)
  simp only [Guid.hyphenated, List.all_eq_true, List.forall_mem_append, List.forall_mem_cons]
  exact ⟨⟨⟨⟨start, hyphen, part 8 4⟩, hyphen, part 12 4⟩, hyphen, part 16 4⟩, hyphen, behind 20⟩

theorem all_hexByte (b : UInt8) : (Text.hexByte b).all isGuidChar = true := by
  have digit : ∀ d : Fin 16, isGuidChar (Nat.digitChar d.val).toUpper = true := by decide
  have hhigh := digit ⟨b.toNat / 16, by have := b.toNat_lt; omega⟩
  have hlow := digit ⟨b.toNat % 16, by omega⟩
  simpa [Text.hexByte] using And.intro hhigh hlow

theorem not_mem_of_all {good : Char → Bool} {cs : List Char} (hcs : cs.all good = true) {c : Char}
    (hc : good c = false) : c ∉ cs := fun hmem => by
  rw [List.all_eq_true.1 hcs c hmem] at hc
  cases hc

end Characters

section NoQuote

@[simp] theorem no_quote_padded (width n : Nat) : '\x27' ∉ padded width n :=
  not_mem_of_all (all_padded width n) rfl

@[simp] theorem no_quote_date (d : Date) : '\x27' ∉ d.text := not_mem_of_all (all_date d) rfl

@[simp] theorem no_quote_offset (minutes : Int) : '\x27' ∉ offsetText minutes :=
  not_mem_of_all (all_offset minutes) rfl

@[simp] theorem no_quote_fraction (t : DateTime) : '\x27' ∉ t.fractionText :=
  not_mem_of_all (all_fraction t) rfl

@[simp] theorem no_quote_clock (t : DateTime) : '\x27' ∉ t.clockText :=
  not_mem_of_all (all_clock t) rfl

@[simp] theorem no_quote_guid (g : Guid) : '\x27' ∉ g.hyphenated :=
  not_mem_of_all (all_hyphenated g) rfl

theorem quiet_hexByte (b : UInt8) :
    ∀ c ∈ Text.hexByte b, isQuiet c = true ∧ Text.isBlank c = false := by
  have digit : ∀ d : Fin 16, isQuiet (Nat.digitChar d.val).toUpper = true ∧
      Text.isBlank (Nat.digitChar d.val).toUpper = false := by decide
  have hhigh := digit ⟨b.toNat / 16, by have := b.toNat_lt; omega⟩
  have hlow := digit ⟨b.toNat % 16, by omega⟩
  simpa [Text.hexByte] using And.intro hhigh hlow

@[simp] theorem no_quote_hexByte (b : UInt8) : '\x27' ∉ Text.hexByte b := fun h =>
  absurd (quiet_hexByte b _ h).1 (by decide)

end NoQuote

namespace Sql

theorem closing_code {q : Quoter} {tight : Prop} {s : String}
    (hs : Standing q.dialect s.toList) (he : isClosed s = true) : Closing q tight [.code s] :=
  ⟨.one hs, fun _ => ends_code he⟩

/-- A word of quiet characters without blanks. -/
theorem closing_solid {q : Quoter} {tight : Prop} {s : String} (hne : s.toList ≠ [])
    (hall : ∀ c ∈ s.toList, isQuiet c = true ∧ Text.isBlank c = false) :
    Closing q tight [.code s] := by
  have hplain : isPlain s.toList = true := by
    simpa [isPlain, hne] using fun c hc => (hall c hc).1
  refine .word (Bool.and_eq_true_iff.2 ⟨isFirm_of_isPlain hplain, ?_⟩)
  rw [isClosed, List.getLast?_eq_some_getLast hne]
  simpa using (hall _ (List.getLast_mem hne)).2

theorem closing_numeral {q : Quoter} {tight : Prop} {s : String} (hs : Numeral s.toList) :
    Closing q tight [.code s] :=
  closing_code hs.firm.standing hs.ends

end Sql

theorem toList_quotedCode (cs : List Char) :
    (Dialect.quotedCode cs).toList = '\x27' :: (cs ++ ['\x27']) := by
  rw [Dialect.quotedCode, String.toList_ofList]

theorem standing_quotedCode (d : Dialect) {cs : List Char} (h : '\x27' ∉ cs) :
    Standing d (Dialect.quotedCode cs).toList := by
  rw [toList_quotedCode]
  exact standing_quoted (quotes_single d) (by decide) (doubled_of_not_mem h)

theorem isClosed_quotedCode (cs : List Char) : Sql.isClosed (Dialect.quotedCode cs) = true := by
  rw [Sql.isClosed, toList_quotedCode, getLast?_quoted]
  rfl

theorem closing_quotedCode {q : Quoter} {tight : Prop} {cs : List Char} (h : '\x27' ∉ cs) :
    Sql.Closing q tight [.code (Dialect.quotedCode cs)] :=
  Sql.closing_code (standing_quotedCode _ h) (isClosed_quotedCode cs)

/-- Binary values stand in quotes with fixed SQL around them, or behind a prefix. -/
theorem closing_binary {q : Quoter} {tight : Prop} {d : Dialect} (hd : d ≠ .oracle)
    (bytes : List UInt8) : Sql.Closing q tight [.code (d.binaryLiteral bytes)] := by
  have hdigits : '\x27' ∉ bytes.flatMap Text.hexByte := by simp
  have hquoted := standing_quotedCode q.dialect hdigits
  cases d with
  | oracle => exact absurd rfl hd
  | sqlServer =>
      have hquiet : ∀ c ∈ bytes.flatMap Text.hexByte,
          isQuiet c = true ∧ Text.isBlank c = false := fun c hc => by
        obtain ⟨b, -, hb⟩ := List.mem_flatMap.1 hc
        exact quiet_hexByte b c hb
      have hchars : (Dialect.sqlServer.binaryLiteral bytes).toList =
          '0' :: 'x' :: bytes.flatMap Text.hexByte := by simp [Dialect.binaryLiteral]
      refine Sql.closing_solid (by simp [hchars]) ?_
      rw [hchars]
      exact List.forall_mem_cons.2 ⟨by decide, List.forall_mem_cons.2 ⟨by decide, hquiet⟩⟩
  | postgres =>
      have hbytes : '\x27' ∉ '\\' :: 'x' :: bytes.flatMap Text.hexByte := by simp
      refine Sql.closing_code ?_ (Sql.isClosed_append _ (by decide))
      rw [Dialect.binaryLiteral, String.toList_append]
      exact (standing_quotedCode _ hbytes).last (firm (by decide))
  | mySql | hana | sqlite =>
      refine Sql.closing_code ?_ (Sql.isClosed_append _ (isClosed_quotedCode _))
      rw [Dialect.binaryLiteral, String.toList_append]
      exact hquoted.lead (firm (by decide))
  | snowflake =>
      refine Sql.closing_code ?_ (Sql.isClosed_append _ (by decide))
      rw [Dialect.binaryLiteral, String.toList_append, String.toList_append, List.append_assoc]
      exact .lead (hquoted.last (firm (by decide))) (firm (by decide))

/-- The spelling of every system method. -/
theorem closing_systemMethod {q : Quoter} {tight : Prop} {d : Dialect} (hd : d ≠ .oracle)
    {m : SystemMethod} {sql : String} (h : d.systemMethod? m = some sql) :
    Sql.Closing q tight [.code sql] := by
  cases d with
  | oracle => exact absurd rfl hd
  | sqlServer | postgres | mySql | sqlite | hana | snowflake =>
      cases m <;> cases h <;> exact .word (by decide)

theorem closing_bool {q : Quoter} {tight : Prop} (d : Dialect) (b : Bool) :
    Sql.Closing q tight [.code (d.boolLiteral b)] := by
  cases d <;> cases b <;> exact .word (by decide)

/-- Identifiers, dates and times stand between quotes that they do not contain. -/
theorem exists_quotedCode {d : Dialect} (hd : d ≠ .oracle) :
    (∀ g, ∃ cs, '\x27' ∉ cs ∧ d.guidLiteral g = Dialect.quotedCode cs) ∧
      (∀ day, ∃ cs, '\x27' ∉ cs ∧ d.dateLiteral day = Dialect.quotedCode cs) ∧
      (∀ t, ∃ cs, '\x27' ∉ cs ∧ d.dateTimeLiteral t = Dialect.quotedCode cs) ∧
      ∀ t, ∃ cs, '\x27' ∉ cs ∧ d.dateTimeOffsetLiteral t = Dialect.quotedCode cs := by
  cases d with
  | oracle => exact absurd rfl hd
  | sqlServer | postgres | mySql | sqlite | hana | snowflake =>
      refine ⟨fun g => ⟨_, no_quote_guid g, rfl⟩, fun day => ⟨_, no_quote_date day, rfl⟩,
        fun t => ⟨_, ?_, rfl⟩, fun t => ⟨_, ?_, rfl⟩⟩ <;> simp [DateTime.textWith]

/-- A value that is no verbatim SQL. -/
def Literal.isOwn : Literal → Bool
  | .function _ => false
  | _ => true

/-- Every value but verbatim SQL is read as a whole. -/
theorem closing_literal {q : Quoter} (hd : q.dialect ≠ .oracle) {v : Literal} (hv : v.isOwn)
    {sql : Sql} (h : v.sql q.dialect = .ok sql) {tight : Prop} : Sql.Closing q tight sql := by
  obtain ⟨hguid, hdate, hdateTime, hoffset⟩ := exists_quotedCode hd
  cases v with
  | null => cases h; exact .word (by decide)
  | string s | enum s | char s => cases h; exact closing_text q _
  | bool b => cases h; exact closing_bool q.dialect b
  | int i => cases h; exact Sql.closing_numeral (numeral_int _)
  | uint n =>
      cases h
      refine Sql.closing_numeral ?_
      rw [Nat.toString_eq_repr, Nat.toList_repr]
      exact numeral_nat _
  | float x =>
      rw [Literal.sql] at h
      split at h
      · rename_i hfinite
        cases h
        exact Sql.closing_numeral (numeral_toPlain hfinite)
      · cases h
  | guid g =>
      cases h
      obtain ⟨cs, hcs, he⟩ := hguid g
      exact he ▸ closing_quotedCode hcs
  | date day =>
      cases h
      obtain ⟨cs, hcs, he⟩ := hdate day
      exact he ▸ closing_quotedCode hcs
  | dateTime t =>
      cases h
      obtain ⟨cs, hcs, he⟩ := hdateTime t
      exact he ▸ closing_quotedCode hcs
  | dateTimeOffset t =>
      cases h
      obtain ⟨cs, hcs, he⟩ := hoffset t
      exact he ▸ closing_quotedCode hcs
  | binary bytes => cases h; exact closing_binary hd bytes
  | systemMethod m =>
      rw [Literal.sql, Dialect.systemMethod] at h
      cases hm : q.dialect.systemMethod? m with
      | none => rw [hm] at h; cases h
      | some sql =>
          rw [hm] at h
          cases h
          exact closing_systemMethod hd hm
  | function s => cases hv

end SchemaChange
