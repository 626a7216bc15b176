import SchemaChange.Proofs.Sql.Attributes

/-!
# Words of the library's own

The words for a key, for NULL and for numbered columns stand in no type, no value and no name that
the library writes, so the clauses of a column alone decide where they stand. Names, texts and SQL
given by the caller may hold any words and do not count.
-/
namespace SchemaChange

open Sql

namespace Text

/-- What is replaced leaves nothing but what the replacement brings. -/
theorem mem_of_mem_replaceAll {pattern replacement cs : List Char} {c : Char}
    (h : c ∈ replaceAll pattern replacement cs) : c ∈ replacement ∨ c ∈ cs := by
  fun_induction replaceAll pattern replacement cs with
  | case1 => exact .inr h
  | case2 first rest _ ih =>
      rcases List.mem_append.1 h with h | h
      · exact .inl h
      · exact (ih h).imp_right fun h => List.mem_cons_of_mem _ (List.mem_of_mem_drop h)
  | case3 first rest _ ih =>
      rcases List.mem_cons.1 h with rfl | h
      · exact .inr (List.mem_cons_self ..)
      · exact (ih h).imp_right (List.mem_cons_of_mem _)

end Text

/-- The words stand in a piece of the library's own. -/
def Piece.Says (words : String) : Piece → Prop
  | .code sql => words.toList <:+: sql.toList
  | _ => False

instance (words : String) : DecidablePred (Piece.Says words)
  | .code sql => inferInstanceAs (Decidable (words.toList <:+: sql.toList))
  | .name _ | .text _ | .verbatim _ => inferInstanceAs (Decidable False)

namespace Sql

/-- The words stand in SQL of the library's own. -/
def Says (words : String) (sql : Sql) : Prop := ∃ piece ∈ sql, piece.Says words

instance (words : String) (sql : Sql) : Decidable (Says words sql) :=
  inferInstanceAs (Decidable (∃ piece ∈ sql, piece.Says words))

section Says

variable {words : String}

@[simp] theorem says_append (x y : Sql) : Says words (x ++ y) ↔ Says words x ∨ Says words y := by
  simp only [Says, List.mem_append, or_and_right, exists_or]

@[simp] theorem says_nil : ¬ Says words [] := nofun

@[simp] theorem says_code (sql : String) :
    Says words [.code sql] ↔ words.toList <:+: sql.toList := by
  simp only [Says, List.mem_singleton, exists_eq_left, Piece.Says]

/-- Characters are quicker to compare than the texts that they make up. -/
theorem says_ofList {cs ds : List Char} (h : cs <:+: ds) :
    Says (String.ofList cs) [.code (String.ofList ds)] := by
  rwa [says_code, String.toList_ofList, String.toList_ofList]

theorem not_says_ofList {cs ds : List Char} (h : ¬ cs <:+: ds) :
    ¬ Says (String.ofList cs) [.code (String.ofList ds)] := by
  rwa [says_code, String.toList_ofList, String.toList_ofList]

@[simp] theorem says_name (n : String) : ¬ Says words (name n) := by
  simp [Says, name, Piece.Says]

@[simp] theorem says_text (s : String) : ¬ Says words (text s) := by
  simp [Says, text, Piece.Says]

@[simp] theorem says_verbatim (sql : String) : ¬ Says words (verbatim sql) := by
  simp [Says, verbatim, Piece.Says]

theorem says_join {separator : Sql} (h : ¬ Says words separator) (parts : List Sql) :
    Says words (join separator parts) ↔ ∃ part ∈ parts, Says words part := by
  fun_induction join separator parts with
  | case1 => simp
  | case2 part => simp
  | case3 part parts _ ih => simp [h, ih]

theorem not_says_names (h : ¬ Says words ", ") (columns : List String) :
    ¬ Says words (names columns) := by
  rw [names, list, says_join h]
  rintro ⟨part, hpart, hsaid⟩
  obtain ⟨n, -, rfl⟩ := List.mem_map.1 hpart
  exact says_name n hsaid

theorem not_says_object (h : ¬ Says words ".") (q : Quoter) (n : ObjectName) :
    ¬ Says words (q.object n) := by
  rw [Quoter.object]
  split
  · rintro ⟨piece, hpiece, hsaid⟩
    rcases List.mem_cons.1 hpiece with rfl | hpiece
    · exact hsaid
    · rcases List.mem_cons.1 hpiece with rfl | hpiece
      · exact h ((says_code ".").2 hsaid)
      · exact says_name n.name ⟨piece, hpiece, hsaid⟩
  · exact says_name n.name

/-- The words in a part that is written, for words that are not empty. -/
theorem not_isVoid_of_said (hwords : words.toList ≠ []) {p : Profile} {sql : Sql}
    (h : Says words sql) : p.isVoid sql = false := by
  obtain ⟨piece, hpiece, hsaid⟩ := h
  rw [Profile.isVoid, String.isEmpty_eq_false_iff]
  intro hempty
  have hchars : sql.chars p.quoter = [] := by
    rw [← toList_write, hempty]
    rfl
  have hwrite := List.flatMap_eq_nil_iff.1 hchars piece hpiece
  cases piece with
  | code code =>
      rw [Piece.write] at hwrite
      rw [Piece.Says, hwrite] at hsaid
      exact hwords (List.eq_nil_of_infix_nil hsaid)
  | _ => exact hsaid

end Says

end Sql

section Spared

/-- Letters that numbers, dates, identifiers and binary values are not spelled with. -/
def spareLetters : List Char := ['K', 'U']

/-- None of these letters stands in the text. -/
def Spared (cs : List Char) : Prop := ∀ l ∈ spareLetters, l ∉ cs

instance (cs : List Char) : Decidable (Spared cs) :=
  List.decidableBAll (fun l => l ∉ cs) spareLetters

@[simp] theorem spared_append (cs ds : List Char) :
    Spared (cs ++ ds) ↔ Spared cs ∧ Spared ds := by
  simp only [Spared, List.mem_append, not_or, ← forall_and]

@[simp] theorem spared_cons (c : Char) (cs : List Char) :
    Spared (c :: cs) ↔ c ∉ spareLetters ∧ Spared cs := by
  rw [show c :: cs = [c] ++ cs from rfl, spared_append]
  refine and_congr_left fun _ => ⟨fun h hc => h c hc (List.mem_singleton.2 rfl), fun h l hl hc => ?_⟩
  exact h (List.mem_singleton.1 hc ▸ hl)

theorem spared_of_all {good : Char → Bool} {cs : List Char} (hcs : cs.all good = true)
    (hgood : spareLetters.all (!good ·) = true) : Spared cs := fun l hl =>
  not_mem_of_all hcs (by simpa using List.all_eq_true.1 hgood l hl)

theorem Spared.part {cs ds : List Char} (h : Spared ds) (hpart : cs <:+: ds) : Spared cs :=
  fun l hl hmem => h l hl (hpart.subset hmem)

theorem Numeral.spared {cs : List Char} (h : Numeral cs) : Spared cs := by
  have body : ∀ {cs : List Char}, (∀ c ∈ cs, c.isDigit ∨ c = '.') → Spared cs := by
    intro cs hall
    have hnumeral : cs.all (fun c => c.isDigit || c == '.') = true :=
      List.all_eq_true.2 fun c hc => by simpa using hall c hc
    exact spared_of_all hnumeral (by decide)
  cases h with
  | unsigned _ hall => exact body hall
  | negative _ hall => exact (spared_cons _ _).2 ⟨by decide, body hall⟩

theorem spared_clock {cs : List Char} (h : cs.all isClockChar = true) : Spared cs :=
  spared_of_all h (by decide)

theorem spared_guid {cs : List Char} (h : cs.all isGuidChar = true) : Spared cs :=
  spared_of_all h (by decide)

@[simp] theorem spared_quotedCode (cs : List Char) :
    Spared (Dialect.quotedCode cs).toList ↔ Spared cs := by
  have hmark : '\x27' ∉ spareLetters ∧ Spared ['\x27'] := by decide
  simp [toList_quotedCode, hmark]

/-- A value in quotes with words around it. -/
theorem spared_around {before after : String} {cs : List Char} (h : Spared cs)
    (hbefore : Spared before.toList) (hafter : Spared after.toList) :
    Spared (before ++ Dialect.quotedCode cs ++ after).toList := by
  simp [h, hbefore, hafter]

theorem spared_guidLiteral (d : Dialect) (g : Guid) : Spared (d.guidLiteral g).toList := by
  have hplain := spared_guid (all_plain_toUpper g)
  have hhyphenated := spared_guid (all_hyphenated g)
  cases d with
  | oracle => exact spared_around hplain (by decide) (by decide)
  | _ => simpa [Dialect.guidLiteral] using hhyphenated

theorem spared_dateLiteral (d : Dialect) (day : Date) : Spared (d.dateLiteral day).toList := by
  have hdate := spared_clock (all_date day)
  cases d with
  | oracle => exact spared_around hdate (by decide) (by decide)
  | _ => simpa [Dialect.dateLiteral] using hdate

/-- The parts of a time with a character between date and clock. -/
theorem spared_textWith {between : Char} (hbetween : between ∉ spareLetters) (t : DateTime) :
    Spared (t.textWith between) := by
  have hdate := spared_clock (all_date t.date)
  have hclock := spared_clock (all_clock t)
  simp [DateTime.textWith, hdate, hclock, hbetween]

theorem spared_dateTimeLiteral (d : Dialect) (t : DateTime) :
    Spared (d.dateTimeLiteral t).toList := by
  have hblank : Spared (t.textWith ' ') := spared_textWith (by decide) t
  have hletter : Spared (t.textWith 'T') := spared_textWith (by decide) t
  have hfraction := spared_clock (all_fraction t)
  cases d with
  | oracle => exact spared_around hblank (by decide) (by decide)
  | _ => simp [Dialect.dateTimeLiteral, hblank, hletter, hfraction]

theorem spared_dateTimeOffsetLiteral (d : Dialect) (t : OffsetDateTime) :
    Spared (d.dateTimeOffsetLiteral t).toList := by
  have hblank : Spared (t.timeOfDay.textWith ' ') := spared_textWith (by decide) _
  have hletter : Spared (t.timeOfDay.textWith 'T') := spared_textWith (by decide) _
  have hfraction := spared_clock (all_fraction t.timeOfDay)
  have hmicrosecond := spared_clock (all_padded 6 (t.timeOfDay.nanosecond / 1000))
  have hoffset := spared_clock (all_offset t.offset)
  have hmarks : '.' ∉ spareLetters ∧ ' ' ∉ spareLetters := by decide
  unfold Dialect.dateTimeOffsetLiteral
  cases d with
  | oracle =>
      refine spared_around ?_ (by decide) (by decide)
      simp [DateTime.microsecondText, hblank, hmicrosecond, hoffset, hmarks]
  | _ => simp [hblank, hletter, hfraction, hoffset]

theorem spared_binaryLiteral (d : Dialect) (bytes : List UInt8) :
    Spared (d.binaryLiteral bytes).toList := by
  have hdigits : Spared (bytes.flatMap Text.hexByte) := fun l hl hmem => by
    obtain ⟨b, -, hb⟩ := List.mem_flatMap.1 hmem
    exact spared_guid (all_hexByte b) l hl hb
  have hquoted : Spared ('\\' :: 'x' :: bytes.flatMap Text.hexByte) :=
    (spared_cons _ _).2 ⟨by decide, (spared_cons _ _).2 ⟨by decide, hdigits⟩⟩
  cases d with
  | oracle | snowflake => exact spared_around hdigits (by decide) (by decide)
  | sqlServer =>
      rw [Dialect.binaryLiteral, String.toList_append]
      refine (spared_append _ _).2 ⟨by decide, ?_⟩
      rwa [String.toList_ofList]
  | postgres =>
      rw [Dialect.binaryLiteral, String.toList_append, spared_append, spared_quotedCode]
      exact ⟨hquoted, by decide⟩
  | mySql | sqlite | hana =>
      rw [Dialect.binaryLiteral, String.toList_append, spared_append, spared_quotedCode]
      exact ⟨by decide, hdigits⟩

/-- The values of a dialect that are words themselves. -/
def Dialect.wordValues (d : Dialect) : List String :=
  ["NULL", d.boolLiteral true, d.boolLiteral false] ++ SystemMethod.all.filterMap d.systemMethod?

/-- A value is spelled without these letters or is a word. -/
theorem spared_or_mem_of_literal {d : Dialect} {v : Literal} {sql : Sql} (h : v.sql d = .ok sql)
    {code : String} (hcode : .code code ∈ sql) :
    Spared code.toList ∨ code ∈ d.wordValues := by
  cases v with
  | null =>
      cases h
      cases List.mem_singleton.1 hcode
      exact .inr (.head _)
  | string s | enum s | char s | function s =>
      cases h
      cases List.mem_singleton.1 hcode
  | bool b =>
      cases h
      cases List.mem_singleton.1 hcode
      exact .inr (by cases b <;> simp [Dialect.wordValues])
  | int i =>
      cases h
      cases List.mem_singleton.1 hcode
      exact .inl (numeral_int _).spared
  | uint n =>
      cases h
      cases List.mem_singleton.1 hcode
      rw [Nat.toString_eq_repr, Nat.toList_repr]
      exact .inl (numeral_nat _).spared
  | float x =>
      rw [Literal.sql] at h
      split at h
      · cases h
        cases List.mem_singleton.1 hcode
        exact .inl (numeral_toPlain ‹_›).spared
      · cases h
  | guid g =>
      cases h
      cases List.mem_singleton.1 hcode
      exact .inl (spared_guidLiteral d g)
  | date day =>
      cases h
      cases List.mem_singleton.1 hcode
      exact .inl (spared_dateLiteral d day)
  | dateTime t =>
      cases h
      cases List.mem_singleton.1 hcode
      exact .inl (spared_dateTimeLiteral d t)
  | dateTimeOffset t =>
      cases h
      cases List.mem_singleton.1 hcode
      exact .inl (spared_dateTimeOffsetLiteral d t)
  | binary bytes =>
      cases h
      cases List.mem_singleton.1 hcode
      exact .inl (spared_binaryLiteral d bytes)
  | systemMethod m =>
      obtain ⟨word, hword, h⟩ := exists_of_bind h
      cases h
      cases List.mem_singleton.1 hcode
      rw [Dialect.systemMethod] at hword
      refine .inr (List.mem_append_right _ (List.mem_filterMap.2 ⟨m, by cases m <;> decide, ?_⟩))
      split at hword
      · cases hword
        assumption
      · cases hword

end Spared

/-- The words that tell columns apart: for the key, for NULL and for numbered columns. -/
def reservedWords : List String := ["PRIMARY KEY", "NOT NULL", "AUTOINCREMENT"]

section Reserved

variable {words : String} (hwords : words ∈ reservedWords)
include hwords

/-- No value says the words. -/
theorem not_says_literal {d : Dialect} {v : Literal} {sql : Sql} (h : v.sql d = .ok sql) :
    ¬ Says words sql := by
  have hspared : ∀ words ∈ reservedWords, ¬ Spared words.toList := by decide
  have hvalues : ∀ words ∈ reservedWords, ∀ code ∈ d.wordValues,
      ¬ words.toList <:+: code.toList := by cases d <;> decide +kernel
  rintro ⟨piece, hpiece, hsaid⟩
  cases piece with
  | code code =>
      rcases spared_or_mem_of_literal h hpiece with hcode | hcode
      · exact hspared words hwords (hcode.part hsaid)
      · exact hvalues words hwords code hcode hsaid
  | _ => exact hsaid

/-- The words around a type or a value, and the types of numbered columns. -/
theorem not_says_around (code : String) (hcode : code ∈ ["CONSTRAINT ", "DEFAULT ", " DEFAULT ",
    "COLLATE ", "COMMENT ", "serial", "smallserial", "bigserial"]) : ¬ Says words [.code code] := by
  have hall : ∀ words ∈ reservedWords, ∀ code ∈ ["CONSTRAINT ", "DEFAULT ", " DEFAULT ",
      "COLLATE ", "COMMENT ", "serial", "smallserial", "bigserial"],
      ¬ words.toList <:+: code.toList := by decide +kernel
  rw [says_code]
  exact hall words hwords code hcode

variable {mode : Mode} {o : Options} {d : Dialect}

/-- Every template lacks some letter of the words. -/
theorem exists_letter_template : ∀ r ∈ (Profile.of d mode o).typeMap.registrations,
    ∃ l ∈ words.toList, l.isDigit = false ∧ l ∉ r.template.toList := by
  have hsame : (Profile.of d mode o).typeMap = (Profile.of d .strict {}).typeMap := by
    cases d <;> rfl
  have hall : ∀ words ∈ reservedWords, ∀ r ∈ (Profile.of d .strict {}).typeMap.registrations,
      words.toList.any (fun l => !l.isDigit && !r.template.toList.contains l) = true := by
    cases d <;> decide +kernel
  rw [hsame]
  intro r hr
  obtain ⟨l, hl, h⟩ := List.any_eq_true.1 (hall words hwords r hr)
  exact ⟨l, hl, by simpa using h⟩

omit hwords in
/-- Numbers bring no letters into a template. -/
theorem not_mem_instantiate {template : String} {l : Char} (hdigit : l.isDigit = false)
    (h : l ∉ template.toList) (size precision : Nat) :
    l ∉ (TypeMap.instantiate template size precision).toList := by
  have hdigits : ∀ n, l ∉ Nat.toDigits 10 n := fun n hmem => by
    rw [Nat.isDigit_of_mem_toDigits (by decide) (by decide) hmem] at hdigit
    cases hdigit
  rw [TypeMap.instantiate, String.toList_ofList]
  intro hmem
  rcases Text.mem_of_mem_replaceAll hmem with hmem | hmem
  · exact hdigits _ hmem
  · exact (Text.mem_of_mem_replaceAll hmem).elim (hdigits _) h

/-- No native type says the words. -/
theorem not_says_typeMap {type : DbType} {size precision : Option UInt32} {sql : String}
    (h : (Profile.of d mode o).typeMap.get type size precision = .ok sql) :
    ¬ Says words [.code sql] := by
  obtain ⟨r, hr, rfl⟩ := TypeMap.exists_of_get h
  obtain ⟨l, hl, hdigit, hlacks⟩ := exists_letter_template hwords r hr
  rw [says_code]
  exact fun hpart => not_mem_instantiate hdigit hlacks _ _ (hpart.subset hl)

theorem not_says_nativeType {c : Column} {sql : Sql}
    (h : (Profile.of d mode o).nativeType c = .ok sql) : ¬ Says words sql := by
  rw [Profile.nativeType] at h
  split at h
  · cases h
    exact says_verbatim _
  · obtain ⟨code, hcode, h⟩ := exists_of_bind h
    cases h
    exact not_says_typeMap hwords hcode

theorem not_says_columnType {c : Column} {sql : Sql}
    (h : (Profile.of d mode o).columnType c = .ok sql) : ¬ Says words sql := by
  rw [Profile.columnType] at h
  split at h
  · cases h
    rw [Profile.serialType.eq_def]
    split <;> exact not_says_around hwords _ (by decide)
  · exact not_says_nativeType hwords h

theorem not_says_default {p : Profile} {c : Column} {table : String} {sql : Sql}
    (h : p.defaultClause c table = .ok sql) : ¬ Says words sql := by
  have hconstraint := not_says_around hwords "CONSTRAINT " (by decide)
  have hnamed := not_says_around hwords " DEFAULT " (by decide)
  have hdefault := not_says_around hwords "DEFAULT " (by decide)
  rw [Profile.defaultClause] at h
  split at h
  · cases h
    exact says_nil
  · obtain ⟨value, hvalue, h⟩ := exists_of_bind h
    have hliteral := not_says_literal hwords hvalue
    split at h <;> cases h <;>
      simp only [says_append, says_name, hconstraint, hnamed, hdefault, hliteral, or_self,
        not_false_eq_true]

/-- Of the clauses of a column, only those for NULL, for the key and for numbers say such words. -/
theorem not_says_clause {c : Column} {table : String} {inlineKey : Bool} {clause : Clause}
    (hclause : clause ∉ [.nullable, .primaryKey, .identity]) {sql : Sql}
    (h : (Profile.of d mode o).clause c table inlineKey clause = .ok sql) : ¬ Says words sql := by
  cases clause with
  | name =>
      cases h
      exact says_name _
  | type => exact not_says_columnType hwords h
  | collation =>
      have hcollate := not_says_around hwords "COLLATE " (by decide)
      cases h
      rw [Profile.collationClause]
      split
      · rw [says_append, Profile.collationName]
        split <;> simp only [hcollate, says_name, says_verbatim, or_self, not_false_eq_true]
      · exact says_nil
  | default => exact not_says_default hwords h
  | description =>
      have hcomment := not_says_around hwords "COMMENT " (by decide)
      cases h
      rw [Profile.descriptionClause.eq_def]
      split
      · rw [says_append]
        exact not_or.2 ⟨hcomment, says_text _⟩
      · exact says_nil
  | nullable | primaryKey | identity => exact absurd (by decide) hclause

end Reserved

end SchemaChange
