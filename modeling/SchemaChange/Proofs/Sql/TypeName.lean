import SchemaChange.Proofs.Dialect.TypeMap
import SchemaChange.Proofs.Sql.Literal

/-!
# Native types in scripts

Every template is fixed SQL, at most with a size, or a size and a precision, before its
closing parenthesis. With numbers put in, it is fixed SQL again.
-/
namespace SchemaChange

open Script

/-- The ends of a template, from its first placeholder on. -/
def templateEnds : List (List Char) := ["", "$size)", "$size,$precision)"].map String.toList

/-- Fixed SQL with one of these ends. -/
def isTemplate (template : String) : Bool :=
  let lead := template.toList.takeWhile (· != '$')
  let tail := template.toList.dropWhile (· != '$')
  isPlain lead && templateEnds.contains tail && Sql.isClosed template

theorem registrations_isTemplate {d : Dialect} (hd : d ≠ .oracle) (mode : Mode) (o : Options) :
    ∀ r ∈ (Profile.of d mode o).typeMap.registrations, isTemplate r.template := by
  cases d with
  | oracle => exact absurd rfl hd
  | sqlServer =>
      change ∀ r ∈ Dialect.SqlServer.typeMap.registrations, isTemplate r.template
      decide +kernel
  | postgres =>
      change ∀ r ∈ Dialect.Postgres.typeMap.registrations, isTemplate r.template
      decide +kernel
  | mySql =>
      change ∀ r ∈ Dialect.MySql.typeMap.registrations, isTemplate r.template
      decide +kernel
  | sqlite =>
      change ∀ r ∈ Dialect.Sqlite.typeMap.registrations, isTemplate r.template
      decide +kernel
  | hana =>
      change ∀ r ∈ Dialect.Hana.typeMap.registrations, isTemplate r.template
      decide +kernel
  | snowflake =>
      change ∀ r ∈ Dialect.Snowflake.typeMap.registrations, isTemplate r.template
      decide +kernel

theorem isPlain_append {cs ds : List Char} (hcs : isPlain cs = true)
    (hds : ∀ c ∈ ds, isQuiet c = true) : isPlain (cs ++ ds) = true := by
  simp only [isPlain, Bool.and_eq_true, Bool.not_eq_true', List.isEmpty_eq_false_iff,
    List.all_eq_true, List.mem_append] at hcs ⊢
  refine ⟨by simp [hcs.1], fun c hc => ?_⟩
  exact hc.elim (hcs.2 c) (hds c)

theorem isQuiet_digits {n : Nat} : ∀ c ∈ Nat.toDigits 10 n, isQuiet c = true := fun _ hc =>
  isQuiet_of_isDigit (Nat.isDigit_of_mem_toDigits (by decide) (by decide) hc)

theorem dollar_not_mem {cs : List Char} (h : ∀ c ∈ cs, isQuiet c = true) : '$' ∉ cs :=
  fun hmem => absurd (h '$' hmem) (by decide)

section Instantiate

variable (size precision : Nat)

/-- What the numbers make of a text. -/
def instantiated (cs : List Char) : List Char :=
  Text.replaceAll "$precision".toList (Nat.toDigits 10 precision)
    (Text.replaceAll "$size".toList (Nat.toDigits 10 size) cs)

theorem instantiated_size : instantiated size precision "$size)".toList =
    Nat.toDigits 10 size ++ [')'] := by
  have hend : "$size)".toList = "$size".toList ++ [')'] := by decide
  have hsize : "$size".toList = '$' :: "size".toList := by decide
  have hprecision : "$precision".toList = '$' :: "precision".toList := by decide
  have hdigits : '$' ∉ Nat.toDigits 10 size ++ [')'] := by
    simpa using dollar_not_mem isQuiet_digits
  have hparen : '$' ∉ [')'] := by decide
  rw [instantiated, hend, Text.replaceAll_occurrence (by decide), hprecision, hsize,
    Text.replaceAll_eq_self hparen, Text.replaceAll_eq_self hdigits]

theorem instantiated_both : instantiated size precision "$size,$precision)".toList =
    Nat.toDigits 10 size ++ ',' :: (Nat.toDigits 10 precision ++ [')']) := by
  have hend : "$size,$precision)".toList =
      "$size".toList ++ ([','] ++ ("$precision".toList ++ [')'])) := by decide
  have hsize : "$size".toList = '$' :: "size".toList := by decide
  have hprecision : "$precision".toList = '$' :: "precision".toList := by decide
  have hdigits : '$' ∉ Nat.toDigits 10 size ++ [','] := by
    simpa using dollar_not_mem isQuiet_digits
  have hother : Text.replaceAll "$size".toList (Nat.toDigits 10 size)
      ([','] ++ ("$precision".toList ++ [')'])) = [','] ++ ("$precision".toList ++ [')']) := by
    have hpattern : "$size".toList = ['$', 's', 'i', 'z', 'e'] := by decide
    have hword : "$precision".toList = ['$', 'p', 'r', 'e', 'c', 'i', 's', 'i', 'o', 'n'] := by
      decide
    simp [hpattern, hword, Text.replaceAll, List.isPrefixOf]
  rw [instantiated, hend, Text.replaceAll_occurrence (by decide), hother, ← List.append_assoc,
    hprecision, Text.replaceAll_append hdigits, ← hprecision,
    Text.replaceAll_occurrence (by decide), hprecision, Text.replaceAll_eq_self (by decide)]
  simp

theorem instantiated_templateEnds {tail : List Char} (h : tail ∈ templateEnds) :
    (∀ c ∈ instantiated size precision tail, isQuiet c = true) ∧
      (tail = [] ∧ instantiated size precision tail = [] ∨
        (instantiated size precision tail).getLast? = some ')') := by
  have hparen : isQuiet ')' = true := by decide
  have hcomma : isQuiet ',' = true := by decide
  simp only [templateEnds, List.map_cons, List.map_nil, List.mem_cons, List.not_mem_nil,
    or_false] at h
  rcases h with rfl | rfl | rfl
  · simp [instantiated, Text.replaceAll]
  · rw [instantiated_size]
    refine ⟨fun c hc => ?_, by simp⟩
    rcases List.mem_append.1 hc with hc | hc
    · exact isQuiet_digits c hc
    · rwa [List.mem_singleton.1 hc]
  · rw [instantiated_both]
    refine ⟨fun c hc => ?_, by simp [List.getLast?_cons]⟩
    simp only [List.mem_append, List.mem_cons, List.not_mem_nil, or_false] at hc
    rcases hc with hc | rfl | hc | rfl
    · exact isQuiet_digits c hc
    · exact hcomma
    · exact isQuiet_digits c hc
    · exact hparen

/-- A template with numbers in it is fixed SQL. -/
theorem closing_instantiate {q : Quoter} {tight : Prop} {template : String}
    (h : isTemplate template) :
    Sql.Closing q tight [.code (TypeMap.instantiate template size precision)] := by
  have hprecision : "$precision".toList = '$' :: "precision".toList := by decide
  have hsize : "$size".toList = '$' :: "size".toList := by decide
  simp only [isTemplate, Bool.and_eq_true, List.contains_iff_mem] at h
  obtain ⟨⟨hlead, htail⟩, hclosed⟩ := h
  have hsplit := List.takeWhile_append_dropWhile (p := (· != '$')) (l := template.toList)
  generalize template.toList.takeWhile (· != '$') = lead at hlead hsplit
  generalize template.toList.dropWhile (· != '$') = tail at htail hsplit
  obtain ⟨hplain, hend⟩ := instantiated_templateEnds size precision htail
  have hdollar : '$' ∉ lead := by
    simp only [isPlain, Bool.and_eq_true, List.all_eq_true, Bool.not_eq_true'] at hlead
    exact dollar_not_mem hlead.2
  have hchars : (TypeMap.instantiate template size precision).toList =
      lead ++ instantiated size precision tail := by
    rw [TypeMap.instantiate, String.toList_ofList, instantiated, ← hsplit, hsize, hprecision,
      Text.replaceAll_append hdollar, Text.replaceAll_append hdollar]
  refine .word (Bool.and_eq_true_iff.2 ⟨?_, ?_⟩)
  · rw [hchars]
    exact isFirm_of_isPlain (isPlain_append hlead hplain)
  · rw [Sql.isClosed, hchars]
    rcases hend with ⟨rfl, hnil⟩ | hlast
    · rw [hnil, hsplit]
      exact hclosed
    · rw [List.getLast?_append, hlast]
      rfl

end Instantiate

/-- A native type that is found is fixed SQL. -/
theorem closing_typeMap {q : Quoter} {tight : Prop} {m : TypeMap}
    (hm : ∀ r ∈ m.registrations, isTemplate r.template) {type : DbType}
    {size precision : Option UInt32} {sql : String} (h : m.get type size precision = .ok sql) :
    Sql.Closing q tight [.code sql] := by
  obtain ⟨r, hr, rfl⟩ := TypeMap.exists_of_get h
  exact closing_instantiate _ _ (hm r hr)

end SchemaChange
