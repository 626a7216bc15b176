import SchemaChange.Dialect.Switches
import SchemaChange.Proofs.Sql.Outcome
import SchemaChange.Proofs.Text.Blank
import SchemaChange.Proofs.Text.Search

/-!
# Switches that are read back

A switch is written as its key, an equals sign and its value in double quotes, and semicolons go
between switches. The first equals sign ends the key, so equals signs, blanks and single quotes
of a value stay. The text is cut at every semicolon before anything else is looked at, so
one inside quotes ends its switch.
-/
namespace SchemaChange.Switches

/-- A key that reading leaves as it is: not empty, in lower case, without blanks and without the
marks of the list. -/
structure IsPlainKey (key : String) : Prop where
  ne_empty : key ≠ ""
  lower : Text.lower key = key
  plain : ∀ c ∈ key.toList, Text.isBlank c = false ∧ c ≠ '=' ∧ c ≠ ';'

/-- A switch with its value in double quotes. -/
def written (entry : String × String) : String := entry.1 ++ "=\"" ++ entry.2 ++ "\""

/-- Switches with semicolons between them. -/
def writtenAll (entries : List (String × String)) : String :=
  ";".intercalate (entries.map written)

theorem splitOnce_append {α : Type} [DecidableEq α] {mark : α} {before : List α}
    (h : mark ∉ before) (after : List α) :
    Text.splitOnce mark (before ++ mark :: after) = some (before, after) := by
  induction before with
  | nil => exact if_pos rfl
  | cons a before ih =>
      obtain ⟨ha, hbefore⟩ := not_or.1 (mt List.mem_cons.2 h)
      rw [List.cons_append, Text.splitOnce, if_neg (Ne.symm ha), ih hbefore]
      rfl

section Value

theorem betweenQuotes?_quoted (mark : Char) (value : List Char) :
    betweenQuotes? mark (mark :: (value ++ [mark])) = some value := by
  simp [betweenQuotes?]

theorem bareValue_quoted (value : List Char) : bareValue ('"' :: (value ++ ['"'])) = value := by
  have htrimmed : Text.trimmed ('"' :: (value ++ ['"'])) = '"' :: (value ++ ['"']) := by
    refine Text.trimmed_eq_self (fun c hc => ?_) fun c hc => ?_
    · obtain rfl : '"' = c := Option.some.inj hc
      rfl
    · rw [← List.cons_append, List.getLast?_concat] at hc
      obtain rfl : '"' = c := Option.some.inj hc
      rfl
  rw [bareValue, htrimmed, betweenQuotes?_quoted]
  rfl

/-- A quote that is not closed stays in the value. -/
theorem mem_bareValue_of_open {value : List Char} (h : '"' ∉ value) :
    '"' ∈ bareValue ('"' :: value) := by
  have hstart : Text.trimStart ('"' :: value) = '"' :: value := rfl
  have htrimmed : Text.trimmed ('"' :: value) = '"' :: Text.trimEnd value := by
    rw [Text.trimmed, hstart, Text.trimEnd]
    cases Text.trimEnd value <;> rfl
  have hopen : (Text.trimEnd value).getLast? ≠ some '"' := by
    intro hlast
    obtain ⟨trail, hvalue, -⟩ := Text.exists_trimEnd value
    rw [hvalue, List.mem_append, not_or] at h
    exact h.1 (List.mem_of_getLast? hlast)
  have hnone : betweenQuotes? '"' ('"' :: Text.trimEnd value) = none :=
    if_neg fun hclosed => hopen hclosed.2
  have hother : betweenQuotes? '\x27' ('"' :: Text.trimEnd value) = none := by
    simp [betweenQuotes?]
  rw [bareValue, htrimmed, hnone, hother]
  exact List.mem_cons_self ..

end Value

section Key

variable {key : String} (hkey : IsPlainKey key)

include hkey

theorem normalKey_toList : normalKey key.toList = key.toList := by
  have hfilter : key.toList.filter (!Text.isBlank ·) = key.toList := by
    rw [List.filter_eq_self]
    intro c hc
    simp [(hkey.plain c hc).1]
  rw [normalKey, hfilter]
  simpa only [Text.lower, String.toList_ofList] using congrArg String.toList hkey.lower

/-- Whatever stands behind a key and the quote that opens its value belongs to the value. -/
theorem pair_opened (behind : List Char) : pair (key.toList ++ '=' :: '"' :: behind) =
    .ok (some (key, String.ofList (bareValue ('"' :: Text.trimEnd behind)))) := by
  have hne : key.toList ≠ [] := by
    rw [ne_eq, String.toList_eq_nil_iff]
    exact hkey.ne_empty
  have htrimmed : Text.trimmed (key.toList ++ '=' :: '"' :: behind) =
      key.toList ++ '=' :: '"' :: Text.trimEnd behind := by
    have haround : Text.trimmed ([] ++ (key.toList ++ ['=', '"']) ++ behind) =
        Text.trimStart [] ++ (key.toList ++ ['=', '"']) ++ Text.trimEnd behind :=
      Text.trimmed_around (by simp) (fun c hc => ?_) (fun c hc => ?_) [] behind
    · simpa [Text.trimStart] using haround
    · rw [List.head?_append_of_ne_nil _ hne] at hc
      exact (hkey.plain c (List.mem_of_mem_head? hc)).1
    · rw [List.getLast?_append] at hc
      obtain rfl : '"' = c := Option.some.inj hc
      rfl
  have hequals : '=' ∉ key.toList := fun h => (hkey.plain '=' h).2.1 rfl
  rw [pair, htrimmed]
  split
  next hnil => simp at hnil
  next =>
    rw [splitOnce_append hequals]
    simp only [normalKey_toList hkey, String.ofList_toList]

end Key

section Parts

theorem toList_written (entry : String × String) : (written entry).toList =
    entry.1.toList ++ '=' :: '"' :: (entry.2.toList ++ ['"']) := by
  have hopens : "=\"".toList = ['=', '"'] := by decide
  have hcloses : "\"".toList = ['"'] := by decide
  simp [written, String.toList_append, hopens, hcloses]

variable {entry : String × String} (hkey : IsPlainKey entry.1)

include hkey

theorem semicolon_not_mem_key : ';' ∉ entry.1.toList := fun h => (hkey.plain ';' h).2.2 rfl

/-- A whole switch is read back. -/
theorem pair_written : pair (written entry).toList = .ok (some entry) := by
  have hend : Text.trimEnd (entry.2.toList ++ ['"']) = entry.2.toList ++ ['"'] := by
    refine Text.trimEnd_eq_self fun c hc => ?_
    rw [List.getLast?_concat] at hc
    obtain rfl : '"' = c := Option.some.inj hc
    rfl
  rw [toList_written, pair_opened hkey, hend, bareValue_quoted, String.ofList_toList]

/-- A semicolon in a value leaves a part with the open quote in its value. -/
theorem exists_part_of_semicolon (hquote : '"' ∉ entry.2.toList) (h : ';' ∈ entry.2.toList) :
    ∃ part ∈ Text.splitOn ';' (written entry).toList,
      ∃ value : String, pair part = .ok (some (entry.1, value)) ∧ '"' ∈ value.toList := by
  obtain ⟨before, after, hvalue, hbefore⟩ := List.eq_append_cons_of_mem h
  obtain ⟨first, others, hsplit⟩ := Text.exists_splitOn ';' (after ++ ['"'])
  have hlead : ';' ∉ entry.1.toList ++ '=' :: '"' :: before := by
    simp [semicolon_not_mem_key hkey, hbefore]
  have hcut := Text.splitOn_append hlead ((Text.splitOn_cons hsplit ';').trans (if_pos rfl))
  have htext : (written entry).toList =
      entry.1.toList ++ '=' :: '"' :: before ++ ';' :: (after ++ ['"']) := by
    rw [toList_written, hvalue]
    simp
  have hopen : '"' ∉ Text.trimEnd before := by
    obtain ⟨trail, hbefore, -⟩ := Text.exists_trimEnd before
    intro hmem
    rw [hvalue, hbefore] at hquote
    simp [hmem] at hquote
  rw [List.append_nil] at hcut
  rw [htext, hcut]
  refine ⟨_, List.mem_cons_self .., _, pair_opened hkey before, ?_⟩
  rw [String.toList_ofList]
  exact mem_bareValue_of_open hopen

end Parts

theorem toList_writtenAll (entries : List (String × String)) : (writtenAll entries).toList =
    [';'].intercalate ((entries.map written).map String.toList) := by
  have hmark : ";".toList = [';'] := by decide
  rw [writtenAll, String.toList_intercalate, hmark]

section Entries

variable {entries : List (String × String)} (hkeys : ∀ entry ∈ entries, IsPlainKey entry.1)

include hkeys

/-- Without semicolons in values, the parts are the switches. -/
theorem pairs_writtenAll (h : ∀ entry ∈ entries, ';' ∉ entry.2.toList) :
    pairs (writtenAll entries) = .ok entries := by
  cases entries with
  | nil => rfl
  | cons first others =>
      have hwhole : ∀ part ∈ ((first :: others).map written).map String.toList, ';' ∉ part := by
        simp only [List.mem_map, forall_exists_index, and_imp, forall_apply_eq_imp_iff₂]
        intro entry hentry
        rw [toList_written]
        simp [semicolon_not_mem_key (hkeys entry hentry), h entry hentry]
      have hparts : Text.splitOn ';' (writtenAll (first :: others)).toList =
          ((first :: others).map written).map String.toList := by
        rw [toList_writtenAll, Text.splitOn_intercalate (by simp),
          List.flatMap_congr fun part hpart => Text.splitOn_of_not_mem (hwhole part hpart)]
        exact List.flatMap_singleton' _
      have hfound : (((first :: others).map written).map String.toList).mapM pair =
          .ok ((first :: others).map some) := by
        rw [List.map_map, List.mapM_map]
        exact mapM_eq_ok fun entry hentry => pair_written (hkeys entry hentry)
      rw [pairs, hparts, hfound]
      simp [List.filterMap_map]

/-- Switches are read back exactly when no value holds a semicolon: quotes do not protect it. -/
theorem pairs_writtenAll_iff (hvalues : ∀ entry ∈ entries, '"' ∉ entry.2.toList) :
    pairs (writtenAll entries) = .ok entries ↔ ∀ entry ∈ entries, ';' ∉ entry.2.toList := by
  constructor
  · intro h entry hentry hsemicolon
    obtain ⟨part, hpart, value, hpair, hopen⟩ := exists_part_of_semicolon (hkeys entry hentry)
      (hvalues entry hentry) hsemicolon
    obtain ⟨found, hfound, hentries⟩ := exists_of_bind h
    have hmem : part ∈ Text.splitOn ';' (writtenAll entries).toList := by
      rw [toList_writtenAll, Text.splitOn_intercalate (by simp [List.ne_nil_of_mem hentry])]
      refine List.mem_flatMap.2 ⟨(written entry).toList, ?_, hpart⟩
      exact List.mem_map_of_mem (List.mem_map_of_mem hentry)
    obtain ⟨result, hresult, hpair'⟩ := mem_of_mapM hfound hmem
    rw [hpair, Except.ok.injEq] at hpair'
    have hread : (entry.1, value) ∈ entries := by
      rw [← Except.ok.inj hentries]
      exact List.mem_filterMap.2 ⟨_, hresult, hpair'.symm⟩
    exact hvalues _ hread hopen
  · exact pairs_writtenAll hkeys

end Entries

/-- Plain keys, checked character by character. -/
theorem IsPlainKey.of_all {key : String} (hne : key ≠ "") (hlower : Text.lower key = key)
    (h : key.toList.all (fun c => !Text.isBlank c && c != '=' && c != ';') = true) :
    IsPlainKey key := by
  refine ⟨hne, hlower, fun c hc => ?_⟩
  simpa [and_assoc] using List.all_eq_true.1 h c hc

theorem isPlainKey_sample : ∀ key ∈ ["quoteidentifiers", "note"], IsPlainKey key := by
  intro key hkey
  rcases List.mem_pair.1 hkey with rfl | rfl
  · exact .of_all (by decide) (by decide +kernel) (by decide +kernel)
  · exact .of_all (by decide) (by decide +kernel) (by decide +kernel)

theorem pairs_writtenAll_iff_hardValues :
    let entries := [("note", " 'a=b' "), ("quoteidentifiers", ""), ("note", "=\t'")]
    (∀ entry ∈ entries, IsPlainKey entry.1) ∧ (∀ entry ∈ entries, '"' ∉ entry.2.toList) ∧
      pairs (writtenAll entries) = .ok entries := by
  intro entries
  have hkeys : ∀ entry ∈ entries, IsPlainKey entry.1 := by
    have hknown : ∀ entry ∈ entries, entry.1 ∈ ["quoteidentifiers", "note"] := by decide
    exact fun entry hentry => isPlainKey_sample _ (hknown entry hentry)
  have hvalues : ∀ entry ∈ entries, '"' ∉ entry.2.toList := by decide
  exact ⟨hkeys, hvalues, (pairs_writtenAll_iff hkeys hvalues).2 (by decide)⟩

/-- A semicolon ends a switch also inside the quotes of its value. -/
theorem not_pairs_writtenAll : ¬ ∀ entries : List (String × String),
    (∀ entry ∈ entries, IsPlainKey entry.1) → (∀ entry ∈ entries, '"' ∉ entry.2.toList) →
      pairs (writtenAll entries) = .ok entries := by
  intro h
  have hread := h [("note", "x;y")] (by simpa using isPlainKey_sample "note" (by decide))
    (by decide)
  have hcut : pairs (writtenAll [("note", "x;y")]) =
      .error (.setting (.switchWithoutValue "y\"")) := by
    decide +kernel
  rw [hcut] at hread
  cases hread

end SchemaChange.Switches
