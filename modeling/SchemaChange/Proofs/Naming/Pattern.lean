import SchemaChange.Naming.Convention

/-!
# Patterns that are filled in

A pattern of texts and placeholders becomes the texts with the values between them. Text before
the next opening brace is copied, and filling goes on behind the closing brace, so a value is
never looked at again.
-/
namespace SchemaChange.Naming

/-- A part of a pattern: a text, or a placeholder with its key. -/
inductive Segment where
  | text (s : String)
  | key (k : String)
  deriving DecidableEq

namespace Segment

/-- How the pattern spells the part. -/
def spelled : Segment → List Char
  | text s => s.toList
  | key k => '\x7b' :: (k.toList ++ ['\x7d'])

/-- What stands for the part when the pattern is filled in. A key without a value stays. -/
def filled (value? : List Char → Option (List Char)) : Segment → List Char
  | text s => s.toList
  | key k => (value? k.toList).getD (key k).spelled

/-- The text of a part. -/
def chars : Segment → List Char
  | text s => s.toList
  | key k => k.toList

/-- A part whose text holds no braces. -/
def isPlain (part : Segment) : Bool := part.chars.all fun c => c ≠ '\x7b' && c ≠ '\x7d'

theorem not_mem_of_isPlain {part : Segment} (h : part.isPlain = true) :
    '\x7b' ∉ part.chars ∧ '\x7d' ∉ part.chars := by
  rw [isPlain, List.all_eq_true] at h
  constructor <;> intro hmem <;> simpa using h _ hmem

end Segment

section Fill

variable {value? : List Char → Option (List Char)}

theorem takeKey?_append {key : List Char} (h : '\x7d' ∉ key) (rest : List Char) :
    takeKey? (key ++ '\x7d' :: rest) = some (key, rest) := by
  induction key with
  | nil => exact if_pos rfl
  | cons c key ih =>
      obtain ⟨hc, hkey⟩ := not_or.1 (mt List.mem_cons.2 h)
      rw [List.cons_append, takeKey?, if_neg (Ne.symm hc), ih hkey]
      rfl

theorem takeKey?_eq_some {cs key rest : List Char} (h : takeKey? cs = some (key, rest)) :
    cs = key ++ '\x7d' :: rest ∧ '\x7d' ∉ key := by
  induction cs generalizing key with
  | nil => cases h
  | cons c cs ih =>
      rw [takeKey?] at h
      split at h
      next hc =>
        cases h
        exact ⟨by rw [hc, List.nil_append], List.not_mem_nil⟩
      next hc =>
        obtain ⟨⟨key', rest'⟩, hlater, he⟩ := Option.map_eq_some_iff.1 h
        cases he
        obtain ⟨rfl, hkey⟩ := ih hlater
        exact ⟨rfl, by simpa using ⟨Ne.symm hc, hkey⟩⟩

/-- Text in front of the next opening brace is copied. -/
theorem fill_append {lead : List Char} (h : '\x7b' ∉ lead) (rest : List Char) :
    fill value? (lead ++ rest) = lead ++ fill value? rest := by
  induction lead with
  | nil => rfl
  | cons c lead ih =>
      obtain ⟨hc, hlead⟩ := not_or.1 (mt List.mem_cons.2 h)
      rw [List.cons_append, fill, if_neg (Ne.symm hc), ih hlead]
      rfl

theorem fill_known {key value : List Char} (hkey : '\x7d' ∉ key) (h : value? key = some value)
    (rest : List Char) :
    fill value? ('\x7b' :: (key ++ '\x7d' :: rest)) = value ++ fill value? rest := by
  rw [fill, if_pos rfl]
  split
  next key' rest' htake =>
    rw [takeKey?_append hkey, Option.some.injEq, Prod.mk.injEq] at htake
    obtain ⟨rfl, rfl⟩ := htake
    rw [h]
  next htake =>
    rw [takeKey?_append hkey] at htake
    cases htake

/-- A brace that opens no known placeholder is copied. -/
theorem fill_kept {inner : List Char}
    (h : ∀ key rest, takeKey? inner = some (key, rest) → value? key = none) :
    fill value? ('\x7b' :: inner) = '\x7b' :: fill value? inner := by
  rw [fill, if_pos rfl]
  split
  next key rest htake => rw [h key rest htake]
  next => rfl

/-- A placeholder without a value is copied like text. -/
theorem fill_unknown {key : List Char} (hopen : '\x7b' ∉ key) (hkey : '\x7d' ∉ key)
    (h : value? key = none) (rest : List Char) :
    fill value? ('\x7b' :: (key ++ '\x7d' :: rest)) =
      '\x7b' :: (key ++ '\x7d' :: fill value? rest) := by
  have hcopied : '\x7b' ∉ key ++ ['\x7d'] := by simp [hopen]
  rw [fill_kept, List.append_cons, fill_append hcopied, List.append_assoc, List.singleton_append]
  intro key' rest' htake
  rw [takeKey?_append hkey, Option.some.injEq, Prod.mk.injEq] at htake
  rw [← htake.1, h]

/-- A pattern is filled in part by part. -/
theorem fill_segments {parts : List Segment} (h : ∀ part ∈ parts, part.isPlain = true) :
    fill value? (parts.flatMap Segment.spelled) = parts.flatMap (Segment.filled value?) := by
  induction parts with
  | nil => rw [List.flatMap_nil, List.flatMap_nil, fill]
  | cons part parts ih =>
      have hplain := Segment.not_mem_of_isPlain (h part (List.mem_cons_self ..))
      have hrest := ih fun part hpart => h part (List.mem_cons_of_mem _ hpart)
      rw [List.flatMap_cons, List.flatMap_cons]
      cases part with
      | text s =>
          have hopen : '\x7b' ∉ s.toList := hplain.1
          rw [Segment.spelled, fill_append hopen, hrest, Segment.filled]
      | key k =>
          obtain ⟨hopen, hclose⟩ : '\x7b' ∉ k.toList ∧ '\x7d' ∉ k.toList := hplain
          rw [Segment.filled, Segment.spelled, List.cons_append, List.append_assoc,
            List.singleton_append]
          cases hvalue : value? k.toList with
          | some value => rw [fill_known hclose hvalue, hrest, Option.getD_some]
          | none =>
              rw [fill_unknown hopen hclose hvalue, hrest, Option.getD_none, List.cons_append,
                List.append_assoc, List.singleton_append]

end Fill

/-- The value of a key: that of its first entry. -/
def lookup (values : List (String × String)) (key : List Char) : Option (List Char) :=
  (values.find? (·.1.toList == key)).map (·.2.toList)

/-- The text of a pattern is put together from its parts. -/
theorem toList_format {pattern : String} (parts : List Segment)
    (hpattern : pattern.toList = parts.flatMap Segment.spelled)
    (h : ∀ part ∈ parts, part.isPlain = true) (values : List (String × String)) :
    (format pattern values).toList = parts.flatMap (Segment.filled (lookup values)) := by
  rw [format, String.toList_ofList, hpattern, fill_segments h]
  rfl

namespace Segment

variable {k k' value : String} {values : List (String × String)}

theorem filled_text {value? : List Char → Option (List Char)} (s : String) :
    (text s).filled value? = s.toList := rfl

theorem filled_first : (key k).filled (lookup ((k, value) :: values)) = value.toList := by
  simp [filled, lookup]

theorem filled_other (h : k' ≠ k) :
    (key k).filled (lookup ((k', value) :: values)) = (key k).filled (lookup values) := by
  have hkey : (k'.toList == k.toList) = false := by
    rw [beq_eq_false_iff_ne, ne_eq, String.toList_inj]
    exact h
  simp only [filled, lookup, List.find?_cons, hkey]

end Segment

section Names

theorem primaryKeyName_eq (table : String) : primaryKeyName table = "PK_" ++ table := by
  apply String.toList_injective
  rw [primaryKeyName, toList_format [.text "PK_", .key "table"] (by decide) (by decide)]
  simp only [List.flatMap_cons, List.flatMap_nil, Segment.filled_text, Segment.filled_first,
    String.toList_append, List.append_nil]

theorem uniqueName_eq (table : String) (columns : List String) :
    uniqueName table columns = "UC_" ++ table ++ "_" ++ joinNames columns := by
  apply String.toList_injective
  have hkeys : "table" ≠ "columns" := by decide
  rw [uniqueName, toList_format [.text "UC_", .key "table", .text "_", .key "columns"]
    (by decide) (by decide)]
  simp only [List.flatMap_cons, List.flatMap_nil, Segment.filled_text, Segment.filled_first,
    Segment.filled_other hkeys, String.toList_append, List.append_assoc, List.append_nil]

theorem defaultName_eq (table column : String) :
    defaultName table column = "DF_" ++ table ++ "_" ++ column := by
  apply String.toList_injective
  have hkeys : "table" ≠ "column" := by decide
  rw [defaultName, toList_format [.text "DF_", .key "table", .text "_", .key "column"]
    (by decide) (by decide)]
  simp only [List.flatMap_cons, List.flatMap_nil, Segment.filled_text, Segment.filled_first,
    Segment.filled_other hkeys, String.toList_append, List.append_assoc, List.append_nil]

end Names

end SchemaChange.Naming
