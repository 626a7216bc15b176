import SchemaChange.Proofs.Checked
import SchemaChange.Proofs.Script.Comments
import SchemaChange.Proofs.Text.Slice

/-!
# Reading a line by byte positions

The ranges of a line, looked for at positions that count bytes and with every slice checked. Each
search has a result, and it is the position of the place that the search by characters reports.
-/
namespace SchemaChange.Script

/-- A line and a position in it. -/
structure LineReader where
  line : List Char
  index : Nat

/-- What happens next in an open range, and where. -/
inductive EndCode where
  | found (index : Nat)
  | nested (index : Nat)

namespace LineReader

def length (r : LineReader) : Nat := Text.byteLength r.line

/-- The text between two positions of the line. -/
def slice (r : LineReader) (start stop : Nat) : Checked (List Char) :=
  Checked.get? (Text.slice? r.line start stop)

def remaining (r : LineReader) : Checked (List Char) := r.slice r.index r.length

/-- A position behind the end of the line is the end. -/
def seek (r : LineReader) (index : Nat) : LineReader := { r with index := min index r.length }

/-- Where a pattern begins at the position or behind it. -/
def find (r : LineReader) (pattern : List Char) : Checked (Option Nat) := do
  let rest ← r.remaining
  return (Text.find? pattern rest).map fun n => r.index + Text.byteLength (rest.take n)

/-- Look for a closing code that is not followed by another one; behind a pair the search goes
on. -/
def findSingleStep (code : Code) (cursor : LineReader) :
    Checked (Option Nat ⊕ LineReader) := do
  match ← cursor.find code.chars with
  | none => return .inl none
  | some index =>
      let after := index + Text.byteLength code.chars
      let behind ← cursor.slice after cursor.length
      if code.chars.isPrefixOf behind then
        return .inr (cursor.seek (after + Text.byteLength code.chars))
      else return .inl (some index)

def findSingle (code : Code) (r : LineReader) : Checked (Option Nat) :=
  Checked.loop (findSingleStep code) r

end LineReader

namespace Range

/-- Where the range begins. -/
def findStartCode (range : Range) (r : LineReader) : Checked (Option Nat) :=
  match range with
  | lineComment opening true => do
      let index := r.length - Text.byteLength (Text.trimStart r.line)
      if r.index ≤ index then
        let rest ← r.slice index r.length
        return if opening.chars.isPrefixOf rest then some index else none
      else return none
  | range => r.find range.opening.chars

/-- What happens next in the open range before the end of the line. -/
def findEndCode (range : Range) (r : LineReader) : Checked (Option EndCode) :=
  match range with
  | doubled _ closing => do return (← r.findSingle closing).map .found
  | plain _ closing _ => do return (← r.find closing.chars).map .found
  | lineComment .. => return some (.found r.length)
  | nesting opening closing => do
      let outer ← r.find closing.chars
      let inner ← r.find opening.chars
      match inner, outer with
      | some inner, some outer =>
          return some (if inner < outer then .nested inner else .found outer)
      | some inner, none => return some (.nested inner)
      | none, some outer => return some (.found outer)
      | none, none => return none

end Range

/-- The earliest range start ahead, and its range. -/
def firstStartCode (r : LineReader) : List Range → Checked (Option (Nat × Range))
  | [] => return none
  | range :: ranges => do
      let start ← range.findStartCode r
      let later ← firstStartCode r ranges
      match start, later with
      | none, later => return later
      | some index, none => return some (index, range)
      | some index, some (index', range') =>
          return if index' < index then some (index', range') else some (index, range)

/-- The reader at a place. -/
def Cursor.reader (c : Cursor) : LineReader := ⟨c.line, c.index⟩

section Positions

variable {c : Cursor} {m n : Nat}

theorem indexAt_zero (c : Cursor) : c.indexAt 0 = c.index := rfl

theorem indexAt_length (c : Cursor) : c.indexAt c.rest.length = c.reader.length := by
  simp [Cursor.indexAt, Cursor.reader, LineReader.length, Cursor.line, Cursor.index,
    Text.byteLength_reverse]

theorem index_advance (c : Cursor) (n : Nat) : (c.advance n).index = c.indexAt n := by
  simp [Cursor.advance, Cursor.index, Cursor.indexAt, Text.byteLength_reverse, Nat.add_comm]

/-- A reader further on in the line. -/
theorem reader_advance (c : Cursor) (n : Nat) :
    (c.advance n).reader = { c.reader with index := c.indexAt n } := by
  rw [Cursor.reader, Cursor.advance_line, index_advance]
  rfl

theorem indexAt_advance (c : Cursor) (m n : Nat) : (c.advance m).indexAt n = c.indexAt (m + n) := by
  simp [Cursor.indexAt, index_advance, List.take_add, Nat.add_assoc]

/-- Where something stands behind a place. -/
theorem map_indexAt_advance (c : Cursor) (m : Nat) (ahead : Option Nat) :
    ahead.map (c.advance m).indexAt = (ahead.map (m + ·)).map c.indexAt := by
  cases ahead with
  | none => rfl
  | some n => exact congrArg some (indexAt_advance c m n)

theorem indexAt_le (c : Cursor) (hmn : m ≤ n) : c.indexAt m ≤ c.indexAt n := by
  obtain ⟨k, rfl⟩ := Nat.exists_eq_add_of_le hmn
  simp only [Cursor.indexAt, List.take_add, Text.byteLength_append]
  omega

/-- Places of a line compare like their positions. -/
theorem indexAt_lt_iff (hm : m ≤ c.rest.length) (hn : n ≤ c.rest.length) :
    c.indexAt m < c.indexAt n ↔ m < n := by
  constructor
  · intro h
    refine Nat.lt_of_not_le fun hle => ?_
    exact absurd (indexAt_le c hle) (Nat.not_le_of_lt h)
  · intro h
    exact Nat.add_lt_add_left (Text.byteLength_take_lt h (by omega)) _

theorem indexAt_le_length (c : Cursor) (n : Nat) : c.indexAt n ≤ c.reader.length := by
  rw [← indexAt_length]
  by_cases hn : n ≤ c.rest.length
  · exact indexAt_le c hn
  · have htake : c.rest.take n = c.rest := List.take_of_length_le (by omega)
    simp [Cursor.indexAt, htake]

/-- Before a character lies a position of the line. -/
theorem index_lt_of_rest {d : Char} {rest : List Char} (h : c.rest = d :: rest) :
    c.index < c.reader.length := by
  rw [← indexAt_zero, ← indexAt_length, indexAt_lt_iff (Nat.zero_le _) (Nat.le_refl _), h]
  exact Nat.succ_pos _

/-- A code that stands some characters ahead reaches to the position behind it. -/
theorem indexAt_add_of_prefix {code : List Char} (h : code <+: c.rest.drop n) :
    c.indexAt (n + code.length) = c.indexAt n + Text.byteLength code := by
  obtain ⟨after, hafter⟩ := h
  have htake : (c.rest.drop n).take code.length = code := by rw [← hafter, List.take_left]
  rw [Cursor.indexAt, List.take_add, htake, Text.byteLength_append, Cursor.indexAt, Nat.add_assoc]

/-- The text between two places of a line. -/
theorem slice_reader (c : Cursor) (h : m ≤ n) :
    c.reader.slice (c.indexAt m) (c.indexAt n) = pure ((c.rest.drop m).take (n - m)) := by
  obtain ⟨k, rfl⟩ := Nat.exists_eq_add_of_le h
  refine Checked.get?_of_eq (Text.slice?_eq_some_iff.2
    ⟨c.passed.reverse ++ c.rest.take m, c.rest.drop (m + k), ?_, ?_, ?_⟩)
  · rw [Nat.add_sub_cancel_left, ← List.drop_drop, List.take_append_drop, List.append_assoc,
      List.take_append_drop]
    rfl
  · rw [Text.byteLength_append, Text.byteLength_reverse]
    rfl
  · rw [Nat.add_sub_cancel_left, Cursor.indexAt, List.take_add, Text.byteLength_append,
      Cursor.indexAt, Nat.add_assoc]

/-- The text up to a place. -/
theorem slice_zero_reader (c : Cursor) (n : Nat) :
    c.reader.slice 0 (c.indexAt n) = pure (c.passed.reverse ++ c.rest.take n) := by
  refine Checked.get?_of_eq (Text.slice?_eq_some_iff.2 ⟨[], c.rest.drop n, ?_, rfl, ?_⟩)
  · rw [List.nil_append, List.append_assoc, List.take_append_drop]
    rfl
  · rw [Nat.zero_add, Text.byteLength_append, Text.byteLength_reverse]
    rfl

/-- The text from the reader up to a place. -/
theorem slice_index_reader (c : Cursor) (n : Nat) :
    c.reader.slice c.reader.index (c.indexAt n) = pure (c.rest.take n) := by
  have hslice := slice_reader c (Nat.zero_le n)
  rw [List.drop_zero, Nat.sub_zero] at hslice
  exact hslice

theorem remaining_reader (c : Cursor) : c.reader.remaining = pure c.rest := by
  have hslice := slice_index_reader c c.rest.length
  rw [indexAt_length, List.take_length] at hslice
  exact hslice

/-- The text from a place on. -/
theorem slice_reader_length (c : Cursor) (n : Nat) :
    c.reader.slice (c.indexAt n) c.reader.length = pure (c.rest.drop n) := by
  have hrest := remaining_reader (c.advance n)
  rw [reader_advance] at hrest
  exact hrest

theorem find_reader (c : Cursor) (pattern : List Char) :
    c.reader.find pattern = pure ((c.find? pattern).map c.indexAt) := by
  rw [LineReader.find, remaining_reader, pure_bind]
  rfl

theorem seek_reader (c : Cursor) (n : Nat) :
    c.reader.seek (c.indexAt n) = (c.advance n).reader := by
  rw [LineReader.seek, Nat.min_eq_left (indexAt_le_length c n), reader_advance]

end Positions

section Codes

variable {c : Cursor}

/-- The loop over closing codes ends where the search by characters does. -/
theorem findSingle_reader (code : Code) (c : Cursor) :
    c.reader.findSingle code = pure ((findSingle? code c.rest).map c.indexAt) := by
  generalize hcs : c.rest = cs
  fun_induction findSingle? code cs generalizing c with
  | case1 cs hfind =>
      subst hcs
      refine Checked.loop_done ?_
      rw [LineReader.findSingleStep, find_reader, Cursor.find?, hfind, pure_bind]
      rfl
  | case2 cs n hfind behind hpair ih =>
      subst hcs
      have hafter : c.indexAt (n + code.length) = c.indexAt n + Text.byteLength code.chars :=
        indexAt_add_of_prefix (Text.find?_eq_some hfind).1
      have hpair : code.chars.isPrefixOf (c.rest.drop (n + code.length)) = true := hpair
      have hbehind : c.indexAt (n + code.length + code.length) =
          c.indexAt (n + code.length) + Text.byteLength code.chars :=
        indexAt_add_of_prefix (List.isPrefixOf_iff_prefix.1 hpair)
      have hstep : LineReader.findSingleStep code c.reader =
          pure (.inr (c.advance (n + code.length + code.length)).reader) := by
        rw [LineReader.findSingleStep, find_reader, Cursor.find?, hfind]
        simp only [Option.map_some, pure_bind]
        rw [← hafter, slice_reader_length, pure_bind, if_pos hpair, ← hbehind, seek_reader]
      have hlater := ih (c.advance (n + code.length + code.length)) (by simp [behind])
      rw [LineReader.findSingle, Checked.loop_next hstep]
      rw [LineReader.findSingle] at hlater
      rw [hlater, map_indexAt_advance, Nat.two_mul, Nat.add_assoc n]
  | case3 cs n hfind behind hother =>
      subst hcs
      have hafter : c.indexAt (n + code.length) = c.indexAt n + Text.byteLength code.chars :=
        indexAt_add_of_prefix (Text.find?_eq_some hfind).1
      have hother : ¬ code.chars.isPrefixOf (c.rest.drop (n + code.length)) = true := hother
      refine Checked.loop_done ?_
      rw [LineReader.findSingleStep, find_reader, Cursor.find?, hfind]
      simp only [Option.map_some, pure_bind]
      rw [← hafter, slice_reader_length, pure_bind, if_neg hother]

/-- The end of a range is found where the search by characters finds it. -/
def Cursor.endCode (c : Cursor) : Ending → EndCode
  | .closes n => .found (c.indexAt n)
  | .nests n => .nested (c.indexAt n)

theorem findEndCode_reader (range : Range) (c : Cursor) :
    range.findEndCode c.reader = pure ((range.findEnd? c.rest).map c.endCode) := by
  cases range with
  | doubled opening closing =>
      rw [Range.findEndCode, findSingle_reader]
      simp [Range.findEnd?, Function.comp_def, Cursor.endCode]
  | plain opening closing isComment =>
      rw [Range.findEndCode, find_reader]
      simp [Range.findEnd?, Function.comp_def, Cursor.endCode, Cursor.find?]
  | lineComment opening atLineStart =>
      simp [Range.findEndCode, Range.findEnd?, Cursor.endCode, indexAt_length]
  | nesting opening closing =>
      rw [Range.findEndCode, find_reader, find_reader, Cursor.find?, Cursor.find?, Range.findEnd?,
        pure_bind, pure_bind]
      cases hinner : Text.find? opening.chars c.rest with
      | none => cases Text.find? closing.chars c.rest <;> rfl
      | some inner =>
          cases houter : Text.find? closing.chars c.rest with
          | none => rfl
          | some outer =>
              have hle := Text.le_of_find? hinner
              have hle' := Text.le_of_find? houter
              have hlt : c.indexAt inner < c.indexAt outer ↔ inner < outer :=
                indexAt_lt_iff (by omega) (by omega)
              simp only [Option.map_some, hlt]
              split <;> rfl

/-- The blanks ahead end where the rest without them begins. -/
theorem length_sub_trimStart (c : Cursor) :
    c.reader.length - Text.byteLength (Text.trimStart c.rest) =
      c.indexAt (c.rest.takeWhile Text.isBlank).length := by
  have hrest : c.rest.takeWhile Text.isBlank ++ Text.trimStart c.rest = c.rest :=
    List.takeWhile_append_dropWhile
  have htake : c.rest.take (c.rest.takeWhile Text.isBlank).length =
      c.rest.takeWhile Text.isBlank := (List.prefix_iff_eq_take.1 (List.takeWhile_prefix _)).symm
  have hlength := congrArg Text.byteLength hrest
  rw [Text.byteLength_append] at hlength
  rw [← indexAt_length, Cursor.indexAt, Cursor.indexAt, List.take_length, htake]
  omega

/-- The indent of a line ends behind a place if only blanks stand before it. -/
theorem indent_of_blank (h : c.passed.all Text.isBlank = true) :
    c.reader.length - Text.byteLength (Text.trimStart c.line) =
      c.indexAt (c.rest.takeWhile Text.isBlank).length := by
  have hlead : Text.trimStart c.passed.reverse = [] := by
    rwa [Text.trimStart_eq_nil_iff, List.all_reverse]
  rw [Cursor.line, Text.trimStart_append, if_pos hlead, length_sub_trimStart]

/-- It ends before the place if another character stands there. -/
theorem indent_of_not_blank (h : ¬ c.passed.all Text.isBlank = true) :
    c.reader.length - Text.byteLength (Text.trimStart c.line) < c.index := by
  have hlead : Text.trimStart c.passed.reverse ≠ [] := by
    rwa [Ne, Text.trimStart_eq_nil_iff, List.all_reverse]
  obtain ⟨blanks, hpassed, -⟩ := Text.exists_trimStart c.passed.reverse
  have hindex := congrArg Text.byteLength hpassed
  rw [Text.byteLength_reverse, Text.byteLength_append] at hindex
  have hpos := Nat.pos_of_ne_zero (mt (Text.byteLength_eq_zero_iff _).1 hlead)
  rw [Cursor.line, Text.trimStart_append, if_neg hlead, ← indexAt_length, Cursor.indexAt,
    List.take_length, Text.byteLength_append, Cursor.index]
  omega

theorem findStartCode_reader (range : Range) (c : Cursor) :
    range.findStartCode c.reader = pure ((range.findStart? c).map c.indexAt) := by
  cases range with
  | doubled opening closing | plain opening closing isComment | nesting opening closing =>
      exact find_reader c opening.chars
  | lineComment opening atLineStart =>
      cases atLineStart with
      | false => exact find_reader c opening.chars
      | true =>
          have hline : c.reader.line = c.line := rfl
          have hindex : c.reader.index = c.index := rfl
          rw [Range.findStartCode, Range.findStart?, hline, hindex]
          by_cases hpassed : c.passed.all Text.isBlank = true
          · have hle : c.index ≤ c.indexAt (c.rest.takeWhile Text.isBlank).length :=
              indexAt_le c (Nat.zero_le _)
            rw [indent_of_blank hpassed, if_pos hle, slice_reader_length]
            simp only [pure_bind, hpassed, Bool.true_and]
            split <;> rfl
          · rw [if_neg (Nat.not_le_of_lt (indent_of_not_blank hpassed))]
            simp [hpassed]

/-- The earliest start is found where the search by characters finds it. -/
theorem firstStartCode_reader (c : Cursor) (ranges : List Range) :
    firstStartCode c.reader ranges =
      pure ((firstRange? c ranges).map fun (n, range) => (c.indexAt n, range)) := by
  induction ranges with
  | nil => rfl
  | cons range ranges ih =>
      rw [firstStartCode, findStartCode_reader, ih, firstRange?, pure_bind, pure_bind]
      cases hstart : range.findStart? c with
      | none => cases firstRange? c ranges <;> rfl
      | some n =>
          cases hlater : firstRange? c ranges with
          | none => rfl
          | some later =>
              obtain ⟨m, later⟩ := later
              have hfirst := lt_of_findStart? hstart
              have hother := lt_of_findStart? (firstRange?_eq_some hlater).1
              have hlt : c.indexAt m < c.indexAt n ↔ m < n := indexAt_lt_iff (by omega) (by omega)
              simp only [Option.map_some, hlt]
              split <;> rfl

end Codes

end SchemaChange.Script
