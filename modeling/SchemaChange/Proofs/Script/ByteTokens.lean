import SchemaChange.Proofs.Script.ByteReader

/-!
# Finding separators by byte positions

The searches for separators in the text outside every range, with every slice checked. Each has a
result: the separator that the search by characters reports, with its position and its length.
-/
namespace SchemaChange.Script

/-- A separator that has been found. -/
structure SpecialToken where
  index : Nat
  length : Nat
  kind : BatchKind
  /-- The separator belongs to the batch that it ends. -/
  keepInBatch : Bool

namespace LineReader

/-- The text before a position ends with the line or before a comment. -/
def endsOrComments (r : LineReader) (stop : Nat) : Checked Bool := do
  if stop = r.length then return true
  else
    let behind ← r.slice stop r.length
    return ['-', '-'].isPrefixOf behind

/-- A GO line up to a position. -/
def findGo (r : LineReader) (stop : Nat) : Checked (Option SpecialToken) := do
  if r.index = 0 then
    if ← r.endsOrComments stop then
      let text ← r.slice 0 stop
      return (goCount? text).map fun count => ⟨0, r.length, .separator count, false⟩
    else return none
  else return none

def findSemicolon (r : LineReader) (stop : Nat) : Checked (Option SpecialToken) := do
  let text ← r.slice r.index stop
  return (text.findIdx? (· == ';')).map fun n =>
    ⟨r.index + Text.byteLength (text.take n), 1, .statement, false⟩

/-- The word at the position, in upper case, and where it ends. -/
def takeWord (r : LineReader) : Checked (String × Nat) := do
  let rest ← r.remaining
  let stop := match rest.findIdx? (!isWordChar ·) with
    | some n => r.index + Text.byteLength (rest.take n)
    | none => r.length
  let word ← r.slice r.index stop
  return (String.ofList (word.map Char.toUpper), stop)

/-- The word behind blanks, and where it ends. -/
def nextWord (r : LineReader) : Checked (Option (String × Nat)) := do
  let rest ← r.remaining
  match Text.trimStart rest with
  | c :: more =>
      if isWordStart c then
        let found ← takeWord { r with index := r.length - Text.byteLength (c :: more) }
        return some found
      else return none
  | [] => return none

/-- Read the word at the position, and say where reading goes on. -/
def readWord (s : BlockState) (previous : Option Char) (r : LineReader) :
    Checked (BlockState × Nat) := do
  let (word, after) ← r.takeWord
  if previous = some '.' then return (s, after)
  else
    let following ← nextWord { r with index := after }
    let (next, joined) := s.readWord word (following.map (·.1))
    return (next, if joined then (following.map (·.2)).getD after else after)

/-- Read on to the next place at which a word may begin; the search is over at a semicolon that
ends a statement and at the end of the line. -/
def followStep : BlockState × Option Char × LineReader →
    Checked ((BlockState × Option Nat) ⊕ (BlockState × Option Char × LineReader))
  | (s, previous, r) => do
      if r.index < r.length then
        match ← r.remaining with
        | [] => return .inl (s, none)
        | c :: _ =>
            if c = ';' ∧ s.isClosed then return .inl (s, some r.index)
            else if isWordStart c && !previous.any isWordChar then
              let (next, after) ← r.readWord s previous
              let passed ← r.slice 0 after
              return .inr (next, passed.getLast?, { r with index := after })
            else return .inr (s, some c, { r with index := r.index + c.utf8Size })
      else return .inl (s, none)

/-- Follow the words up to a semicolon that ends a statement, and say where it stands. -/
def followWords (s : BlockState) (previous : Option Char) (r : LineReader) :
    Checked (BlockState × Option Nat) := Checked.loop followStep (s, previous, r)

/-- The character before the position. -/
def previous (r : LineReader) : Checked (Option Char) := do
  if 0 < r.index then
    let passed ← r.slice 0 r.index
    return passed.getLast?
  else return none

/-- The first separator outside procedural blocks up to a position. -/
def findOutsideBlocks (s : BlockState) (r : LineReader) (stop : Nat) :
    Checked (BlockState × Option SpecialToken) := do
  if r.index = 0 ∧ stop = r.length ∧ Text.trimmed r.line = ['/'] then
    return ({}, some ⟨0, r.length, .statement, false⟩)
  else
    let segment ← r.slice 0 stop
    match ← followWords s (← r.previous) ⟨segment, r.index⟩ with
    | (s, some index) => return ({}, some ⟨index, 1, .statement, s.containsBlock⟩)
    | (s, none) => return (s, none)

end LineReader

/-- The first separator between the position and another one. -/
def Separator.findToken (separator : Separator) (s : BlockState) (r : LineReader) (stop : Nat) :
    Checked (BlockState × Option SpecialToken) :=
  match separator with
  | go => do return (s, ← r.findGo stop)
  | semicolon => do return (s, ← r.findSemicolon stop)
  | blocks => r.findOutsideBlocks s stop

/-- The separator where the search by characters finds it. -/
def Cursor.token (c : Cursor) : Token → SpecialToken
  | .mark n kept => ⟨c.indexAt n, 1, .statement, kept⟩
  | .wholeLine kind => ⟨0, c.reader.length, kind, false⟩

section Words

variable {c : Cursor}

theorem findIdx?_not_isWordChar (cs : List Char) :
    (cs.findIdx? (!isWordChar ·)).getD cs.length = (cs.takeWhile isWordChar).length := by
  induction cs with
  | nil => rfl
  | cons c cs ih =>
      rw [List.findIdx?_cons]
      by_cases hc : isWordChar c = true
      · rw [List.takeWhile_cons_of_pos hc, List.length_cons, List.length_cons, ← ih]
        cases cs.findIdx? (!isWordChar ·) <;> simp [hc]
      · rw [List.takeWhile_cons_of_neg hc]
        simp [hc]

theorem takeWord_reader (c : Cursor) : c.reader.takeWord =
    pure ((takeWord c.rest).1, c.indexAt (takeWord c.rest).2) := by
  have hword : c.rest.take (c.rest.takeWhile isWordChar).length = c.rest.takeWhile isWordChar :=
    (List.prefix_iff_eq_take.1 (List.takeWhile_prefix _)).symm
  have hslice := slice_index_reader c (c.rest.takeWhile isWordChar).length
  rw [hword] at hslice
  have hstop : (match c.rest.findIdx? (!isWordChar ·) with
      | some n => c.reader.index + Text.byteLength (c.rest.take n)
      | none => c.reader.length) = c.indexAt (c.rest.takeWhile isWordChar).length := by
    rw [← findIdx?_not_isWordChar]
    cases c.rest.findIdx? (!isWordChar ·) with
    | none => exact (indexAt_length c).symm
    | some n => rfl
  rw [LineReader.takeWord, remaining_reader]
  simp only [pure_bind]
  rw [hstop, hslice, pure_bind]
  rfl

theorem nextWord_reader (c : Cursor) : c.reader.nextWord =
    pure ((nextWord? c.rest).map fun (word, n) => (word, c.indexAt n)) := by
  have hindent := length_sub_trimStart c
  rw [LineReader.nextWord, remaining_reader, nextWord?, Text.drop_indent]
  simp only [pure_bind]
  cases hrest : Text.trimStart c.rest with
  | nil => rfl
  | cons d more =>
      have hbehind : (c.advance (c.rest.takeWhile Text.isBlank).length).rest = d :: more := by
        rw [Cursor.advance_rest, Text.drop_indent, hrest]
      dsimp only
      split
      · rw [← hrest, hindent, ← reader_advance, takeWord_reader, hbehind]
        rw [hrest, indexAt_advance, pure_bind]
        rfl
      · rfl

variable {s next : BlockState} {previous : Option Char} {joined : Bool}

/-- Reading goes on behind the word, or behind the next one if that belongs to it. -/
theorem readWord_reader {word : String} {length taken : Nat} {following : Option (String × Nat)}
    (hword : takeWord c.rest = (word, length))
    (hfollowing : nextWord? (c.rest.drop length) = following)
    (hread : (if previous = some '.' then (s, false)
      else s.readWord word (following.map (·.1))) = (next, joined))
    (htaken : taken = if joined then length + (following.map (·.2)).getD 0 else length) :
    c.reader.readWord s previous = pure (next, c.indexAt taken) := by
  rw [LineReader.readWord, takeWord_reader, hword]
  simp only [pure_bind]
  by_cases hpoint : previous = some '.'
  · rw [if_pos hpoint] at hread ⊢
    cases hread
    rw [htaken]
    rfl
  · rw [if_neg hpoint] at hread ⊢
    have hbehind := nextWord_reader (c.advance length)
    rw [Cursor.advance_rest, hfollowing] at hbehind
    rw [← reader_advance, hbehind, htaken]
    simp only [pure_bind, Option.map_map, Function.comp_def]
    rw [hread]
    cases joined with
    | false => rfl
    | true =>
        cases following with
        | none => rfl
        | some found => simp [indexAt_advance]

/-- The loop over words ends where the search by characters does. -/
theorem followWords_reader (s : BlockState) (previous : Option Char) (c : Cursor) :
    c.reader.followWords s previous =
      pure ((followWords s previous c.rest).1,
        (followWords s previous c.rest).2.map c.indexAt) := by
  have hindex : ∀ c : Cursor, c.reader.index = c.index := fun _ => rfl
  generalize hcs : c.rest = cs
  fun_induction followWords s previous cs generalizing c with
  | case1 s previous =>
      have hend : ¬ c.index < c.reader.length := by
        rw [← indexAt_length, hcs]
        exact Nat.lt_irrefl _
      refine Checked.loop_done ?_
      rw [LineReader.followStep, hindex, if_neg hend]
      rfl
  | case2 s previous d rest hsemi =>
      refine Checked.loop_done ?_
      rw [LineReader.followStep, hindex, if_pos (index_lt_of_rest hcs), remaining_reader, hcs]
      simp only [pure_bind]
      rw [if_pos hsemi]
      rfl
  | case3 s previous d rest hsemi hstart word length hword following next joined hread taken
      s₁ found hrest ih =>
      have htaken : 1 ≤ taken := by
        have hpos := takeWord_length_pos (Bool.and_eq_true_iff.1 hstart).1 rest
        rw [hword] at hpos
        simp only [taken]
        split <;> omega
      have hbehind : (c.advance taken).rest = rest.drop (taken - 1) := by
        obtain ⟨k, hk⟩ : ∃ k, taken = k + 1 := ⟨taken - 1, by omega⟩
        rw [Cursor.advance_rest, hcs, hk, List.drop_succ_cons, Nat.add_sub_cancel]
      have hpassed : (c.passed.reverse ++ (d :: rest).take taken).getLast? =
          ((d :: rest).take taken).getLast? := by
        obtain ⟨k, hk⟩ : ∃ k, taken = k + 1 := ⟨taken - 1, by omega⟩
        rw [hk, List.take_succ_cons, List.getLast?_append, List.getLast?_cons, Option.some_or]
      have hword' : c.reader.readWord s previous = pure (next, c.indexAt taken) :=
        readWord_reader (by rw [hcs, hword]) (by rw [hcs]) hread rfl
      have hstep : LineReader.followStep (s, previous, c.reader) =
          pure (.inr (next, ((d :: rest).take taken).getLast?, (c.advance taken).reader)) := by
        rw [LineReader.followStep, hindex, if_pos (index_lt_of_rest hcs), remaining_reader, hcs]
        simp only [pure_bind]
        rw [if_neg hsemi, if_pos hstart, hword']
        simp only [pure_bind]
        rw [slice_zero_reader, hcs, pure_bind, hpassed, reader_advance]
      have hlater := ih (c.advance taken) hbehind
      rw [LineReader.followWords] at hlater
      rw [LineReader.followWords, Checked.loop_next hstep, hlater, hrest, map_indexAt_advance]
  | case4 s previous d rest hsemi hstart s₁ found hrest ih =>
      have hone : c.index + d.utf8Size = c.indexAt 1 := by
        rw [Cursor.indexAt, hcs]
        rfl
      have hstep : LineReader.followStep (s, previous, c.reader) =
          pure (.inr (s, some d, (c.advance 1).reader)) := by
        rw [LineReader.followStep, hindex, if_pos (index_lt_of_rest hcs), remaining_reader, hcs]
        simp only [pure_bind]
        rw [if_neg hsemi, if_neg hstart, hone, reader_advance]
      have hlater := ih (c.advance 1) (by rw [Cursor.advance_rest, hcs]; rfl)
      rw [LineReader.followWords] at hlater
      rw [LineReader.followWords, Checked.loop_next hstep, hlater, hrest, map_indexAt_advance]

end Words

section Tokens

variable {c : Cursor} {m n : Nat}

/-- The line up to a place, read as a line of its own. -/
def Cursor.upTo (c : Cursor) (n : Nat) : Cursor := ⟨c.passed, c.rest.take n⟩

theorem indexAt_upTo (hmn : m ≤ n) : (c.upTo n).indexAt m = c.indexAt m := by
  simp [Cursor.indexAt, Cursor.upTo, Cursor.index, List.take_take, Nat.min_eq_left hmn]

theorem index_eq_zero_iff (c : Cursor) : c.index = 0 ↔ c.passed = [] :=
  Text.byteLength_eq_zero_iff c.passed

theorem indexAt_eq_length_iff (hn : n ≤ c.rest.length) :
    c.indexAt n = c.reader.length ↔ c.rest.drop n = [] := by
  have hlt : c.indexAt n < c.indexAt c.rest.length ↔ n < c.rest.length :=
    indexAt_lt_iff hn (Nat.le_refl _)
  have hle := indexAt_le c hn
  rw [← indexAt_length, List.drop_eq_nil_iff]
  omega

theorem endsOrComments_reader (hn : n ≤ c.rest.length) :
    c.reader.endsOrComments (c.indexAt n) =
      pure ((c.rest.drop n).isEmpty || ['-', '-'].isPrefixOf (c.rest.drop n)) := by
  rw [LineReader.endsOrComments]
  by_cases hend : c.rest.drop n = []
  · rw [if_pos ((indexAt_eq_length_iff hn).2 hend), hend]
    rfl
  · rw [if_neg (mt (indexAt_eq_length_iff hn).1 hend), slice_reader_length]
    simp [hend]

theorem findGo_reader (hn : n ≤ c.rest.length) :
    c.reader.findGo (c.indexAt n) = pure ((findGo? (plainAt c n)).map c.token) := by
  have hindex : c.reader.index = c.index := rfl
  rw [LineReader.findGo, hindex, endsOrComments_reader hn, slice_zero_reader, findGo?]
  by_cases hpassed : c.passed = []
  · rw [if_pos ((index_eq_zero_iff c).2 hpassed)]
    simp only [plainAt, hpassed, pure_bind, List.reverse_nil,
      List.nil_append, List.isEmpty_nil, Bool.true_and]
    split
    · cases goCount? (c.rest.take n) <;> rfl
    · rfl
  · rw [if_neg (mt (index_eq_zero_iff c).1 hpassed)]
    simp [plainAt, hpassed]

theorem findSemicolon_reader (c : Cursor) (n : Nat) :
    c.reader.findSemicolon (c.indexAt n) = pure ((findSemicolon? (plainAt c n)).map c.token) := by
  rw [LineReader.findSemicolon, slice_index_reader, findSemicolon?]
  simp only [plainAt, pure_bind]
  cases hsemi : (c.rest.take n).findIdx? (· == ';') with
  | none => rfl
  | some m =>
      obtain ⟨hm, -⟩ := List.findIdx?_eq_some_iff_getElem.1 hsemi
      rw [List.length_take] at hm
      have htake : (c.rest.take n).take m = c.rest.take m := by
        rw [List.take_take, Nat.min_eq_left (by omega)]
      simp only [Option.map_some, htake]
      rfl

theorem previous_reader (c : Cursor) : c.reader.previous = pure c.passed.head? := by
  have hindex : c.reader.index = c.index := rfl
  rw [LineReader.previous, hindex]
  by_cases hpassed : c.passed = []
  · rw [if_neg (Nat.not_lt_of_le (Nat.le_of_eq ((index_eq_zero_iff c).2 hpassed))), hpassed]
    rfl
  · have hslice := slice_zero_reader c 0
    rw [indexAt_zero, List.take_zero, List.append_nil] at hslice
    rw [if_pos (Nat.pos_of_ne_zero (mt (index_eq_zero_iff c).1 hpassed)), hslice]
    simp

/-- A slash stands alone on a line that is outside every range as a whole. -/
theorem slashLine_iff (hn : n ≤ c.rest.length) :
    (c.reader.index = 0 ∧ c.indexAt n = c.reader.length ∧ Text.trimmed c.reader.line = ['/']) ↔
      (c.passed.isEmpty && (c.rest.drop n).isEmpty && Text.trimmed (c.rest.take n) == ['/']) =
        true := by
  have hindex : c.reader.index = 0 ↔ c.passed = [] := index_eq_zero_iff c
  rw [hindex, indexAt_eq_length_iff hn]
  simp only [Bool.and_eq_true, List.isEmpty_iff, beq_iff_eq, and_assoc]
  refine and_congr_right fun hpassed => and_congr_right fun hafter => ?_
  have hall : c.rest.take n = c.reader.line := by
    rw [← List.append_nil (c.rest.take n), ← hafter, List.take_append_drop]
    simp [Cursor.reader, Cursor.line, hpassed]
  rw [hall]

theorem findOutsideBlocks_reader (s : BlockState) (hn : n ≤ c.rest.length) :
    c.reader.findOutsideBlocks s (c.indexAt n) =
      pure ((findOutsideBlocks s (plainAt c n)).1,
        (findOutsideBlocks s (plainAt c n)).2.map c.token) := by
  rw [LineReader.findOutsideBlocks, findOutsideBlocks, plainAt]
  by_cases hline : (c.passed.isEmpty && (c.rest.drop n).isEmpty &&
      Text.trimmed (c.rest.take n) == ['/']) = true
  · rw [if_pos ((slashLine_iff hn).2 hline), if_pos hline]
    rfl
  · rw [if_neg (mt (slashLine_iff hn).1 hline), if_neg hline, slice_zero_reader, previous_reader]
    have hfollowing : LineReader.followWords s c.passed.head?
        ⟨c.passed.reverse ++ c.rest.take n, c.reader.index⟩ = _ :=
      followWords_reader s c.passed.head? (c.upTo n)
    simp only [pure_bind]
    rw [hfollowing, pure_bind]
    have hrest : (c.upTo n).rest = c.rest.take n := rfl
    rw [hrest]
    cases hfollow : followWords s c.passed.head? (c.rest.take n) with
    | mk s' found =>
        cases found with
        | none => rfl
        | some m =>
            obtain ⟨hlt, -⟩ := List.getElem?_eq_some_iff.1 (followWords_eq_some hfollow).1
            rw [List.length_take] at hlt
            simp only [Option.map_some]
            rw [indexAt_upTo (by omega)]
            rfl

/-- A separator is found where the search by characters finds it. -/
theorem findToken_reader (separator : Separator) (s : BlockState) (hn : n ≤ c.rest.length) :
    separator.findToken s c.reader (c.indexAt n) =
      pure ((separator.find s (plainAt c n)).1,
        (separator.find s (plainAt c n)).2.map c.token) := by
  cases separator with
  | go => simp [Separator.findToken, Separator.find, findGo_reader hn]
  | semicolon => simp [Separator.findToken, Separator.find, findSemicolon_reader]
  | blocks => exact findOutsideBlocks_reader s hn

end Tokens

end SchemaChange.Script
