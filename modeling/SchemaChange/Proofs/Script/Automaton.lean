import Mathlib.Tactic.SplitIfs
import SchemaChange.Proofs.Script.LineScan

/-!
# Reading a script character by character

The ranges of a script, told by an automaton that runs over the whole text without knowing
lines: outside every range the first sort of range whose code begins at a place opens, inside
a range only its own codes count. The scan line by line assigns every character to the same
range.
-/
namespace SchemaChange.Script

/-- What the automaton does at a place: how many characters it takes, the range that they
belong to, and the ranges that are open behind them. -/
structure Move where
  taken : Nat
  range : Option Range
  stack : List Range

/-- The move inside a range. A closing code written twice is skipped as a pair in a range
that is escaped so; a line comment is left before the line break. -/
def moveInside (r : Range) (outer : List Range) (cs : List Char) : Move :=
  match r with
  | .doubled _ closing =>
      if closing.chars.isPrefixOf cs then
        if closing.chars.isPrefixOf (cs.drop closing.length) then
          ⟨closing.length + closing.length, some r, r :: outer⟩
        else ⟨closing.length, some r, outer⟩
      else ⟨1, some r, r :: outer⟩
  | .plain _ closing _ =>
      if closing.chars.isPrefixOf cs then ⟨closing.length, some r, outer⟩
      else ⟨1, some r, r :: outer⟩
  | .lineComment _ _ =>
      if cs.head? = some '\n' then ⟨0, some r, outer⟩ else ⟨1, some r, r :: outer⟩
  | .nesting opening closing =>
      if closing.chars.isPrefixOf cs then ⟨closing.length, some r, outer⟩
      else if opening.chars.isPrefixOf cs then ⟨opening.length, some r, r :: r :: outer⟩
      else ⟨1, some r, r :: outer⟩

/-- The move at a place; of several ranges that begin there, the first of the list opens. -/
def move (ranges : List Range) : List Range → List Char → Move
  | [], cs =>
      match ranges.find? fun r => r.opening.chars.isPrefixOf cs with
      | some r => ⟨r.opening.length, some r, [r]⟩
      | none => ⟨1, none, []⟩
  | r :: outer, cs => moveInside r outer cs

theorem move_decreases (ranges stack : List Range) {cs : List Char} (h : cs ≠ []) :
    2 * (cs.drop (move ranges stack cs).taken).length + (move ranges stack cs).stack.length <
      2 * cs.length + stack.length := by
  have hpos := List.length_pos_iff.2 h
  simp only [List.length_drop]
  cases stack with
  | nil =>
      rw [move]
      split
      · rename_i r hr
        have := r.opening.length_pos
        simp only [List.length_cons, List.length_nil]
        omega
      · simp only [List.length_nil]
        omega
  | cons r outer =>
      rw [move]
      cases r with
      | doubled opening closing =>
          have := closing.length_pos
          simp only [moveInside]
          split_ifs <;> simp only [List.length_cons] <;> omega
      | plain opening closing isComment =>
          simp only [moveInside]
          split_ifs <;> simp only [List.length_cons] <;> omega
      | lineComment opening atLineStart =>
          simp only [moveInside]
          split_ifs <;> simp only [List.length_cons] <;> omega
      | nesting opening closing =>
          have := opening.length_pos
          simp only [moveInside]
          split_ifs <;> simp only [List.length_cons] <;> omega

/-- Every character with the range that it belongs to, from a place on at which some ranges
are open. -/
def tagged (ranges stack : List Range) (cs : List Char) : List (Char × Option Range) :=
  if _h : cs = [] then []
  else
    let m := move ranges stack cs
    (cs.take m.taken).map (·, m.range) ++ tagged ranges m.stack (cs.drop m.taken)
termination_by 2 * cs.length + stack.length
decreasing_by exact move_decreases ranges stack _h

@[simp] theorem tagged_nil (ranges stack : List Range) : tagged ranges stack [] = [] := by
  rw [tagged]
  simp

theorem tagged_of_ne_nil (ranges stack : List Range) {cs : List Char} (h : cs ≠ []) :
    tagged ranges stack cs =
      (cs.take (move ranges stack cs).taken).map (·, (move ranges stack cs).range) ++
        tagged ranges (move ranges stack cs).stack
          (cs.drop (move ranges stack cs).taken) := by
  rw [tagged, dif_neg h]

/-- The automaton changes no character. -/
theorem tagged_chars (ranges stack : List Range) (cs : List Char) :
    (tagged ranges stack cs).map Prod.fst = cs := by
  fun_induction tagged ranges stack cs with
  | case1 => rfl
  | case2 stack cs h m ih =>
      rw [List.map_append, ih, List.map_map]
      simp [Function.comp_def]

/-- While nothing opens or closes, characters are copied. -/
theorem tagged_quiet {ranges stack : List Range} {range : Option Range} {n : Nat}
    {cs : List Char} (hn : n ≤ cs.length)
    (hquiet : ∀ m < n, move ranges stack (cs.drop m) = ⟨1, range, stack⟩) :
    tagged ranges stack cs =
      (cs.take n).map (·, range) ++ tagged ranges stack (cs.drop n) := by
  induction n generalizing cs with
  | zero => simp
  | succ n ih =>
      cases cs with
      | nil => simp at hn
      | cons c cs =>
          have hfirst : move ranges stack (c :: cs) = ⟨1, range, stack⟩ := hquiet 0 (by omega)
          have hothers : ∀ m < n, move ranges stack (cs.drop m) = ⟨1, range, stack⟩ :=
            fun m hm => hquiet (m + 1) (by omega)
          rw [tagged_of_ne_nil ranges stack (List.cons_ne_nil c cs), hfirst]
          simp only [List.take_succ_cons, List.take_zero, List.map_cons, List.map_nil,
            List.drop_succ_cons, List.drop_zero, List.cons_append, List.nil_append]
          rw [ih (by simpa using hn) hothers]

end SchemaChange.Script
