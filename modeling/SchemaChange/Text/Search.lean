/-!
# Searching and replacing

Occurrences of one text in another, leftmost first, over lists of characters.
-/
namespace SchemaChange.Text

/-- The number of characters before the first occurrence of `pattern`. -/
def find? (pattern : List Char) : List Char → Option Nat
  | [] => if pattern.isEmpty then some 0 else none
  | c :: cs =>
      if pattern.isPrefixOf (c :: cs) then some 0 else (find? pattern cs).map (· + 1)

theorem le_of_find? {pattern cs : List Char} {n : Nat} (h : find? pattern cs = some n) :
    n + pattern.length ≤ cs.length := by
  induction cs generalizing n with
  | nil =>
      rw [find?] at h
      split at h
      · rename_i hp
        cases h
        simp [List.isEmpty_iff.1 hp]
      · cases h
  | cons c cs ih =>
      rw [find?] at h
      split at h
      · rename_i hp
        cases h
        have := (List.isPrefixOf_iff_prefix.1 hp).length_le
        omega
      · obtain ⟨m, hm, rfl⟩ := Option.map_eq_some_iff.1 h
        have := ih hm
        simp only [List.length_cons]
        omega

/-- Write `replacement` for every occurrence of `pattern`, searching on behind each one. The
empty pattern occurs nowhere. -/
def replaceAll (pattern replacement : List Char) (cs : List Char) : List Char :=
  match cs with
  | [] => []
  | c :: rest =>
      if pattern ≠ [] ∧ pattern.isPrefixOf (c :: rest) then
        replacement ++ replaceAll pattern replacement (rest.drop (pattern.length - 1))
      else
        c :: replaceAll pattern replacement rest
termination_by cs.length
decreasing_by all_goals simp only [List.length_cons, List.length_drop]; omega

/-- The parts of a list between the elements equal to `mark`. -/
def splitOn {α : Type} [DecidableEq α] (mark : α) : List α → List (List α)
  | [] => [[]]
  | a :: as =>
      match splitOn mark as with
      | [] => [[a]]
      | part :: parts => if a = mark then [] :: part :: parts else (a :: part) :: parts

theorem splitOn_ne_nil {α : Type} [DecidableEq α] (mark : α) (as : List α) :
    splitOn mark as ≠ [] := by
  induction as with
  | nil => simp [splitOn]
  | cons a as ih =>
      rw [splitOn]
      split
      · simp
      · split <;> simp

/-- The texts before and after the first occurrence of `mark`. -/
def splitOnce {α : Type} [DecidableEq α] (mark : α) : List α → Option (List α × List α)
  | [] => none
  | a :: as =>
      if a = mark then some ([], as)
      else (splitOnce mark as).map fun (before, after) => (a :: before, after)

end SchemaChange.Text
