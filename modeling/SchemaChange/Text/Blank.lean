/-!
# Blank characters

The characters of the Unicode property White_Space, and the trimming of texts by
them. Names, switches and batches are all trimmed by this one rule.
-/
namespace SchemaChange.Text

/-- The characters with the Unicode property White_Space. -/
def isBlank (c : Char) : Bool :=
  let n := c.toNat
  (9 ≤ n && n ≤ 13) || n == 0x20 || n == 0x85 || n == 0xA0 || n == 0x1680 ||
    (0x2000 ≤ n && n ≤ 0x200A) || n == 0x2028 || n == 0x2029 || n == 0x202F ||
    n == 0x205F || n == 0x3000

/-- Drop the leading blanks. -/
def trimStart (cs : List Char) : List Char := cs.dropWhile isBlank

/-- Drop the trailing blanks. -/
def trimEnd : List Char → List Char
  | [] => []
  | c :: cs =>
      match trimEnd cs with
      | [] => if isBlank c then [] else [c]
      | d :: ds => c :: d :: ds

/-- Drop the blanks on both sides. -/
def trimmed (cs : List Char) : List Char := trimEnd (trimStart cs)

/-- Drop the blanks on both sides of a text. -/
def trim (s : String) : String := String.ofList (trimmed s.toList)

/-- A text with no character other than blanks. -/
def allBlank (s : String) : Bool := s.toList.all isBlank

@[simp] theorem trimEnd_eq_nil_iff (cs : List Char) :
    trimEnd cs = [] ↔ ∀ c ∈ cs, isBlank c := by
  induction cs with
  | nil => simp [trimEnd]
  | cons c cs ih =>
      rw [trimEnd]
      cases h : trimEnd cs with
      | nil =>
          have hb := ih.1 h
          by_cases hc : isBlank c = true <;> simp_all
      | cons d ds =>
          rw [h] at ih
          simp_all

end SchemaChange.Text
