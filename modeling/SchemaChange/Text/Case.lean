import SchemaChange.Text.CaseTable

/-!
# Lower case

The full lower-case mapping of a text. Two characters need more than the table: the
dotted capital I becomes two characters, and a capital sigma that ends a word takes its
final form.
-/
namespace SchemaChange.Text

/-- Membership in a list of inclusive ranges. -/
def inRanges (ranges : List (Nat × Nat)) (c : Char) : Bool :=
  ranges.any fun (first, last) => first ≤ c.toNat && c.toNat ≤ last

/-- The lower-case form of one character, out of context. -/
def lowerChar (c : Char) : Char :=
  let n := c.toNat
  if n < 128 then c.toLower
  else
    match lowerRanges.find? fun (first, last, step, _) =>
        first ≤ n && n ≤ last && (n - first) % step == 0 with
    | some (_, _, _, shift) => Char.ofNat ((n : Int) + shift).toNat
    | none => c

/-- Whether the first character that counts is a cased one. -/
def startsCased (cs : List Char) : Bool :=
  match cs.dropWhile (inRanges caseIgnorableRanges) with
  | [] => false
  | c :: _ => inRanges casedRanges c

/-- The lower-case form of a text whose preceding characters, nearest first, are
`passed`. -/
def lowerFrom (passed : List Char) : List Char → List Char
  | [] => []
  | c :: cs =>
      let here :=
        if c.toNat = 0x130 then ['i', Char.ofNat 0x307]
        else if c.toNat = 0x3A3 then
          if startsCased passed && !startsCased cs then [Char.ofNat 0x3C2]
          else [Char.ofNat 0x3C3]
        else [lowerChar c]
      here ++ lowerFrom (c :: passed) cs

/-- The lower-case form of a text. -/
def lower (s : String) : String := String.ofList (lowerFrom [] s.toList)

end SchemaChange.Text
