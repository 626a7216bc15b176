import SchemaChange.Text.Digit

/-!
# Globally unique identifiers

An identifier is its thirty-two hexadecimal digits. It is read from the plain and the
hyphenated form, the latter also in braces or behind its resource prefix, and written in
either form.
-/
namespace SchemaChange

/-- A 128-bit identifier as hexadecimal digits, most significant first. -/
structure Guid where
  digits : List (Fin 16)
  length_digits : digits.length = 32
  deriving DecidableEq

namespace Guid

/-- A hexadecimal digit as a number below sixteen. -/
def digit? (c : Char) : Option (Fin 16) :=
  match Text.hexValue? c with
  | some n => if h : n < 16 then some ⟨n, h⟩ else none
  | none => none

/-- Thirty-two hexadecimal digits. -/
def ofPlain? (cs : List Char) : Option Guid :=
  match cs.mapM digit? with
  | some digits => if h : digits.length = 32 then some ⟨digits, h⟩ else none
  | none => none

/-- Groups of eight, four, four, four and twelve digits with hyphens between them. -/
def ofHyphenated? (cs : List Char) : Option Guid :=
  let hyphens := [8, 13, 18, 23].map fun n => cs[n]?
  if cs.length = 36 ∧ hyphens.all (· == some '-') then
    ofPlain? (cs.take 8 ++ (cs.drop 9).take 4 ++ (cs.drop 14).take 4 ++
      (cs.drop 19).take 4 ++ cs.drop 24)
  else none

/-- Any of the accepted forms; the number of characters tells them apart. -/
def read? (cs : List Char) : Option Guid :=
  if cs.length = 32 then ofPlain? cs
  else if cs.length = 38 ∧ cs.head? = some '\x7b' ∧ cs.getLast? = some '\x7d' then
    ofHyphenated? (cs.drop 1).dropLast
  else if cs.length = 45 ∧ "urn:uuid:".toList.isPrefixOf cs then ofHyphenated? (cs.drop 9)
  else ofHyphenated? cs

/-- The thirty-two digits in lower case. -/
def plain (g : Guid) : List Char := g.digits.map fun d => Nat.digitChar d.val

/-- The digits in five groups joined by hyphens. -/
def hyphenated (g : Guid) : List Char :=
  let cs := g.plain
  cs.take 8 ++ '-' :: (cs.drop 8).take 4 ++ '-' :: (cs.drop 12).take 4 ++
    '-' :: (cs.drop 16).take 4 ++ '-' :: cs.drop 20

end Guid

end SchemaChange
