import SchemaChange.Number.Shortest

/-!
# Written forms of double-precision numbers

Two forms share the shortest digits. SQL literals are written positionally, however
large or small the number is. JSON numbers keep a fractional digit and turn to an
exponent outside a middle range.
-/
namespace SchemaChange

namespace Decimal

/-- Positional notation; a number without fractional digits has no point. -/
def positional (d : Decimal) : List Char :=
  let digits := d.text
  if 0 ≤ d.exponent then digits ++ List.replicate d.exponent.toNat '0'
  else
    let fractional := (-d.exponent).toNat
    let padded := List.replicate (fractional + 1 - digits.length) '0' ++ digits
    let whole := padded.length - fractional
    padded.take whole ++ '.' :: padded.drop whole

/-- Notation with one digit before the point and a signed exponent. -/
def scientific (d : Decimal) : List Char :=
  let exponent := d.pointPosition - 1
  let sign := if exponent < 0 then '-' else '+'
  let mantissa :=
    match d.text with
    | [] => []
    | [digit] => [digit]
    | digit :: rest => digit :: '.' :: rest
  mantissa ++ 'e' :: sign :: Nat.toDigits 10 exponent.natAbs

end Decimal

namespace Binary64

/-- The sign of a negative number, zero included. -/
def sign (x : Binary64) : List Char := if x.negative then ['-'] else []

/-- The form used in SQL: always positional, a tie between digits going up, with words
for the numbers that are not finite. -/
def toPlain (x : Binary64) : String :=
  if x.isFinite then String.ofList (x.sign ++ (x.shortest .up).positional)
  else if x.isNaN then "NaN"
  else if x.negative then "-inf" else "inf"

/-- The form used in JSON: positional with at least one fractional digit from `10 ^ -5`
up to below `10 ^ 16`, scientific elsewhere; numbers that are not finite become `null`. -/
def toJson (x : Binary64) : String :=
  if !x.isFinite then "null"
  else
    let d := x.shortest .even
    let point := d.pointPosition
    let body :=
      if x.isZero || (-5 < point && point ≤ 16) then
        d.positional ++ (if 0 ≤ d.exponent then ['.', '0'] else [])
      else d.scientific
    String.ofList (x.sign ++ body)

end Binary64

end SchemaChange
