import SchemaChange.Json.Value
import SchemaChange.Text.Digit

/-!
# JSON numbers

The digits of a number are gathered into a 64-bit significand. Digits that no longer fit
are dropped: one before the point moves the scale by a place, one behind it is lost. A
number with neither fraction nor exponent that fits sixty-four bits stays an integer;
negative zero does not.
-/
namespace SchemaChange.Json

/-- A significand with its power of ten. -/
structure Scaled where
  significand : Nat
  exponent : Int
  /-- All digits so far found room. -/
  exact : Bool

namespace Scaled

def fits (s : Scaled) (digit : Nat) : Bool := 10 * s.significand + digit < UInt64.size

/-- Take in a digit before the point. -/
def wholeDigit (s : Scaled) (digit : Nat) : Scaled :=
  if s.exact && s.fits digit then { s with significand := 10 * s.significand + digit }
  else { s with exponent := s.exponent + 1, exact := false }

/-- Take in the digits behind the point up to the first that finds no room. -/
def fractionDigits (s : Scaled) : List Nat → Scaled
  | [] => s
  | digit :: rest =>
      if s.fits digit then
        fractionDigits { s with significand := 10 * s.significand + digit,
                                exponent := s.exponent - 1 } rest
      else { s with exact := false }

end Scaled

/-- Split off the leading ASCII digits, as numbers. -/
def takeDigits (cs : List Char) : List Nat × List Char :=
  let run := cs.takeWhile fun c => (Text.digitValue? c).isSome
  (run.filterMap Text.digitValue?, cs.drop run.length)

/-- The digits behind a point, at least one; without a point there are none. -/
def takeFraction? : List Char → Option (Option (List Nat) × List Char)
  | '.' :: cs =>
      match takeDigits cs with
      | ([], _) => none
      | (digits, rest) => some (some digits, rest)
  | cs => some (none, cs)

/-- The exponent behind its letter, with at least one digit; without a letter there is
none. -/
def takeExponent? : List Char → Option (Option Int × List Char)
  | 'e' :: cs | 'E' :: cs =>
      let (negative, cs) :=
        match cs with
        | '+' :: rest => (false, rest)
        | '-' :: rest => (true, rest)
        | _ => (false, cs)
      match takeDigits cs with
      | ([], _) => none
      | (digits, rest) =>
          let value : Nat := digits.foldl (fun value digit => 10 * value + digit) 0
          some (some (if negative then -(value : Int) else value), rest)
  | cs => some (none, cs)

/-- The number of a sign and its gathered digits. -/
def ofParts? (negative : Bool) (whole : Scaled) (fraction : Option (List Nat))
    (exponent : Option Int) : Option Number :=
  let integer := fraction.isNone && exponent.isNone && whole.exact
  let m := whole.significand
  if integer && !negative then some (.int m)
  else if integer && 0 < m && m ≤ Int64.minValue.toInt.natAbs then some (.int (-(m : Int)))
  else
    let s := whole.fractionDigits (fraction.getD [])
    (Number.ofDecimal? negative s.significand (s.exponent + exponent.getD 0)).map .real

/-- Read a number without its sign. -/
def readUnsigned? (negative : Bool) (cs : List Char) : Option (Number × List Char) := do
  let (digits, rest) := takeDigits cs
  match digits with
  | [] => none
  | 0 :: _ :: _ => none
  | _ =>
      let whole := digits.foldl Scaled.wholeDigit ⟨0, 0, true⟩
      let (fraction, rest) ← takeFraction? rest
      let (exponent, rest) ← takeExponent? rest
      return (← ofParts? negative whole fraction exponent, rest)

/-- Read a number and return what follows it. -/
def readNumber? : List Char → Option (Number × List Char)
  | '-' :: cs => readUnsigned? true cs
  | cs => readUnsigned? false cs

end SchemaChange.Json
