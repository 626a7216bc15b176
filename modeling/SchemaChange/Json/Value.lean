import SchemaChange.Number.Binary64

/-!
# JSON values

A value keeps the members of an object in the order in which they are written, repeated
keys included, and tells integers from other numbers.
-/
namespace SchemaChange.Json

/-- A number: an integer that fits sixty-four bits, signed or not, or a real number. -/
inductive Number where
  | int (i : Int)
  | real (x : Binary64)
  deriving DecidableEq

inductive Value where
  | null
  | bool (b : Bool)
  | number (n : Number)
  | string (s : String)
  | array (items : List Value)
  | object (members : List (String × Value))
  deriving Inhabited

namespace Number

/-- The double-precision number of a number. -/
def toReal : Number → Binary64
  | int i => Binary64.ofInt i
  | real x => x

/-- The power of ten as a double-precision number. -/
def powerOfTen (n : Nat) : Binary64 := Binary64.ofRatio false (Nat.pow 10 n) 1

/-- The number `significand * 10 ^ exponent` in double precision: the significand and the
power of ten are rounded first, and their product or quotient is rounded again. A scale
below `10 ^ -308` is applied in two divisions. A number that is too large is none. -/
def ofDecimal? (negative : Bool) (significand : Nat) (exponent : Int) : Option Binary64 :=
  let f := Binary64.ofRatio negative significand 1
  if significand = 0 then some f
  else if 308 < exponent then none
  else if 0 ≤ exponent then
    let x := f.mul (powerOfTen exponent.toNat)
    if x.isFinite then some x else none
  else if -308 ≤ exponent then some (f.div (powerOfTen (-exponent).toNat))
  else if -616 ≤ exponent then
    some ((f.div (powerOfTen 308)).div (powerOfTen (-exponent - 308).toNat))
  else some (Binary64.zero negative)

end Number

end SchemaChange.Json
