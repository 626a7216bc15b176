import SchemaChange.Number.Binary64

/-!
# Shortest decimal digits

The fewest decimal digits that read back as a given double-precision number, and of
those the ones nearest to it. For one, two, … digits the two neighbours of the value on
that decimal grid are tested in exact arithmetic; seventeen digits always suffice.
-/
namespace SchemaChange

/-- Which neighbour wins when two are equally near. -/
inductive Tie where
  | up
  | even
  deriving DecidableEq, Repr

/-- The decimal `digits * 10 ^ exponent`, written without trailing zero digits. -/
structure Decimal where
  digits : Nat
  exponent : Int
  deriving DecidableEq, Repr

namespace Decimal

/-- Remove up to `budget` trailing zero digits. -/
def stripZeros : Nat → Decimal → Decimal
  | 0, d => d
  | budget + 1, d =>
      if d.digits ≠ 0 ∧ d.digits % 10 = 0 then
        stripZeros budget ⟨d.digits / 10, d.exponent + 1⟩
      else d

/-- The digit characters of the factor. -/
def text (d : Decimal) : List Char := Nat.toDigits 10 d.digits

/-- The number of digits before the decimal point, counted from the first digit. -/
def pointPosition (d : Decimal) : Int := (d.text.length : Int) + d.exponent

end Decimal

namespace Binary64

/-- An interval of reals around a value, in units of a common denominator. Its ends are
included when `closed` holds. -/
structure Interval where
  low : Nat
  value : Nat
  high : Nat
  denominator : Nat
  closed : Bool

/-- The reals that round to a finite number other than zero. The gap below a power of
two is half as wide as the gap above it. -/
def interval (x : Binary64) : Interval :=
  let m := x.significand
  let below := if m = Nat.pow 2 52 ∧ 1 < x.exponentField then 1 else 2
  let (unit, den) := scaled 1 1 (2 - x.exponent)
  ⟨(4 * m - below) * unit, 4 * m * unit, (4 * m + 2) * unit, den, m % 2 == 0⟩

/-- Whether `candidate * unit / scale` lies in the interval. -/
def Interval.contains (i : Interval) (candidate unit scale : Nat) : Bool :=
  let point := candidate * unit * i.denominator
  let low := i.low * scale
  let high := i.high * scale
  if i.closed then low ≤ point && point ≤ high else low < point && point < high

/-- The exponent of the leading decimal digit of a positive quotient. -/
def leadingPlace (num den : Nat) : Int :=
  let guess : Int := (Nat.toDigits 10 num).length - (Nat.toDigits 10 den).length
  let reached :=
    if 0 ≤ guess then decide (den * Nat.pow 10 guess.toNat ≤ num)
    else decide (den ≤ num * Nat.pow 10 (-guess).toNat)
  if reached then guess else guess - 1

/-- The candidate of the grid `10 ^ place` that lies in the interval and is nearest to
the value. -/
def onGrid? (tie : Tie) (i : Interval) (place : Int) : Option Decimal :=
  let (unit, scale) :=
    if 0 ≤ place then (Nat.pow 10 place.toNat, 1) else (1, Nat.pow 10 (-place).toNat)
  let num := i.value * scale
  let den := i.denominator * unit
  let floor := num / den
  let rest := num % den
  let nearUp :=
    match compare (2 * rest) den with
    | .lt => false
    | .gt => true
    | .eq => match tie with
      | .up => true
      | .even => floor % 2 == 1
  match i.contains floor unit scale, i.contains (floor + 1) unit scale with
  | true, true => some ⟨if nearUp then floor + 1 else floor, place⟩
  | true, false => some ⟨floor, place⟩
  | false, true => some ⟨floor + 1, place⟩
  | false, false => none

/-- The shortest decimal that reads back as the absolute value of a finite number. -/
def shortest (tie : Tie) (x : Binary64) : Decimal :=
  if x.isZero then ⟨0, 0⟩
  else
    let i := x.interval
    let lead := leadingPlace i.value i.denominator
    let found := (List.range 17).findSome? fun (n : Nat) => onGrid? tie i (lead - n)
    match found with
    | some d => d.stripZeros 17
    | none => ⟨0, 0⟩

end Binary64

end SchemaChange
