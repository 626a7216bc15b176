import SchemaChange.Calendar.Basic
import SchemaChange.Number.Binary64
import SchemaChange.Text.Search

/-!
# Numbers, dates and times

Which lexemes denote a number, a date or a time. Underscores may stand between digits,
integers fit sixty-four bits with a sign, and only possible dates and times count.
-/
namespace SchemaChange.Toml

/-- The number that digits in a radix of at most sixteen denote. Single underscores may
stand between digits. -/
def number? (radix : Nat) (cs : List Char) : Option Nat :=
  let parts := Text.splitOn '_' cs
  if parts.any List.isEmpty then none
  else
    parts.flatten.foldlM (fun value c => do
      let digit ← Text.hexValue? c
      if digit < radix then some (value * radix + digit) else none) 0

/-- The number of decimal digits without a superfluous zero in front. -/
def decimal? : List Char → Option Nat
  | '0' :: _ :: _ => none
  | cs => number? 10 cs

/-- A lexeme without its sign, and whether the sign is a minus. -/
def splitSign : List Char → Bool × List Char
  | '+' :: cs => (false, cs)
  | '-' :: cs => (true, cs)
  | cs => (false, cs)

/-- The least number above all integers. -/
def limit : Nat := Int64.maxValue.toInt.toNat + 1

def isInteger (cs : List Char) : Bool :=
  match cs with
  | '0' :: 'x' :: digits => (number? 16 digits).any (· < limit)
  | '0' :: 'o' :: digits => (number? 8 digits).any (· < limit)
  | '0' :: 'b' :: digits => (number? 2 digits).any (· < limit)
  | _ =>
      let (negative, digits) := splitSign cs
      (decimal? digits).any (· < if negative then limit + 1 else limit)

/-- The number of decimal digits of a natural number. -/
def digitCount (n : Nat) : Nat := (Nat.toDigits 10 n).length

/-- Whether `significand * 10 ^ exponent` is a finite double-precision number. Numbers that
are far from the limit are not worked out. -/
def isRepresentable (significand : Nat) (exponent : Int) : Bool :=
  let magnitude := (digitCount significand : Int) + exponent
  if significand = 0 ∨ magnitude ≤ 308 then true
  else if 310 < magnitude then false
  else if 0 ≤ exponent then
    (Binary64.ofRatio false (significand * Nat.pow 10 exponent.toNat) 1).isFinite
  else (Binary64.ofRatio false significand (Nat.pow 10 (-exponent).toNat)).isFinite

/-- The exponent behind its letter. -/
def exponent? (cs : List Char) : Option Int :=
  let (negative, digits) := splitSign cs
  (number? 10 digits).map fun n => if negative then -(n : Int) else n

/-- The significand and the exponent of a number without sign that has a fraction, an
exponent or both. -/
def scaled? (cs : List Char) : Option (Nat × Int) := do
  let mantissa := cs.takeWhile fun c => c != 'e' && c != 'E'
  let exponent ← match cs.drop mantissa.length with
    | [] => some none
    | _ :: digits => (exponent? digits).map some
  match Text.splitOnce '.' mantissa with
  | some (whole, fraction) =>
      let whole ← decimal? whole
      let places := (fraction.filter (· != '_')).length
      let digits ← number? 10 fraction
      return (whole * Nat.pow 10 places + digits, exponent.getD 0 - places)
  | none => return (← decimal? mantissa, ← exponent)

/-- A number with a fraction or an exponent, or a special one. A positive number must not
be too large. -/
def isFloat (cs : List Char) : Bool :=
  let (negative, cs) := splitSign cs
  cs == ['i', 'n', 'f'] || cs == ['n', 'a', 'n'] ||
    (scaled? cs).any fun (significand, exponent) =>
      negative || isRepresentable significand exponent

/-- Decimal digits for a number below a bound. -/
def isBelow (bound : Nat) (cs : List Char) : Bool := (Text.readDecimal? cs).any (· < bound)

/-- Year, month and day of the calendar. -/
def isDate : List Char → Bool
  | [a, b, c, d, '-', e, f, '-', g, h] =>
      match Text.readDecimal? [a, b, c, d], Text.readDecimal? [e, f], Text.readDecimal? [g, h] with
      | some year, some month, some day => decide (IsDate year month day)
      | _, _, _ => false
  | _ => false

/-- Hour, minute and second, perhaps with a fraction. -/
def isClock : List Char → Bool
  | a :: b :: ':' :: c :: d :: ':' :: e :: f :: fraction =>
      isBelow 24 [a, b] && isBelow 60 [c, d] && isBelow 61 [e, f] &&
        match fraction with
        | [] => true
        | point :: digits => point == '.' && (Text.readDecimal? digits).isSome
  | _ => false

/-- A distance from universal time. -/
def isOffset : List Char → Bool
  | ['Z'] | ['z'] => true
  | [sign, a, b, ':', c, d] =>
      (sign == '+' || sign == '-') && isBelow 24 [a, b] && isBelow 60 [c, d]
  | _ => false

/-- A date, a time, or both, then perhaps with an offset. -/
def isMoment (cs : List Char) : Bool :=
  isClock cs ||
    (isDate (cs.take 10) &&
      match cs.drop 10 with
      | [] => true
      | mark :: time =>
          let clock := time.takeWhile fun c => c == ':' || c == '.' || c.isDigit
          let offset := time.drop clock.length
          ['T', 't', ' '].contains mark && isClock clock && (offset.isEmpty || isOffset offset))

def isScalar (cs : List Char) : Bool := isInteger cs || isFloat cs || isMoment cs

end SchemaChange.Toml
