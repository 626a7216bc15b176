import SchemaChange.Calendar.Basic

/-!
# Written dates and times

Fixed-width fields with leading zeros. A year outside 0 to 9999 carries a sign. The
fraction of a second has the fewest of zero, three, six or nine digits that hold it
exactly, or exactly six where a format asks for that.
-/
namespace SchemaChange

/-- The decimal digits of a number, padded with zeros to a width. -/
def padded (width n : Nat) : List Char :=
  let digits := Nat.toDigits 10 n
  List.replicate (width - digits.length) '0' ++ digits

/-- At least four digits, with a sign outside the years 0 to 9999. -/
def yearText (year : Int) : List Char :=
  if 0 ≤ year ∧ year ≤ 9999 then padded 4 year.natAbs
  else (if year < 0 then '-' else '+') :: padded 4 year.natAbs

/-- Hours and minutes of an offset behind its sign. -/
def offsetText (minutes : Int) : List Char :=
  (if minutes < 0 then '-' else '+') ::
    (padded 2 (minutes.natAbs / 60) ++ ':' :: padded 2 (minutes.natAbs % 60))

namespace Date

/-- Year, month and day with hyphens between them. -/
def text (d : Date) : List Char :=
  yearText d.year ++ '-' :: padded 2 d.month ++ '-' :: padded 2 d.day

end Date

namespace DateTime

/-- Hour, minute and second with colons between them. -/
def clockText (t : DateTime) : List Char :=
  padded 2 t.hour ++ ':' :: padded 2 t.minute ++ ':' :: padded 2 t.second

/-- Nothing, or a point and three, six or nine digits. -/
def fractionText (t : DateTime) : List Char :=
  if t.nanosecond = 0 then []
  else if t.nanosecond % 1000000 = 0 then '.' :: padded 3 (t.nanosecond / 1000000)
  else if t.nanosecond % 1000 = 0 then '.' :: padded 6 (t.nanosecond / 1000)
  else '.' :: padded 9 t.nanosecond

/-- A point and six digits; finer parts are cut off. -/
def microsecondText (t : DateTime) : List Char := '.' :: padded 6 (t.nanosecond / 1000)

/-- Date and time of day to the second, with a given character between them. -/
def textWith (between : Char) (t : DateTime) : List Char :=
  t.date.text ++ between :: t.clockText

end DateTime

namespace OffsetDateTime

/-- The written offset in JSON, where the zero offset is a single letter. -/
def zoneText (t : OffsetDateTime) : List Char :=
  if t.offset = 0 then ['Z'] else offsetText t.offset

end OffsetDateTime

end SchemaChange
