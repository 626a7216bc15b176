import SchemaChange.Calendar.Basic
import SchemaChange.Text.Blank

/-!
# Reading dates and times

Dates read as year, month and day with hyphens, times as hour, minute and second with
colons and an optional fraction. Blanks may stand before every number and separator. Digits
of a fraction beyond the ninth are dropped. An offset is the letter Z, the letters UTC, or
a sign with two digits of hours and two of minutes.
-/
namespace SchemaChange.Calendar

/-- A reader consumes characters from the front of its input or fails. -/
abbrev Reader := StateT (List Char) Option

/-- Skip blanks. -/
def blanks : Reader Unit := modify Text.trimStart

/-- Consume one given character. -/
def mark (c : Char) : Reader Unit := fun cs =>
  match cs with
  | d :: rest => if d = c then some ((), rest) else none
  | [] => none

/-- Consume up to `most` ASCII digits, at least one. -/
def digits (most : Nat) : Reader (List Char) := fun cs =>
  let run := (cs.take most).takeWhile fun c => (Text.digitValue? c).isSome
  if run.isEmpty then none else some (run, cs.drop run.length)

/-- The number that up to `most` digits behind blanks denote. -/
def number (most : Nat) : Reader Nat := do
  blanks
  Text.readDecimal? (← digits most)

/-- A year: four digits at most, or any number of digits behind a sign. -/
def year : Reader Int := do
  blanks
  let cs ← get
  match cs with
  | '-' :: _ => mark '-'; return -((← Text.readDecimal? (← digits cs.length)) : Int)
  | '+' :: _ => mark '+'; Text.readDecimal? (← digits cs.length)
  | _ => Text.readDecimal? (← digits 4)

/-- A separator behind blanks. -/
def separator (c : Char) : Reader Unit := do blanks; mark c

/-- Year, month and day. -/
def date : Reader Date := do
  let y ← year
  separator '-'
  let m ← number 2
  separator '-'
  let d ← number 2
  Date.ofParts? y m d

/-- Nanoseconds from the digits behind a point, or none. -/
def fraction : Reader Nat := do
  match ← get with
  | '.' :: _ =>
      mark '.'
      let run ← digits 9
      modify fun cs => cs.dropWhile fun c => (Text.digitValue? c).isSome
      return (← Text.readDecimal? run) * Nat.pow 10 (9 - run.length)
  | _ => return 0

/-- Hour, minute, second and fraction on a given day. -/
def clock (d : Date) : Reader DateTime := do
  let hour ← number 2
  separator ':'
  let minute ← number 2
  separator ':'
  let second ← number 2
  let nanosecond ← fraction
  blanks
  DateTime.ofParts? d hour minute second nanosecond

/-- Two ASCII digits. -/
def twoDigits : Reader Nat := fun cs =>
  match cs with
  | a :: b :: rest => do return (10 * (← Text.digitValue? a) + (← Text.digitValue? b), rest)
  | _ => none

/-- The minutes of an offset from universal time. -/
def offset : Reader Int := do
  let cs ← get
  match cs with
  | 'Z' :: rest | 'z' :: rest => set rest; return 0
  | u :: t :: c :: rest =>
      if [u, t, c].map Char.toUpper = ['U', 'T', 'C'] then set rest; return 0
      else
        let sign : Int ← match u with
          | '+' => pure 1
          | '-' | '\u2212' => pure (-1)
          | _ => failure
        set (t :: c :: rest)
        let hours ← twoDigits
        modify fun cs => cs.dropWhile fun c => c == ':' || Text.isBlank c
        let minutes ← twoDigits
        if minutes < 60 then return sign * (60 * hours + minutes : Nat) else failure
  | _ => failure

/-- Run a reader over a whole text; only blanks may be left. -/
def run? {α : Type} (reader : Reader α) (s : String) : Option α :=
  match reader s.toList with
  | some (a, rest) => if rest.all Text.isBlank then some a else none
  | none => none

def readDate? (s : String) : Option Date := run? date s

/-- A date, the letter T, and a time. -/
def readDateTime? (s : String) : Option DateTime :=
  run? (do let d ← date; separator 'T'; clock d) s

/-- A date and a time, with the letter T in either case or a space between them, and an
offset behind. -/
def readOffsetDateTime? (s : String) : Option OffsetDateTime :=
  run? (do
    let d ← date
    match ← get with
    | c :: rest => if c = 'T' ∨ c = 't' ∨ c = ' ' then set rest else failure
    | [] => failure
    let t ← clock d
    OffsetDateTime.ofParts? t (← offset)) s

end SchemaChange.Calendar
