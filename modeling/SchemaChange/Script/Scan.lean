import SchemaChange.Script.Range
import SchemaChange.Script.Separator

/-!
# Scanning scripts

A script is read line by line. Outside every range the earliest range start and the first
separator are looked for; inside a range only its end. The scan yields every character of
the script once, as text or as part of a separator, so no later step can lose any.
-/
namespace SchemaChange.Script

/-- The ranges and the separator that a script is read with. -/
structure Splitter where
  separator : Separator
  /-- Of two ranges that begin at the same place, the earlier one in the list opens. -/
  ranges : List Range := []
  stripComments : Bool := false
  deriving DecidableEq

/-- What the scan of a script yields. -/
inductive Event where
  /-- Characters of the innermost range that is open at them, or outside every range. -/
  | text (chars : List Char) (range : Option Range)
  /-- The end of a batch, with the text of the separator. -/
  | cut (separator : List Char) (kind : BatchKind)
  deriving DecidableEq

namespace Event

/-- The characters of the script behind an event. -/
def chars : Event → List Char
  | text chars _ => chars
  | cut separator _ => separator

end Event

/-- What the scan remembers from one place to the next. -/
structure ScanState where
  /-- The open ranges, innermost first. -/
  ranges : List Range := []
  blocks : BlockState := {}
  deriving DecidableEq

/-- The earliest range start ahead, and its range. -/
def firstRange? (c : Cursor) : List Range → Option (Nat × Range)
  | [] => none
  | r :: rs =>
      match r.findStart? c, firstRange? c rs with
      | none, later => later
      | some n, none => some (n, r)
      | some n, some (m, later) => if m < n then some (m, later) else some (n, r)

/-- The text outside every range from a place on, given where the next range begins. -/
def plainAt (c : Cursor) (ahead : Nat) : Plain :=
  ⟨c.passed, c.rest.take ahead, c.rest.drop ahead⟩

/-- Scan a line from a place on. -/
def scanLine (sp : Splitter) (st : ScanState) (c : Cursor) : List Event × ScanState :=
  match _hr : st.ranges with
  | r :: outer =>
      match _h : r.findEnd? c.rest with
      | some (.closes n) =>
          let length := n + r.closing.length
          let (es, st) := scanLine sp { st with ranges := outer } (c.advance length)
          (.text (c.rest.take length) (some r) :: es, st)
      | some (.nests n) =>
          let length := n + r.opening.length
          let (es, st) := scanLine sp { st with ranges := r :: r :: outer } (c.advance length)
          (.text (c.rest.take length) (some r) :: es, st)
      | none => ([.text c.rest (some r)], st)
  | [] =>
      if _hc : c.rest = [] then ([], st)
      else
        let next := firstRange? c sp.ranges
        let plain := (next.map (·.1)).getD c.rest.length
        match sp.separator.find st.blocks (plainAt c plain) with
        | (blocks, some (.mark n kept)) =>
            let (es, st) := scanLine sp { st with blocks } (c.advance (n + 1))
            let (before, mark) := ((c.rest.take n), (c.rest.drop n).take 1)
            if kept then (.text (before ++ mark) none :: .cut [] .statement :: es, st)
            else (.text before none :: .cut mark .statement :: es, st)
        | (blocks, some (.wholeLine kind)) => ([.cut c.rest kind], { st with blocks })
        | (blocks, none) =>
            match next with
            | none => ([.text c.rest none], { st with blocks })
            | some (n, r) =>
                let length := n + r.opening.length
                let (es, st) := scanLine sp { ranges := [r], blocks } (c.advance length)
                (.text (c.rest.take n) none ::
                  .text ((c.rest.drop n).take r.opening.length) (some r) :: es, st)
termination_by 2 * c.rest.length + st.ranges.length
decreasing_by
  · simp only [Cursor.advance_rest, List.length_drop, _hr, List.length_cons]
    omega
  · have := List.length_pos_iff.2 (Range.ne_nil_of_nests _h)
    have := r.opening.length_pos
    simp only [Cursor.advance_rest, List.length_drop, _hr, List.length_cons]
    omega
  · have := List.length_pos_iff.2 _hc
    simp only [Cursor.advance_rest, List.length_drop]
    omega
  · have := List.length_pos_iff.2 _hc
    have := r.opening.length_pos
    simp only [Cursor.advance_rest, List.length_drop, _hr, List.length_cons, List.length_nil]
    omega

/-- Scan the lines behind the first one; every line break belongs to the range that is
open at it. -/
def scanLines (sp : Splitter) (st : ScanState) : List (List Char) → List Event
  | [] => []
  | line :: lines =>
      let (es, after) := scanLine sp st (.ofLine line)
      .text ['\n'] st.ranges.head? :: es ++ scanLines sp after lines

/-- Scan a whole script. -/
def scan (sp : Splitter) (script : List Char) : List Event :=
  match Text.splitOn '\n' script with
  | [] => []
  | line :: lines =>
      let (es, st) := scanLine sp {} (.ofLine line)
      es ++ scanLines sp st lines

end SchemaChange.Script
