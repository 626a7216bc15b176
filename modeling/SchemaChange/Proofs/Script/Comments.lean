import Mathlib.Data.List.Forall2
import SchemaChange.Proofs.Script.Division
import SchemaChange.Proofs.Script.RangeScan

/-!
# Stripping comments

The characters of a script are told apart by the automaton of the ranges, line by line and
for ranges of every sort. With comments or without them a run cuts the script at the same
places, and a piece without comments lacks the characters of the comments and no others.
-/
namespace SchemaChange.Script

/-! ## The reading of a script -/

/-- What a character of a script belongs to. -/
inductive Mark where
  | separator
  /-- A range, or the text outside every range. -/
  | text (range : Option Range)

/-- The range may begin at a place of a line. -/
def Range.begins (r : Range) (c : Cursor) : Bool :=
  !r.isAtLineStart || (c.passed.all Text.isBlank && c.rest.head?.any (!Text.isBlank ·))

/-- The characters of a line from a place on, from some open ranges to the ranges that are
open behind it. Outside every range a separator is passed over; elsewhere the automaton
moves. A range without a closing code ends with the line. -/
inductive LineMarks (ranges : List Range) :
    List Range → Cursor → List (Char × Mark) → List Range → Prop
  | ends {stack c} (hrest : c.rest = []) (hlasting : ∀ r ∈ stack.head?, r.closing ≠ []) :
      LineMarks ranges stack c [] stack
  | leaves {r outer c marks left} (hrest : c.rest = []) (hclosing : r.closing = [])
      (others : LineMarks ranges outer c marks left) : LineMarks ranges (r :: outer) c marks left
  | moves {stack next c n range marks left} (hrest : c.rest ≠ [])
      (hmove : move (ranges.filter (·.begins c)) stack c.rest = ⟨n, range, next⟩)
      (others : LineMarks ranges next (c.advance n) marks left) :
      LineMarks ranges stack c ((c.rest.take n).map (·, .text range) ++ marks) left
  | separates {c n marks left} (others : LineMarks ranges [] (c.advance n) marks left) :
      LineMarks ranges [] c ((c.rest.take n).map (·, .separator) ++ marks) left

/-- The characters of the lines of a script; a line break belongs to the range that is open
at it. -/
inductive ScriptMarks (ranges : List Range) :
    List Range → List (List Char) → List (Char × Mark) → Prop
  | last {stack line marks left} (h : LineMarks ranges stack (.ofLine line) marks left) :
      ScriptMarks ranges stack [line] marks
  | line {stack line lines marks others left}
      (h : LineMarks ranges stack (.ofLine line) marks left)
      (hlines : ScriptMarks ranges left lines others) :
      ScriptMarks ranges stack (line :: lines) (marks ++ ('\n', .text left.head?) :: others)

def Event.marks : Event → List (Char × Mark)
  | text chars range => chars.map (·, .text range)
  | cut separator _ => separator.map (·, .separator)

section Moves

variable {ranges stack outer next left : List Range} {c : Cursor} {marks : List (Char × Mark)}

theorem advance_advance (c : Cursor) (n k : Nat) :
    (c.advance n).advance k = c.advance (n + k) := by
  simp [Cursor.advance, List.take_add]

/-- While nothing opens or closes, characters are copied. -/
theorem LineMarks.quiet {range : Option Range} {n : Nat} (hn : n ≤ c.rest.length)
    (hquiet : ∀ m < n, move (ranges.filter (·.begins (c.advance m))) stack (c.rest.drop m) =
      ⟨1, range, stack⟩)
    (others : LineMarks ranges stack (c.advance n) marks left) :
    LineMarks ranges stack c ((c.rest.take n).map (·, .text range) ++ marks) left := by
  induction n generalizing c with
  | zero => simpa [Cursor.advance] using others
  | succ n ih =>
      have hne : c.rest ≠ [] := List.length_pos_iff.1 (by omega)
      have hbehind : n ≤ (c.advance 1).rest.length := by
        rw [Cursor.advance_rest, List.length_drop]
        omega
      have hothers := ih hbehind
        (fun m hm => by
          rw [advance_advance, Cursor.advance_rest, List.drop_drop, Nat.add_comm 1 m]
          exact hquiet (m + 1) (by omega))
        (by rwa [advance_advance, Nat.add_comm 1 n])
      rw [Nat.add_comm n 1, List.take_add, List.map_append, List.append_assoc]
      exact .moves hne (hquiet 0 (by omega)) hothers

/-- The characters that are taken inside a range belong to it. -/
theorem Takes.lineMarks {r : Range} {n : Nat} (h : Takes r outer c.rest n next)
    (others : LineMarks ranges next (c.advance n) marks left) :
    LineMarks ranges (r :: outer) c ((c.rest.take n).map (·, .text (some r)) ++ marks) left := by
  generalize hcs : c.rest = cs at h
  induction h generalizing c with
  | nothing cs => simpa [Cursor.advance] using others
  | last hne hmove =>
      subst hcs
      exact .moves hne hmove others
  | more hne hmove more ih =>
      subst hcs
      rw [List.take_add, List.map_append, List.append_assoc]
      exact .moves hne hmove (ih (by rwa [advance_advance]) rfl)

end Moves

section Starts

variable {r : Range} {c : Cursor} {m : Nat}

theorem findStart?_of_not_isAtLineStart (h : r.isAtLineStart = false) (c : Cursor) :
    r.findStart? c = Text.find? r.opening.chars c.rest := by
  cases r with
  | lineComment opening atLineStart =>
      cases atLineStart with
      | false => rfl
      | true => cases h
  | doubled _ _ | plain _ _ _ | nesting _ _ => rfl

/-- The indent of a line is told by the first character that is not blank. -/
theorem length_indent {cs : List Char} (hblank : (cs.take m).all Text.isBlank)
    (hstop : (cs.drop m).head?.any (!Text.isBlank ·)) :
    (cs.takeWhile Text.isBlank).length = m := by
  cases hdrop : cs.drop m with
  | nil => simp [hdrop] at hstop
  | cons c rest =>
      have hc : Text.isBlank c = false := by simpa [hdrop] using hstop
      have hlength := congrArg List.length hdrop
      have hcs : cs = cs.take m ++ c :: rest := by rw [← hdrop, List.take_append_drop]
      rw [hcs, List.takeWhile_append_of_pos (by simpa using hblank), List.takeWhile_cons_of_neg
        (by simp [hc]), List.append_nil, List.length_take]
      simp only [List.length_drop, List.length_cons] at hlength
      omega

theorem indent_stops (cs : List Char)
    (h : cs.drop (cs.takeWhile Text.isBlank).length ≠ []) :
    (cs.take (cs.takeWhile Text.isBlank).length).all Text.isBlank ∧
      (cs.drop (cs.takeWhile Text.isBlank).length).head?.any (!Text.isBlank ·) := by
  constructor
  · rw [← List.prefix_iff_eq_take.1 (List.takeWhile_prefix _)]
    exact List.all_takeWhile
  · rw [Text.drop_indent] at h ⊢
    have hstop := List.head?_dropWhile_not Text.isBlank cs
    rw [Text.trimStart] at h ⊢
    cases hhead : (cs.dropWhile Text.isBlank).head? with
    | none => exact absurd (List.head?_eq_none_iff.1 hhead) h
    | some c => simpa [hhead] using hstop

/-- A range that begins with its code at a place is found there or earlier. -/
theorem exists_findStart? (hbegins : r.begins (c.advance m))
    (hcode : r.opening.chars <+: c.rest.drop m) : ∃ k ≤ m, r.findStart? c = some k := by
  cases hstart : r.isAtLineStart with
  | false =>
      rw [findStart?_of_not_isAtLineStart hstart]
      cases hfind : Text.find? r.opening.chars c.rest with
      | none => exact absurd hcode (Text.find?_eq_none hfind m)
      | some k => exact ⟨k, Nat.le_of_not_lt fun h => (Text.find?_eq_some hfind).2 m h hcode, rfl⟩
  | true =>
      cases r with
      | doubled _ _ | plain _ _ _ | nesting _ _ => cases hstart
      | lineComment opening atLineStart =>
          cases hstart
          simp only [Range.begins, Range.isAtLineStart, Cursor.advance, Bool.not_true,
            Bool.false_or, Bool.and_eq_true, List.all_append, List.all_reverse] at hbegins
          obtain ⟨⟨htaken, hpassed⟩, hstop⟩ := hbegins
          have hindent := length_indent htaken hstop
          refine ⟨m, Nat.le_refl m, ?_⟩
          simp only [Range.findStart?, hindent, hpassed, Bool.true_and]
          exact if_pos (List.isPrefixOf_iff_prefix.2 hcode)

/-- A range may begin where it is found. -/
theorem begins_of_findStart? (h : r.findStart? c = some m) : r.begins (c.advance m) := by
  cases hstart : r.isAtLineStart with
  | false => simp [Range.begins, hstart]
  | true =>
      cases r with
      | doubled _ _ | plain _ _ _ | nesting _ _ => cases hstart
      | lineComment opening atLineStart =>
          cases hstart
          simp only [Range.findStart?, Option.ite_none_right_eq_some, Bool.and_eq_true,
            Option.some.injEq] at h
          obtain ⟨⟨hpassed, hcode⟩, rfl⟩ := h
          obtain ⟨htaken, hstop⟩ := indent_stops (c.rest) fun hnil => by
            rw [hnil] at hcode
            exact opening.ne_nil (List.prefix_nil.1 (List.isPrefixOf_iff_prefix.1 hcode))
          simp only [Range.begins, Cursor.advance, List.all_append, List.all_reverse, htaken,
            hpassed, hstop, Bool.and_self, Bool.or_true]

end Starts

section Line

variable {sp : Splitter} {c : Cursor}

/-- The automaton copies the text in which the separator is looked for. -/
theorem move_before {m : Nat} (hm : m < plainLength sp c) :
    move (sp.ranges.filter (·.begins (c.advance m))) [] (c.rest.drop m) = ⟨1, none, []⟩ := by
  have hnone : (sp.ranges.filter (·.begins (c.advance m))).find?
      (fun r => r.opening.chars.isPrefixOf (c.rest.drop m)) = none := by
    refine List.find?_eq_none.2 fun r hr hcode => ?_
    obtain ⟨hmem, hbegins⟩ := List.mem_filter.1 hr
    obtain ⟨k, hk, hfind⟩ := exists_findStart? hbegins (List.isPrefixOf_iff_prefix.1 hcode)
    have := plainLength_le hmem hfind
    omega
  rw [move, hnone]

/-- The automaton opens the range that the line scan opens. -/
theorem move_firstRange {n : Nat} {r : Range} (hr : firstRange? c sp.ranges = some (n, r)) :
    move (sp.ranges.filter (·.begins (c.advance n))) [] (c.rest.drop n) =
      ⟨r.opening.length, some r, [r]⟩ := by
  obtain ⟨hstart, before, after, hsplit, hbefore⟩ := firstRange?_eq_some hr
  have hbegins := begins_of_findStart? hstart
  have hcode := opening_occurs hstart
  have hfind : (sp.ranges.filter (·.begins (c.advance n))).find?
      (fun r => r.opening.chars.isPrefixOf (c.rest.drop n)) = some r := by
    rw [List.find?_filter]
    refine List.find?_eq_some_iff_append.2 ⟨?_, before, after, hsplit, fun r' hr' => ?_⟩
    · simpa [hbegins] using hcode
    · rw [Bool.not_eq_true', Bool.eq_false_iff]
      intro hboth
      obtain ⟨hbegins', hcode'⟩ : r'.begins (c.advance n) ∧
          r'.opening.chars <+: c.rest.drop n := by simpa using hboth
      obtain ⟨k, hk, hfind⟩ := exists_findStart? hbegins' hcode'
      have := hbefore r' hr' k hfind
      omega
  rw [move, hfind]

section Steps

variable {r : Range} {outer left : List Range} {marks : List (Char × Mark)} {n : Nat}

/-- Where the line scan leaves a range, the automaton does. -/
theorem lineMarks_closes (hline : '\n' ∉ c.rest) (hend : r.findEnd? c.rest = some (.closes n))
    (others : LineMarks sp.ranges outer (c.advance (n + r.closing.length)) marks left) :
    LineMarks sp.ranges (r :: outer) c
      ((c.rest.take (n + r.closing.length)).map (·, .text (some r)) ++ marks) left := by
  by_cases hclosing : r.closing = []
  · obtain ⟨opening, atLineStart, rfl⟩ := eq_lineComment hclosing
    cases hend
    have htakes : Takes (.lineComment opening atLineStart) outer (c.rest ++ [])
        c.rest.length _ := takes_lineComment hline
    rw [List.append_nil] at htakes
    exact htakes.lineMarks (.leaves (by simp) rfl others)
  · have htakes : Takes r outer (c.rest ++ []) _ outer :=
      takes_closes r.confined_nil hclosing hend
    rw [List.append_nil] at htakes
    exact htakes.lineMarks others

/-- Where the line scan goes deeper, the automaton does. -/
theorem lineMarks_nests (hend : r.findEnd? c.rest = some (.nests n))
    (others : LineMarks sp.ranges (r :: r :: outer) (c.advance (n + r.opening.length)) marks left) :
    LineMarks sp.ranges (r :: outer) c
      ((c.rest.take (n + r.opening.length)).map (·, .text (some r)) ++ marks) left := by
  have htakes : Takes r outer (c.rest ++ []) _ _ := takes_nests r.confined_nil hend
  rw [List.append_nil] at htakes
  exact htakes.lineMarks others

/-- A range without an end takes the rest of the line. -/
theorem lineMarks_stays (hend : r.findEnd? c.rest = none) :
    LineMarks sp.ranges (r :: outer) c (c.rest.map (·, .text (some r))) (r :: outer) := by
  have htakes : Takes r outer (c.rest ++ []) _ _ := takes_stays r.confined_nil hend
  rw [List.append_nil] at htakes
  have hlasting : r.closing ≠ [] := closing_ne_nil hend nofun
  have hbehind : LineMarks sp.ranges (r :: outer) (c.advance c.rest.length) [] (r :: outer) :=
    .ends (by simp) (by simpa)
  simpa using htakes.lineMarks hbehind

/-- Text before the next range is copied. -/
theorem lineMarks_copies (hn : n ≤ plainLength sp c) (hlength : n ≤ c.rest.length)
    (others : LineMarks sp.ranges [] (c.advance n) marks left) :
    LineMarks sp.ranges [] c ((c.rest.take n).map (·, .text none) ++ marks) left :=
  .quiet hlength (fun _ hm => move_before (by omega)) others

/-- So is text up to a semicolon, with the semicolon. -/
theorem lineMarks_mark {blocks blocks' : BlockState} {kept : Bool}
    (hfind : findToken sp blocks c = (blocks', some (.mark n kept)))
    (others : LineMarks sp.ranges [] (c.advance (n + 1)) marks left) :
    LineMarks sp.ranges [] c ((c.rest.take (n + 1)).map (·, .text none) ++ marks) left := by
  obtain ⟨hn, hsemi⟩ := findToken_mark hfind
  exact lineMarks_copies hn (List.getElem?_eq_some_iff.1 hsemi).1 others

/-- So is a line without a further range. -/
theorem lineMarks_plain (hplain : c.rest.length ≤ plainLength sp c) :
    LineMarks sp.ranges [] c (c.rest.map (·, .text none)) [] := by
  have hbehind : LineMarks sp.ranges [] (c.advance c.rest.length) [] [] :=
    .ends (by simp) (by simp)
  simpa using lineMarks_copies hplain (Nat.le_refl _) hbehind

/-- Text up to a range is copied, and the range opens. -/
theorem lineMarks_opens (hrange : firstRange? c sp.ranges = some (n, r))
    (others : LineMarks sp.ranges [r] (c.advance (n + r.opening.length)) marks left) :
    LineMarks sp.ranges [] c ((c.rest.take n).map (·, .text none) ++
      (((c.rest.drop n).take r.opening.length).map (·, .text (some r)) ++ marks)) left := by
  have hplain : plainLength sp c = n := plainLength_of_some hrange
  have hlt := lt_of_findStart? (firstRange?_eq_some hrange).1
  have hne : (c.advance n).rest ≠ [] := by
    rw [Cursor.advance_rest, Ne, List.drop_eq_nil_iff]
    omega
  refine lineMarks_copies (Nat.le_of_eq hplain.symm) (by omega)
    (.moves hne (move_firstRange hrange) ?_)
  rwa [advance_advance]

end Steps

theorem not_mem_advance (n : Nat) (hline : '\n' ∉ c.rest) : '\n' ∉ (c.advance n).rest :=
  fun hmem => hline (List.mem_of_mem_drop hmem)

/-- The scan of a line reads it as the automaton does. -/
theorem LineScan.lineMarks {st st' : ScanState} {es : List Event} (h : LineScan sp st c es st')
    (hline : '\n' ∉ c.rest) :
    LineMarks sp.ranges st.ranges c (es.flatMap Event.marks) st'.ranges := by
  induction h with
  | closes hend next ih => exact lineMarks_closes hline hend (ih (not_mem_advance _ hline))
  | nests hend next ih => exact lineMarks_nests hend (ih (not_mem_advance _ hline))
  | stays hend => simpa [Event.marks] using lineMarks_stays hend
  | ends hrest => exact .ends hrest (by simp)
  | keeps hrest hfind next ih => exact lineMarks_mark hfind (ih (not_mem_advance _ hline))
  | @drops blocks blocks' c n es st hrest hfind next ih =>
      obtain ⟨hn, hsemi⟩ := findToken_mark hfind
      have hlength := (List.getElem?_eq_some_iff.1 hsemi).1
      refine lineMarks_copies (by omega) (by omega) ?_
      have hseparates := LineMarks.separates (c := c.advance n) (n := 1)
        (by rw [advance_advance]; exact ih (not_mem_advance _ hline))
      rwa [Cursor.advance_rest, (take_mark hfind).1] at hseparates
  | @wholeLine blocks blocks' c kind hrest hfind =>
      have hbehind : LineMarks sp.ranges [] (c.advance c.rest.length) [] [] :=
        .ends (by simp) (by simp)
      simpa [Event.marks] using hbehind.separates
  | plain hrest hrange hfind =>
      have hplain := lineMarks_plain (Nat.le_of_eq (plainLength_of_none hrange).symm)
      simpa [Event.marks] using hplain
  | opens hrest hrange hfind next ih =>
      exact lineMarks_opens hrange (ih (not_mem_advance _ hline))

end Line

theorem scriptMarks_lines (sp : Splitter) (st : ScanState) {line : List Char}
    {lines : List (List Char)} (hlines : ∀ l ∈ line :: lines, '\n' ∉ l) :
    ScriptMarks sp.ranges st.ranges (line :: lines)
      (((scanLine sp st (.ofLine line)).1 ++
        scanLines sp (scanLine sp st (.ofLine line)).2 lines).flatMap Event.marks) := by
  have hmarks {line} (st : ScanState) (hline : '\n' ∉ line) :=
    (lineScan_scanLine sp st (.ofLine line)).lineMarks hline
  induction lines generalizing line st with
  | nil =>
      rw [scanLines, List.append_nil]
      exact .last (hmarks st (hlines line (List.mem_cons_self ..)))
  | cons next lines ih =>
      obtain ⟨hline, hothers⟩ := List.forall_mem_cons.1 hlines
      have hlater := ih (scanLine sp st (.ofLine line)).2 hothers
      rw [List.flatMap_append]
      exact .line (hmarks st hline) hlater

/-- The scan of a script reads it as the automaton does. -/
theorem scriptMarks_scan (sp : Splitter) (script : List Char) :
    ScriptMarks sp.ranges [] (Text.splitOn '\n' script)
      ((scan sp script).flatMap Event.marks) := by
  obtain ⟨line, lines, hsplit⟩ := Text.exists_splitOn '\n' script
  have hlines : ∀ l ∈ line :: lines, '\n' ∉ l := fun l hl =>
    Text.not_mem_of_mem_splitOn (hsplit ▸ hl)
  rw [scan, hsplit]
  exact scriptMarks_lines sp {} hlines

/-! ## The pieces of a run -/

/-- A piece of a script whose characters have their ranges, with the separator behind it. -/
structure MarkedCut where
  piece : List (Char × Option Range)
  separator : List Char
  kind : BatchKind

namespace MarkedCut

/-- The cut without the ranges. -/
def plain (cut : MarkedCut) : Cut := ⟨cut.piece.map Prod.fst, cut.separator, cut.kind⟩

def marks (cut : MarkedCut) : List (Char × Mark) :=
  cut.piece.map (fun (c, range) => (c, .text range)) ++ cut.separator.map (·, .separator)

/-- Where the pieces end in the script, counted from a place on, and how. -/
def ends : Nat → List MarkedCut → List (Nat × BatchKind)
  | _, [] => []
  | start, cut :: cuts =>
      let stop := start + cut.piece.length
      (stop, cut.kind) :: ends (stop + cut.separator.length) cuts

end MarkedCut

/-- Where a run ends its batches, counted from a place on, and how. -/
def cutEnds : Nat → List Event → List (Nat × BatchKind)
  | _, [] => []
  | start, .text chars _ :: es => cutEnds (start + chars.length) es
  | start, .cut separator kind :: es => (start, kind) :: cutEnds (start + separator.length) es

/-- The pieces of a run before they are trimmed, with their kinds. -/
def Splitter.runPieces (sp : Splitter) (script : String) : List (List Char × BatchKind) :=
  let (first, others) := parts (scan sp script.toList)
  (first :: others).map fun part => (part.chars sp.stripComments, part.kind)

/-- The characters that are left when those of comments are deleted. -/
def withoutComments (strip : Bool) (tags : List (Char × Option Range)) : List Char :=
  (tags.filter fun (_, range) => !(strip && range.any Range.isComment)).map Prod.fst

/-- The comments among the ranges: up to the end of a line, with others open inside, or between two
codes that are said to hold a comment. -/
inductive Range.Remark : Range → Prop
  | lineComment (opening : Code) (atLineStart : Bool) : Remark (.lineComment opening atLineStart)
  | nesting (opening closing : Code) : Remark (.nesting opening closing)
  | plain (opening closing : Code) : Remark (.plain opening closing true)

/-- The strings and quoted names among the ranges. -/
inductive Range.Quoting : Range → Prop
  | doubled (opening closing : Code) : Quoting (.doubled opening closing)
  | plain (opening closing : Code) : Quoting (.plain opening closing false)

/-- What a run leaves of a piece. Only the characters of comments go, and only if comments are
stripped. -/
inductive Leaves (strip : Bool) : List (Char × Option Range) → List Char → Prop
  | nothing : Leaves strip [] []
  | outside {c tags left} (others : Leaves strip tags left) :
      Leaves strip ((c, none) :: tags) (c :: left)
  | quoted {r c tags left} (hr : r.Quoting) (others : Leaves strip tags left) :
      Leaves strip ((c, some r) :: tags) (c :: left)
  | keeps {r c tags left} (hr : r.Remark) (hstrip : strip = false)
      (others : Leaves strip tags left) : Leaves strip ((c, some r) :: tags) (c :: left)
  | strips {r c tags left} (hr : r.Remark) (hstrip : strip = true)
      (others : Leaves strip tags left) : Leaves strip ((c, some r) :: tags) left

/-- The cuts of a sequence of events and the piece behind the last one, when some characters
have gathered already. -/
def markedPieces (gathered : List (Char × Option Range)) :
    List Event → List MarkedCut × List (Char × Option Range)
  | [] => ([], gathered)
  | .text chars range :: es => markedPieces (gathered ++ chars.map (·, range)) es
  | .cut separator kind :: es =>
      let (cuts, last) := markedPieces [] es
      (⟨gathered, separator, kind⟩ :: cuts, last)

section Pieces

variable (gathered : List (Char × Option Range)) (es : List Event)

theorem marks_markedPieces :
    (markedPieces gathered es).1.flatMap MarkedCut.marks ++
        (markedPieces gathered es).2.map (fun (c, range) => (c, .text range)) =
      gathered.map (fun (c, range) => (c, .text range)) ++ es.flatMap Event.marks := by
  induction es generalizing gathered with
  | nil => simp [markedPieces]
  | cons e es ih =>
      cases e with
      | text chars range => simp [markedPieces, ih, Event.marks, Function.comp_def]
      | cut separator kind => simp [markedPieces, ih, Event.marks, MarkedCut.marks]

theorem plain_markedPieces :
    pieces (gathered.map Prod.fst) es =
      ((markedPieces gathered es).1.map MarkedCut.plain,
        (markedPieces gathered es).2.map Prod.fst) := by
  induction es generalizing gathered with
  | nil => rfl
  | cons e es ih =>
      cases e with
      | text chars range =>
          have hchars : chars = (chars.map (·, range)).map Prod.fst := by
            simp [Function.comp_def]
          rw [pieces_text, hchars, ← List.map_append, ih, ← hchars]
          rfl
      | cut separator kind =>
          have hothers := ih []
          rw [List.map_nil] at hothers
          rw [pieces_cut, hothers]
          rfl

theorem ends_markedPieces (start : Nat) :
    MarkedCut.ends start (markedPieces gathered es).1 =
      cutEnds (start + gathered.length) es := by
  induction es generalizing gathered start with
  | nil => rfl
  | cons e es ih =>
      cases e with
      | text chars range =>
          rw [markedPieces, ih, cutEnds, List.length_append, List.length_map, Nat.add_assoc]
      | cut separator kind =>
          rw [markedPieces, MarkedCut.ends, ih, cutEnds, List.length_nil, Nat.add_zero]

theorem withoutComments_append (strip : Bool) (tags tags' : List (Char × Option Range)) :
    withoutComments strip (tags ++ tags') =
      withoutComments strip tags ++ withoutComments strip tags' := by
  simp [withoutComments]

/-- Of the characters of one range, all are left or none. -/
theorem withoutComments_range (strip : Bool) (chars : List Char) (range : Option Range) :
    withoutComments strip (chars.map (·, range)) =
      if strip && range.any Range.isComment then [] else chars := by
  have hall : (fun tag : Char × Option Range => !(strip && tag.2.any Range.isComment)) ∘
      (·, range) = fun _ => !(strip && range.any Range.isComment) := rfl
  rw [withoutComments, List.filter_map, hall, List.map_map]
  cases strip && range.any Range.isComment with
  | true => simp
  | false => simp [Function.comp_def]

theorem Range.isComment_iff_remark (r : Range) : r.isComment = true ↔ r.Remark := by
  constructor
  · intro h
    cases r with
    | doubled opening closing => cases h
    | plain opening closing isComment =>
        obtain rfl : isComment = true := h
        exact .plain opening closing
    | lineComment opening atLineStart => exact .lineComment opening atLineStart
    | nesting opening closing => exact .nesting opening closing
  · rintro (_ | _ | _) <;> rfl

theorem Range.isComment_eq_false_iff_quoting (r : Range) : r.isComment = false ↔ r.Quoting := by
  constructor
  · intro h
    cases r with
    | doubled opening closing => exact .doubled opening closing
    | plain opening closing isComment =>
        obtain rfl : isComment = false := h
        exact .plain opening closing
    | lineComment opening atLineStart | nesting opening closing => cases h
  · rintro (_ | _) <;> rfl

theorem withoutComments_cons (strip : Bool) (c : Char) (range : Option Range)
    (tags : List (Char × Option Range)) : withoutComments strip ((c, range) :: tags) =
      if strip && range.any Range.isComment then withoutComments strip tags
      else c :: withoutComments strip tags := by
  have hfirst : withoutComments strip [(c, range)] =
      if strip && range.any Range.isComment then [] else [c] := withoutComments_range strip [c] range
  rw [← List.singleton_append, withoutComments_append, hfirst]
  split <;> rfl

theorem leaves_withoutComments (strip : Bool) (tags : List (Char × Option Range)) :
    Leaves strip tags (withoutComments strip tags) := by
  induction tags with
  | nil => exact .nothing
  | cons tag tags ih =>
      obtain ⟨c, range⟩ := tag
      rw [withoutComments_cons]
      cases range with
      | none =>
          rw [Option.any_none, Bool.and_false]
          exact .outside ih
      | some r =>
          rw [Option.any_some]
          cases hr : r.isComment with
          | false =>
              rw [Bool.and_false]
              exact .quoted (r.isComment_eq_false_iff_quoting.1 hr) ih
          | true =>
              have hremark := r.isComment_iff_remark.1 hr
              cases strip with
              | false => exact .keeps hremark rfl ih
              | true => exact .strips hremark rfl ih

/-- A text in a string or a quoted name stands unchanged in what is left. -/
theorem infix_withoutComments (strip : Bool) {r : Range} (hr : r.Quoting) {chars : List Char}
    {tags : List (Char × Option Range)} (h : chars.map (·, some r) <:+: tags) :
    chars <:+: withoutComments strip tags := by
  obtain ⟨before, behind, rfl⟩ := h
  have hcode : r.isComment = false := r.isComment_eq_false_iff_quoting.2 hr
  rw [withoutComments_append, withoutComments_append, withoutComments_range]
  simp [hcode]

/-- The parts of a sequence of events are its pieces; gathered text goes to the first. -/
theorem chars_parts (strip : Bool) :
    (withoutComments strip gathered ++ (parts es).1.chars strip, (parts es).1.kind) ::
        (parts es).2.map (fun part => (part.chars strip, part.kind)) =
      (markedPieces gathered es).1.map (fun cut => (withoutComments strip cut.piece, cut.kind)) ++
        [(withoutComments strip (markedPieces gathered es).2, .statement)] := by
  induction es generalizing gathered with
  | nil => simp [parts, Part.chars, markedPieces]
  | cons e es ih =>
      cases e with
      | text chars range =>
          rw [markedPieces, ← ih, withoutComments_append, withoutComments_range]
          simp [parts, Part.chars]
      | cut separator kind =>
          have hothers := ih []
          rw [show withoutComments strip [] = [] from rfl, List.nil_append] at hothers
          rw [markedPieces, List.map_cons, List.cons_append, ← hothers]
          simp [parts, Part.chars]

end Pieces

/-- No two scans of a line differ. -/
theorem LineScan.unique {sp : Splitter} {st st₁ st₂ : ScanState} {c : Cursor}
    {es₁ es₂ : List Event} (h₁ : LineScan sp st c es₁ st₁) (h₂ : LineScan sp st c es₂ st₂) :
    es₁ = es₂ ∧ st₁ = st₂ := by
  -- two different steps disagree on what is open, on what is found or on what is left
  induction h₁ generalizing es₂ st₂ <;> cases h₂ <;> grind

theorem LineScan.withStripComments {sp : Splitter} {st st' : ScanState} {c : Cursor}
    {es : List Event} (h : LineScan sp st c es st') (strip : Bool) :
    LineScan (sp.withStripComments strip) st c es st' := by
  induction h with
  | closes hend next ih => exact .closes hend ih
  | nests hend next ih => exact .nests hend ih
  | stays hend => exact .stays hend
  | ends hrest => exact .ends hrest
  | keeps hrest hfind next ih => exact .keeps hrest hfind ih
  | drops hrest hfind next ih => exact .drops hrest hfind ih
  | wholeLine hrest hfind => exact .wholeLine hrest hfind
  | plain hrest hrange hfind => exact .plain hrest hrange hfind
  | opens hrest hrange hfind next ih => exact .opens hrest hrange hfind ih

/-- A scan does not know whether comments are stripped. -/
theorem scan_withStripComments (sp : Splitter) (strip : Bool) :
    scan (sp.withStripComments strip) = scan sp := by
  have hline : ∀ st c, scanLine (sp.withStripComments strip) st c = scanLine sp st c := by
    intro st c
    have hscan := (lineScan_scanLine sp st c).withStripComments strip
    obtain ⟨hes, hst⟩ := (lineScan_scanLine (sp.withStripComments strip) st c).unique hscan
    exact Prod.ext hes hst
  have hlines : ∀ st lines,
      scanLines (sp.withStripComments strip) st lines = scanLines sp st lines := by
    intro st lines
    induction lines generalizing st with
    | nil => rfl
    | cons line lines ih => simp only [scanLines, hline, ih]
  funext script
  simp only [scan, hline, hlines]

theorem split_eq_runPieces (sp : Splitter) (script : String) :
    sp.split script = (sp.runPieces script).filterMap fun (piece, kind) => batchOf? piece kind := by
  rw [Splitter.runPieces, List.filterMap_map]
  rfl

/-- Every script is divided into pieces, and the automaton gives every character of a piece its
range. A run with comments or without them ends its batches behind these pieces, and each of
its pieces is what is left of the piece there. Strings and quoted names are no comments, and a text
in one of them is never changed. -/
theorem exists_marked_division (sp : Splitter) (script : String) :
    ∃ cuts last,
      ScriptMarks sp.ranges [] (Text.splitOn '\n' script.toList)
        (cuts.flatMap MarkedCut.marks ++ last.map fun (c, range) => (c, .text range)) ∧
      Divides sp.separator (last.map Prod.fst) [] (cuts.map MarkedCut.plain) ∧
      (∀ r ∈ sp.ranges, (r.isComment = true ↔ r.Remark) ∧ (r.isComment = false ↔ r.Quoting)) ∧
      ∀ strip,
        let run := sp.withStripComments strip
        cutEnds 0 (scan run script.toList) = MarkedCut.ends 0 cuts ∧
        run.runPieces script =
          cuts.map (fun cut => (withoutComments strip cut.piece, cut.kind)) ++
            [(withoutComments strip last, .statement)] ∧
        List.Forall₂ (fun tags piece => Leaves strip tags piece ∧
            ∀ r : Range, r.Quoting → ∀ chars, chars.map (·, some r) <:+: tags → chars <:+: piece)
          (cuts.map MarkedCut.piece ++ [last]) ((run.runPieces script).map Prod.fst) ∧
        run.split script =
          (run.runPieces script).filterMap fun (piece, kind) => batchOf? piece kind := by
  let found := markedPieces [] (scan sp script.toList)
  have hrun : ∀ strip, (sp.withStripComments strip).runPieces script =
      found.1.map (fun cut => (withoutComments strip cut.piece, cut.kind)) ++
        [(withoutComments strip found.2, .statement)] := by
    intro strip
    rw [Splitter.runPieces, scan_withStripComments, ← chars_parts]
    rfl
  refine ⟨found.1, found.2, ?_, ?_, fun r _ => ⟨r.isComment_iff_remark,
    r.isComment_eq_false_iff_quoting⟩, fun strip => ⟨?_, hrun strip, ?_,
    split_eq_runPieces _ script⟩⟩
  · rw [marks_markedPieces]
    exact scriptMarks_scan sp script.toList
  · have hdivides := divides_pieces (eventsDivide_scan sp script.toList)
    have hplain := plain_markedPieces [] (scan sp script.toList)
    rw [List.map_nil] at hplain
    rwa [hplain] at hdivides
  · rw [scan_withStripComments, ends_markedPieces]
    rfl
  · have hpieces : ((sp.withStripComments strip).runPieces script).map Prod.fst =
        (found.1.map MarkedCut.piece ++ [found.2]).map (withoutComments strip) := by
      simp [hrun, Function.comp_def]
    rw [hpieces, List.forall₂_map_right_iff, List.forall₂_same]
    exact fun tags _ => ⟨leaves_withoutComments strip tags,
      fun r hr chars h => infix_withoutComments strip hr h⟩

end SchemaChange.Script
