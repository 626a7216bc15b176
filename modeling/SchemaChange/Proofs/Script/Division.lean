import SchemaChange.Proofs.Script.Pieces

/-!
# Scripts are divided, never changed

A script is its pieces with separators between them, character by character, and the
batches are the trimmed pieces. What counts as a separator depends on the convention: a
semicolon, a semicolon that stays with its piece, or a whole line.
-/
namespace SchemaChange.Script

/-- A line with its neighbourhood: it starts at the start of the text or behind a line
break, and ends at the end of the text or before a line break. -/
structure WholeLine (before line after : List Char) : Prop where
  starts : before = [] ∨ before.getLast? = some '\n'
  ends : Text.EndsLine after
  single : '\n' ∉ line

/-- The separators of a convention, behind a piece that is itself behind some text. -/
inductive Separates (passed piece : List Char) :
    Separator → List Char → List Char → BatchKind → Prop
  | semicolon {after} : Separates passed piece .semicolon [';'] after .statement
  | outsideBlocks {after} : Separates passed piece .blocks [';'] after .statement
  | behindBlock {after} (hkept : piece.getLast? = some ';') :
      Separates passed piece .blocks [] after .statement
  | goLine {line after count} (hline : WholeLine (passed ++ piece) line after)
      (hgo : GoLine line count) : Separates passed piece .go line after (.separator count)
  | slashLine {line after} (hline : WholeLine (passed ++ piece) line after)
      (hslash : Text.trimmed line = ['/']) : Separates passed piece .blocks line after .statement

/-- Every cut is made at a separator, when some text stands before all cuts and a piece
behind them. -/
def Divides (separator : Separator) (last : List Char) : List Char → List Cut → Prop
  | _, [] => True
  | passed, cut :: cuts =>
      Separates passed cut.piece separator cut.separator (cuts.flatMap Cut.text ++ last)
        cut.kind ∧
      Divides separator last (passed ++ cut.text) cuts

/-- The same of events, when some text of the current piece has gathered. -/
def EventsDivide (separator : Separator) : List Char → List Char → List Event → Prop
  | _, _, [] => True
  | passed, gathered, .text chars _ :: es =>
      EventsDivide separator passed (gathered ++ chars) es
  | passed, gathered, .cut text kind :: es =>
      Separates passed gathered separator text (es.flatMap Event.chars) kind ∧
      EventsDivide separator (passed ++ (gathered ++ text)) [] es

theorem divides_pieces {separator : Separator} {passed gathered : List Char}
    {es : List Event} (h : EventsDivide separator passed gathered es) :
    Divides separator (pieces gathered es).2 passed (pieces gathered es).1 := by
  induction es generalizing passed gathered with
  | nil => trivial
  | cons e es ih =>
      cases e with
      | text cs range => exact ih h
      | cut text kind =>
          refine ⟨?_, ih h.2⟩
          rw [pieces_cut, pieces_chars, List.nil_append]
          exact h.1

theorem separates_mark {separator : Separator} (h : separator ≠ .go)
    (passed piece after : List Char) : Separates passed piece separator [';'] after .statement := by
  cases separator with
  | go => exact absurd rfl h
  | semicolon => exact .semicolon
  | blocks => exact .outsideBlocks

/-- A token that is a whole line separates, when only text of earlier lines has gathered. -/
theorem separates_wholeLine {sp : Splitter} {blocks blocks' : BlockState} {c : Cursor}
    {kind : BatchKind} {passed piece after : List Char}
    (hfind : findToken sp blocks c = (blocks', some (.wholeLine kind)))
    (hline : WholeLine (passed ++ piece) c.rest after) :
    Separates passed piece sp.separator c.rest after kind := by
  obtain ⟨-, ⟨hsep, count, hcount, rfl, hafter⟩ | ⟨hsep, -, rfl, hafter, hslash⟩⟩ :=
    find_wholeLine hfind
  · rw [hsep]
    refine .goLine hline ?_
    have hgo := goLine_of_goCount? hcount hafter
    rwa [plainAt, List.take_append_drop] at hgo
  · rw [hsep]
    refine .slashLine hline ?_
    have hrest : c.rest.take (plainLength sp c) = c.rest := by
      have := List.take_append_drop (plainLength sp c) c.rest
      rwa [show c.rest.drop (plainLength sp c) = [] from hafter, List.append_nil] at this
    rwa [plainAt, hrest] at hslash

/-- A line divides the script if what follows it does: the text before its unread part ends
in the part that has been read, which begins at the start of a line. -/
theorem LineScan.eventsDivide {sp : Splitter} {st st' : ScanState} {c : Cursor}
    {es tail : List Event} {passed gathered : List Char} (h : LineScan sp st c es st')
    (before : List Char) (hbefore : passed ++ gathered = before ++ c.passed.reverse)
    (hstart : before = [] ∨ before.getLast? = some '\n') (hline : '\n' ∉ c.rest)
    (hend : Text.EndsLine (tail.flatMap Event.chars))
    (htail : ∀ passed' gathered', passed' ++ gathered' = before ++ c.line →
      EventsDivide sp.separator passed' gathered' tail) :
    EventsDivide sp.separator passed gathered (es ++ tail) := by
  -- reading on moves characters from the unread part to the gathered text
  have moved : ∀ {c : Cursor} {passed gathered : List Char} (n : Nat),
      passed ++ gathered = before ++ c.passed.reverse →
      passed ++ (gathered ++ c.rest.take n) = before ++ (c.advance n).passed.reverse := by
    intro c passed gathered n h
    rw [← List.append_assoc, h]
    simp [Cursor.advance]
  have unread : ∀ {c : Cursor} (n : Nat), '\n' ∉ c.rest → '\n' ∉ (c.advance n).rest :=
    fun n h hmem => h (List.mem_of_mem_drop hmem)
  have ended : ∀ {c : Cursor} {passed gathered : List Char},
      passed ++ gathered = before ++ c.passed.reverse →
      passed ++ (gathered ++ c.rest) = before ++ c.line := by
    intro c passed gathered h
    rw [← List.append_assoc, h, List.append_assoc, Cursor.line]
  induction h generalizing passed gathered with
  | closes hends next ih | nests hends next ih =>
      exact ih (moved _ hbefore) (unread _ hline) (by simpa using htail)
  | stays hends => exact htail _ _ (ended hbefore)
  | ends hrest => exact htail _ _ (by rw [hbefore, Cursor.line, hrest, List.append_nil])
  | keeps hrest hfind next ih =>
      have hsep := (find_mark hfind).2.2 rfl
      refine ⟨?_, ih ?_ (unread _ hline) (by simpa using htail)⟩
      · rw [hsep]
        refine .behindBlock ?_
        rw [(take_mark hfind).2]
        simp
      · simpa using moved _ hbefore
  | drops hrest hfind next ih =>
      refine ⟨separates_mark (find_mark hfind).2.1 .., ih ?_ (unread _ hline)
        (by simpa using htail)⟩
      rw [List.append_assoc gathered, ← (take_mark hfind).2, List.append_nil]
      exact moved _ hbefore
  | @wholeLine blocks blocks' c kind hrest hfind =>
      have hpassed : c.passed = [] := (find_wholeLine hfind).1
      refine ⟨separates_wholeLine hfind ⟨?_, hend, hline⟩,
        htail _ _ (by rw [List.append_nil, ended hbefore])⟩
      rwa [hbefore, hpassed, List.reverse_nil, List.append_nil]
  | plain hrest hrange hfind => exact htail _ _ (ended hbefore)
  | @opens blocks blocks' c n r es st hrest hrange hfind next ih =>
      refine ih ?_ (unread _ hline) (by simpa using htail)
      rw [List.append_assoc gathered, ← List.take_add]
      exact moved _ hbefore

theorem endsLine_scanLines (sp : Splitter) (st : ScanState) (lines : List (List Char)) :
    Text.EndsLine ((scanLines sp st lines).flatMap Event.chars) := by
  cases lines with
  | nil => exact Text.endsLine_nil
  | cons line lines => exact Text.endsLine_newline _

theorem eventsDivide_scanLines (sp : Splitter) (st : ScanState) {lines : List (List Char)}
    (hlines : ∀ line ∈ lines, '\n' ∉ line) (passed gathered : List Char) :
    EventsDivide sp.separator passed gathered (scanLines sp st lines) := by
  induction lines generalizing st passed gathered with
  | nil => trivial
  | cons line lines ih =>
      have hline := hlines line (List.mem_cons_self ..)
      have hothers := fun l hl => hlines l (List.mem_cons_of_mem _ hl)
      refine (lineScan_scanLine sp st (.ofLine line)).eventsDivide
        (passed ++ (gathered ++ ['\n'])) ?_ (.inr ?_) hline (endsLine_scanLines _ _ _)
        fun passed' gathered' _ => ih _ hothers passed' gathered'
      · simp [Cursor.ofLine]
      · simp

theorem eventsDivide_scan (sp : Splitter) (script : List Char) :
    EventsDivide sp.separator [] [] (scan sp script) := by
  unfold scan
  split
  · trivial
  · rename_i line lines hsplit
    have hlines : ∀ l ∈ line :: lines, '\n' ∉ l := fun l hl =>
      Text.not_mem_of_mem_splitOn (hsplit ▸ hl)
    exact (lineScan_scanLine sp {} (.ofLine line)).eventsDivide [] rfl (.inl rfl)
      (hlines line (List.mem_cons_self ..)) (endsLine_scanLines _ _ _)
      fun passed gathered _ => eventsDivide_scanLines sp _
        (fun l hl => hlines l (List.mem_cons_of_mem _ hl)) passed gathered

/-- A scan yields every character of the script once. -/
theorem scan_chars (sp : Splitter) (script : List Char) :
    (scan sp script).flatMap Event.chars = script := by
  have hlines : ∀ st lines,
      (scanLines sp st lines).flatMap Event.chars = lines.flatMap ('\n' :: ·) := by
    intro st lines
    induction lines generalizing st with
    | nil => rfl
    | cons line lines ih =>
        simp only [scanLines, List.cons_append, List.flatMap_cons, List.flatMap_append, ih,
          (lineScan_scanLine sp st (.ofLine line)).chars]
        rfl
  obtain ⟨line, lines, hsplit⟩ := Text.exists_splitOn '\n' script
  simp only [scan, hsplit, List.flatMap_append, hlines,
    (lineScan_scanLine sp {} (.ofLine line)).chars]
  exact (Text.splitOn_flatten hsplit).symm

/-- Every script is its pieces with the separators of the convention between them; with
comments kept, the batches are the trimmed pieces that are not blank, in order, each of the
kind of the separator behind it. -/
theorem exists_division (sp : Splitter) (script : String) :
    ∃ cuts last, script.toList = cuts.flatMap Cut.text ++ last ∧
      Divides sp.separator last [] cuts ∧
      (sp.withStripComments false).split script = batches cuts last := by
  let kept := sp.withStripComments false
  refine ⟨(scanPieces kept script.toList).1, (scanPieces kept script.toList).2, ?_,
    divides_pieces (eventsDivide_scan kept script.toList), split_eq_batches kept rfl script⟩
  rw [scanPieces, pieces_chars, List.nil_append, scan_chars]

end SchemaChange.Script
