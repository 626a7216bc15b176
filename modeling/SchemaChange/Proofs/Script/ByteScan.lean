import SchemaChange.Proofs.Script.ByteTokens

/-!
# Splitting scripts by byte positions

The loop over the lines of a script and the loop within a line, at positions that count bytes and
with every slice checked. For every script they end, take no slice out of range and give the
batches of the scan by characters.
-/
namespace SchemaChange.Script

/-- What has been gathered of a script, and what is still to be read. -/
structure Batches where
  lines : List (List Char)
  state : ScanState := {}
  /-- The text since the last separator. -/
  buffer : List Char := []
  ready : List Batch := []
  firstLine : Bool := true
  finished : Bool := false

/-- Where the batch ends that the separator ends. -/
def SpecialToken.textEnd (token : SpecialToken) : Nat :=
  if token.keepInBatch then token.index + token.length else token.index

namespace Batches

variable (sp : Splitter)

def emit (text : List Char) (isComment : Bool) (b : Batches) : Batches :=
  { b with buffer := if isComment && sp.stripComments then b.buffer else b.buffer ++ text }

/-- The gathered text becomes a batch, unless it is blank. -/
def flush (kind : BatchKind) (b : Batches) : Batches :=
  { b with buffer := [], ready := b.ready ++ (batchOf? b.buffer kind).toList }

theorem emit_nil (isComment : Bool) (b : Batches) : b.emit sp [] isComment = b := by
  simp [emit]

/-- One round of the loop within a line: leave or open a range, pass over a separator, or read
the rest of the line. -/
def lineStep : LineReader × Batches → Checked (Batches ⊕ (LineReader × Batches))
  | (r, b) =>
      match b.state.ranges with
      | active :: outer => do
          match ← active.findEndCode r with
          | some (.found index) =>
              let stop := min (index + Text.byteLength active.closing) r.length
              let text ← r.slice r.index stop
              let b := b.emit sp text active.isComment
              return .inr (r.seek stop, { b with state.ranges := outer })
          | some (.nested index) =>
              let stop := index + Text.byteLength active.opening.chars
              let text ← r.slice r.index stop
              let b := b.emit sp text active.isComment
              return .inr (r.seek stop, { b with state.ranges := active :: active :: outer })
          | none =>
              let text ← r.remaining
              return .inl (b.emit sp text active.isComment)
      | [] => do
          let next ← firstStartCode r sp.ranges
          let stop := (next.map (·.1)).getD r.length
          match ← sp.separator.findToken b.state.blocks r stop with
          | (blocks, some token) =>
              let text ← r.slice r.index token.textEnd
              let b := (b.emit sp text false).flush token.kind
              return .inr (r.seek (token.index + token.length), { b with state.blocks := blocks })
          | (blocks, none) =>
              let text ← r.slice r.index stop
              let b := { b.emit sp text false with state.blocks := blocks }
              match next with
              | none => return .inl b
              | some (index, range) =>
                  let stop := index + Text.byteLength range.opening.chars
                  let code ← r.slice index stop
                  let b := b.emit sp code range.isComment
                  return .inr (r.seek stop, { b with state.ranges := [range] })

/-- Read a line from a position on. -/
def readLine (r : LineReader) (b : Batches) : Checked Batches :=
  Checked.loop (lineStep sp) (r, b)

/-- Read a line behind the line break before it. -/
def processLine (b : Batches) (line : List Char) : Checked Batches :=
  let b :=
    if b.firstLine then b else b.emit sp ['\n'] (b.state.ranges.head?.any Range.isComment)
  readLine sp ⟨line, 0⟩ { b with firstLine := false }

/-- Hand out a batch that is ready, or read another line. -/
def nextStep (b : Batches) : Checked (Option (Batch × Batches) ⊕ Batches) :=
  match b.ready with
  | batch :: ready => return .inl (some (batch, { b with ready }))
  | [] =>
      if b.finished then return .inl none
      else
        match b.lines with
        | line :: lines => do return .inr (← processLine sp { b with lines } line)
        | [] => return .inr { b.flush .statement with finished := true }

/-- The next batch, with what is left of the script. -/
def next (b : Batches) : Checked (Option (Batch × Batches)) := Checked.loop (nextStep sp) b

/-- Ask for one more batch. -/
def collectStep : List Batch × Batches → Checked (List Batch ⊕ (List Batch × Batches))
  | (collected, b) => do
      match ← b.next sp with
      | none => return .inl collected
      | some (batch, b) => return .inr (collected ++ [batch], b)

/-- The batches that are still to come, behind the ones that were handed out. -/
def collect (collected : List Batch) (b : Batches) : Checked (List Batch) :=
  Checked.loop (collectStep sp) (collected, b)

/-- The batches of a script in order. -/
def process (script : String) : Checked (List Batch) :=
  collect sp [] { lines := Text.splitOn '\n' script.toList }

/-- What an event of the scan adds. -/
def play (b : Batches) : Event → Batches
  | .text chars range => b.emit sp chars (range.any Range.isComment)
  | .cut _ kind => b.flush kind

end Batches

section Line

variable {sp : Splitter} {c : Cursor} {st st' : ScanState} {es : List Event}

/-- The text before the next range ends where it does for the search by characters. -/
theorem getD_firstRange? (sp : Splitter) (c : Cursor) :
    (((firstRange? c sp.ranges).map fun (n, range) => (c.indexAt n, range)).map (·.1)).getD
      c.reader.length = c.indexAt (plainLength sp c) := by
  rw [plainLength, ← indexAt_length]
  cases firstRange? c sp.ranges <;> rfl

/-- The separator search outside every range. -/
theorem findToken_line (sp : Splitter) (blocks : BlockState) (c : Cursor) :
    sp.separator.findToken blocks c.reader
        ((((firstRange? c sp.ranges).map fun (n, range) => (c.indexAt n, range)).map (·.1)).getD
          c.reader.length) =
      pure ((findToken sp blocks c).1, (findToken sp blocks c).2.map c.token) := by
  rw [getD_firstRange?]
  exact findToken_reader sp.separator blocks (plainLength_le_length sp c)

variable {blocks blocks' : BlockState}

/-- A semicolon is one byte. -/
theorem indexAt_mark {n : Nat} {kept : Bool}
    (hfind : findToken sp blocks c = (blocks', some (.mark n kept))) :
    c.indexAt (n + 1) = c.indexAt n + 1 := by
  have hsemi : [';'] <+: c.rest.drop n := by
    rw [← (take_mark hfind).1]
    exact List.take_prefix 1 _
  exact indexAt_add_of_prefix hsemi

theorem seek_mark {n : Nat} {kept : Bool}
    (hfind : findToken sp blocks c = (blocks', some (.mark n kept))) :
    c.reader.seek (c.indexAt n + 1) = (c.advance (n + 1)).reader := by
  rw [← indexAt_mark hfind, seek_reader]

section Rounds

variable {r : Range} {outer : List Range} {n : Nat} (b : Batches)

/-- A round that leaves a range. -/
theorem lineStep_closes (hend : r.findEnd? c.rest = some (.closes n)) :
    Batches.lineStep sp (c.reader, { b with state := ⟨r :: outer, blocks⟩ }) =
      pure (.inr ((c.advance (n + r.closing.length)).reader,
        { b.emit sp (c.rest.take (n + r.closing.length)) r.isComment with
          state := ⟨outer, blocks⟩ })) := by
  have hstop : min (c.indexAt n + Text.byteLength r.closing) c.reader.length =
      c.indexAt (n + r.closing.length) := by
    rw [← indexAt_add_of_prefix (closing_occurs hend)]
    exact Nat.min_eq_left (indexAt_le_length c _)
  rw [Batches.lineStep]
  simp only [findEndCode_reader, hend, Option.map_some, Cursor.endCode, pure_bind, hstop,
    slice_index_reader, seek_reader]
  rfl

/-- A round that opens a range again within itself. -/
theorem lineStep_nests (hend : r.findEnd? c.rest = some (.nests n)) :
    Batches.lineStep sp (c.reader, { b with state := ⟨r :: outer, blocks⟩ }) =
      pure (.inr ((c.advance (n + r.opening.length)).reader,
        { b.emit sp (c.rest.take (n + r.opening.length)) r.isComment with
          state := ⟨r :: r :: outer, blocks⟩ })) := by
  have hstop : c.indexAt (n + r.opening.length) =
      c.indexAt n + Text.byteLength r.opening.chars :=
    indexAt_add_of_prefix (nesting_occurs hend)
  rw [Batches.lineStep]
  simp only [findEndCode_reader, hend, Option.map_some, Cursor.endCode, pure_bind, ← hstop,
    slice_index_reader, seek_reader]
  rfl

/-- A range that stays open takes the rest of the line. -/
theorem lineStep_stays (hend : r.findEnd? c.rest = none) :
    Batches.lineStep sp (c.reader, { b with state := ⟨r :: outer, blocks⟩ }) =
      pure (.inl { b.emit sp c.rest r.isComment with state := ⟨r :: outer, blocks⟩ }) := by
  rw [Batches.lineStep]
  simp only [findEndCode_reader, hend, Option.map_none, pure_bind, remaining_reader]
  rfl

/-- A separator ends the batch, and reading goes on behind it. -/
theorem lineStep_token {token : Token} {text : List Char} {behind : Cursor}
    (hfind : findToken sp blocks c = (blocks', some token))
    (htext : c.reader.slice c.reader.index (c.token token).textEnd = pure text)
    (hbehind : c.reader.seek ((c.token token).index + (c.token token).length) = behind.reader) :
    Batches.lineStep sp (c.reader, { b with state := ⟨[], blocks⟩ }) =
      pure (.inr (behind.reader, { (b.emit sp text false).flush (c.token token).kind with
        state := ⟨[], blocks'⟩ })) := by
  have htoken := findToken_line sp blocks c
  rw [hfind] at htoken
  rw [Batches.lineStep]
  simp only [firstStartCode_reader, pure_bind]
  rw [htoken, pure_bind]
  simp only [Option.map_some]
  rw [htext, hbehind, pure_bind]
  rfl

/-- A semicolon that belongs to its batch. -/
theorem lineStep_keeps (hfind : findToken sp blocks c = (blocks', some (.mark n true))) :
    Batches.lineStep sp (c.reader, { b with state := ⟨[], blocks⟩ }) =
      pure (.inr ((c.advance (n + 1)).reader,
        { (b.emit sp (c.rest.take (n + 1)) false).flush .statement with
          state := ⟨[], blocks'⟩ })) := by
  have hend : (c.token (.mark n true)).textEnd = c.indexAt (n + 1) := (indexAt_mark hfind).symm
  exact lineStep_token b hfind (hend ▸ slice_index_reader c (n + 1)) (seek_mark hfind)

/-- A semicolon that is left out. -/
theorem lineStep_drops (hfind : findToken sp blocks c = (blocks', some (.mark n false))) :
    Batches.lineStep sp (c.reader, { b with state := ⟨[], blocks⟩ }) =
      pure (.inr ((c.advance (n + 1)).reader,
        { (b.emit sp (c.rest.take n) false).flush .statement with state := ⟨[], blocks'⟩ })) :=
  lineStep_token b hfind (slice_index_reader c n) (seek_mark hfind)

/-- A separator that takes the whole line. -/
theorem lineStep_wholeLine {kind : BatchKind}
    (hfind : findToken sp blocks c = (blocks', some (.wholeLine kind))) :
    Batches.lineStep sp (c.reader, { b with state := ⟨[], blocks⟩ }) =
      pure (.inr ((c.advance c.rest.length).reader,
        { b.flush kind with state := ⟨[], blocks'⟩ })) := by
  have hstart : c.indexAt 0 = (c.token (.wholeLine kind)).textEnd :=
    (index_eq_zero_iff c).2 (find_wholeLine hfind).1
  have htext := slice_index_reader c 0
  rw [hstart, List.take_zero] at htext
  have hseek := seek_reader c c.rest.length
  rw [indexAt_length, ← Nat.zero_add c.reader.length] at hseek
  rw [lineStep_token b hfind htext hseek, Batches.emit_nil]
  rfl

/-- Without a separator or a range, the rest of the line is read. -/
theorem lineStep_plain (hrange : firstRange? c sp.ranges = none)
    (hfind : findToken sp blocks c = (blocks', none)) :
    Batches.lineStep sp (c.reader, { b with state := ⟨[], blocks⟩ }) =
      pure (.inl { b.emit sp c.rest false with state := ⟨[], blocks'⟩ }) := by
  have htoken := findToken_line sp blocks c
  have hslice := slice_index_reader c c.rest.length
  rw [indexAt_length, List.take_length] at hslice
  rw [hfind, hrange] at htoken
  rw [Batches.lineStep]
  simp only [firstStartCode_reader, hrange, Option.map_none, Option.getD_none,
    pure_bind] at htoken ⊢
  rw [htoken, pure_bind]
  simp only [hslice, pure_bind]
  rfl

/-- At the end of a line outside every range nothing is left to do. -/
theorem lineStep_end (hrest : c.rest = []) :
    Batches.lineStep sp (c.reader, { b with state := ⟨[], blocks⟩ }) =
      pure (.inl { b with state := ⟨[], blocks⟩ }) := by
  have hplain := lineStep_plain b (firstRange?_of_rest_nil hrest sp.ranges)
    (findToken_of_rest_nil sp hrest blocks)
  rw [hplain, hrest, Batches.emit_nil]

/-- A round that opens a range. -/
theorem lineStep_opens (hrange : firstRange? c sp.ranges = some (n, r))
    (hfind : findToken sp blocks c = (blocks', none)) :
    Batches.lineStep sp (c.reader, { b with state := ⟨[], blocks⟩ }) =
      pure (.inr ((c.advance (n + r.opening.length)).reader,
        { (b.emit sp (c.rest.take n) false).emit sp ((c.rest.drop n).take r.opening.length)
            r.isComment with
          state := ⟨[r], blocks'⟩ })) := by
  have hcode := slice_reader c (Nat.le_add_right n r.opening.length)
  rw [Nat.add_sub_cancel_left] at hcode
  have hstop : c.indexAt (n + r.opening.length) =
      c.indexAt n + Text.byteLength r.opening.chars :=
    indexAt_add_of_prefix (opening_occurs (firstRange?_eq_some hrange).1)
  have htoken := findToken_line sp blocks c
  rw [hfind, hrange] at htoken
  rw [Batches.lineStep]
  simp only [firstStartCode_reader, hrange, Option.map_some, Option.map_none, Option.getD_some,
    pure_bind] at htoken ⊢
  rw [htoken, pure_bind]
  simp only [slice_index_reader, pure_bind]
  rw [← hstop, hcode, pure_bind, seek_reader]
  rfl

end Rounds

/-- The loop within a line does what the events of the scan say, and ends. -/
theorem LineScan.readLine (h : LineScan sp st c es st') (b : Batches) :
    Batches.readLine sp c.reader { b with state := st } =
      pure { es.foldl (Batches.play sp) b with state := st' } := by
  induction h generalizing b with
  | closes hend next ih => exact (Checked.loop_next (lineStep_closes b hend)).trans (ih _)
  | nests hend next ih => exact (Checked.loop_next (lineStep_nests b hend)).trans (ih _)
  | stays hend => exact Checked.loop_done (lineStep_stays b hend)
  | ends hrest => exact Checked.loop_done (lineStep_end b hrest)
  | keeps hrest hfind next ih => exact (Checked.loop_next (lineStep_keeps b hfind)).trans (ih _)
  | drops hrest hfind next ih => exact (Checked.loop_next (lineStep_drops b hfind)).trans (ih _)
  | wholeLine hrest hfind =>
      -- behind the separator the loop goes round once more, at the end of the line
      exact (Checked.loop_next (lineStep_wholeLine b hfind)).trans
        (Checked.loop_done (lineStep_end _ (by simp)))
  | plain hrest hrange hfind => exact Checked.loop_done (lineStep_plain b hrange hfind)
  | opens hrest hrange hfind next ih =>
      exact (Checked.loop_next (lineStep_opens b hrange hfind)).trans (ih _)

end Line

section Script

variable (sp : Splitter)

/-- The batches that the events of a scan add. -/
theorem ready_foldl_play (es : List Event) (b : Batches) :
    ((es.foldl (Batches.play sp) b).flush .statement).ready =
      b.ready ++ ((batchOf? (b.buffer ++ (parts es).1.chars sp.stripComments)
        (parts es).1.kind).toList ++ (parts es).2.filterMap (Part.batch? sp.stripComments)) := by
  induction es generalizing b with
  | nil => simp [parts, Part.chars, Batches.flush]
  | cons e es ih =>
      rw [List.foldl_cons, ih]
      cases e with
      | text chars range =>
          have hbuffer : (b.play sp (.text chars range)).buffer ++
              (parts es).1.chars sp.stripComments =
              b.buffer ++ (parts (.text chars range :: es)).1.chars sp.stripComments := by
            simp only [Batches.play, Batches.emit, parts, Part.chars, List.flatMap_cons]
            rw [Bool.and_comm]
            split
            · rfl
            · rw [List.append_assoc]
          rw [hbuffer]
          rfl
      | cut separator kind =>
          have hfirst : (b.play sp (.cut separator kind)).buffer ++
              (parts es).1.chars sp.stripComments = (parts es).1.chars sp.stripComments := rfl
          have hparts : parts (.cut separator kind :: es) =
              (⟨[], kind⟩, (parts es).1 :: (parts es).2) := rfl
          have hchars : Part.chars sp.stripComments ⟨[], kind⟩ = [] := rfl
          have hready : (b.play sp (.cut separator kind)).ready =
              b.ready ++ (batchOf? b.buffer kind).toList := rfl
          rw [hfirst, hready, hparts, hchars, List.append_nil, List.append_assoc,
            filterMap_batch?_cons]

/-- Events change neither what is still to be read nor how far reading has come. -/
theorem foldl_play_frame (es : List Event) (b : Batches) :
    (es.foldl (Batches.play sp) b).lines = b.lines ∧
      (es.foldl (Batches.play sp) b).firstLine = b.firstLine ∧
      (es.foldl (Batches.play sp) b).finished = b.finished := by
  induction es generalizing b with
  | nil => exact ⟨rfl, rfl, rfl⟩
  | cons e es ih => cases e <;> exact ih _

/-- A line behind the first one adds its line break and its events. -/
theorem processLine_eq {b : Batches} (hfirst : b.firstLine = false) (st : ScanState)
    (line : List Char) :
    Batches.processLine sp { b with state := st } line =
      pure { (Event.text ['\n'] st.ranges.head? ::
          (scanLine sp st (.ofLine line)).1).foldl (Batches.play sp) b with
        state := (scanLine sp st (.ofLine line)).2 } := by
  have hscan := (lineScan_scanLine sp st (.ofLine line)).readLine
    (b.play sp (.text ['\n'] st.ranges.head?))
  rw [List.foldl_cons, ← hscan, Batches.processLine, if_neg (by simp [hfirst])]
  simp only [Batches.play, Batches.emit, hfirst]
  rfl

/-- What is ready is handed out first. -/
theorem collect_ready (collected : List Batch) (b : Batches) :
    b.collect sp collected = Batches.collect sp (collected ++ b.ready) { b with ready := [] } := by
  obtain ⟨lines, state, buffer, ready, firstLine, finished⟩ := b
  induction ready generalizing collected with
  | nil => simp
  | cons batch ready ih =>
      have hnext : Batches.next sp ⟨lines, state, buffer, batch :: ready, firstLine, finished⟩ =
          pure (some (batch, ⟨lines, state, buffer, ready, firstLine, finished⟩)) :=
        Checked.loop_done rfl
      have hstep : Batches.collectStep sp
            (collected, ⟨lines, state, buffer, batch :: ready, firstLine, finished⟩) =
          pure (.inr (collected ++ [batch],
            ⟨lines, state, buffer, ready, firstLine, finished⟩)) := by
        rw [Batches.collectStep, hnext, pure_bind]
      have hlater := ih (collected ++ [batch])
      rw [List.append_assoc] at hlater
      exact (Checked.loop_next hstep).trans hlater

/-- Reading on hands out nothing by itself. -/
theorem collect_next {b b' : Batches} (hstep : Batches.nextStep sp b = pure (.inr b'))
    (collected : List Batch) : b.collect sp collected = b'.collect sp collected := by
  have hnext : b.next sp = b'.next sp := Checked.loop_next hstep
  apply Checked.loop_congr
  rw [Batches.collectStep, Batches.collectStep, hnext]

theorem nextStep_line {b b' : Batches} {line : List Char} {lines : List (List Char)}
    (hready : b.ready = []) (hfinished : b.finished = false) (hlines : b.lines = line :: lines)
    (hread : Batches.processLine sp { b with lines } line = pure b') :
    Batches.nextStep sp b = pure (.inr b') := by
  simp only [hready, hfinished] at hread
  simp only [Batches.nextStep, hready, hfinished, hlines, Bool.false_eq_true, if_false]
  rw [hread, pure_bind]

/-- Behind the last line the text that is left becomes a batch. -/
theorem collect_end {b : Batches} (hready : b.ready = []) (hfinished : b.finished = false)
    (hlines : b.lines = []) (collected : List Batch) :
    b.collect sp collected = pure (collected ++ (b.flush .statement).ready) := by
  have hstep : Batches.nextStep sp b =
      pure (.inr { b.flush .statement with finished := true }) := by
    rw [Batches.nextStep, hready, hfinished, hlines]
    rfl
  rw [collect_next sp hstep, collect_ready]
  apply Checked.loop_done
  have hnext : Batches.next sp { b.flush .statement with ready := [], finished := true } =
      pure none := Checked.loop_done rfl
  rw [Batches.collectStep, hnext, pure_bind]

/-- The loop over the lines behind the first one ends. -/
theorem collect_eq {lines : List (List Char)} {b : Batches} (hlines : b.lines = lines)
    (hfirst : b.firstLine = false) (hfinished : b.finished = false) (st : ScanState)
    (collected : List Batch) :
    Batches.collect sp collected { b with state := st } =
      pure (collected ++
        (((scanLines sp st lines).foldl (Batches.play sp) b).flush .statement).ready) := by
  induction lines generalizing b st collected with
  | nil =>
      let drained : Batches := { b with state := st, ready := [] }
      have hdrained : drained.ready = [] := rfl
      have hend := collect_end sp hdrained hfinished hlines (collected ++ b.ready)
      rw [collect_ready, hend, List.append_assoc]
      rfl
  | cons line lines ih =>
      let es := .text ['\n'] st.ranges.head? :: (scanLine sp st (.ofLine line)).1
      let drained : Batches := { b with lines, ready := [] }
      have hevents : scanLines sp st (line :: lines) =
          es ++ scanLines sp (scanLine sp st (.ofLine line)).2 lines := rfl
      have hdrained : drained.firstLine = false := hfirst
      have hread := processLine_eq sp hdrained st line
      have hstep : Batches.nextStep sp { b with state := st, ready := [] } = pure (.inr _) :=
        nextStep_line sp rfl hfinished hlines hread
      obtain ⟨hlines', hfirst', hfinished'⟩ := foldl_play_frame sp es drained
      have hlater := ih hlines' (hfirst'.trans hfirst) (hfinished'.trans hfinished)
        (scanLine sp st (.ofLine line)).2 (collected ++ b.ready)
      rw [← List.foldl_append, ← hevents, ready_foldl_play] at hlater
      rw [collect_ready, ready_foldl_play, ← List.append_assoc]
      exact (collect_next sp hstep _).trans hlater

/-- For every script the loops end and no slice is taken out of range: reading by byte positions
gives the batches of the scan by characters. -/
theorem process_eq_split (script : String) :
    Batches.process sp script = pure (sp.split script) := by
  obtain ⟨line, lines, hsplit⟩ := Text.exists_splitOn '\n' script.toList
  let started : Batches := { lines, firstLine := false }
  let scanned := scanLine sp {} (.ofLine line)
  have hread : Batches.processLine sp { lines } line =
      pure { scanned.1.foldl (Batches.play sp) started with state := scanned.2 } :=
    (lineScan_scanLine sp {} (.ofLine line)).readLine started
  have hstep : Batches.nextStep sp { lines := line :: lines } = pure (.inr _) :=
    nextStep_line sp rfl rfl rfl hread
  obtain ⟨hlines, hstarted, hfinished⟩ := foldl_play_frame sp scanned.1 started
  have hscan : scan sp script.toList = scanned.1 ++ scanLines sp scanned.2 lines := by
    rw [scan, hsplit]
  have hready : (((scan sp script.toList).foldl (Batches.play sp) started).flush
      .statement).ready = sp.split script := by
    rw [ready_foldl_play]
    exact (filterMap_batch?_cons ..).symm
  have hcollect := collect_eq sp hlines hstarted hfinished scanned.2 []
  rw [← List.foldl_append, ← hscan, hready, List.nil_append] at hcollect
  rw [Batches.process, hsplit]
  exact (collect_next sp hstep []).trans hcollect

end Script

end SchemaChange.Script
