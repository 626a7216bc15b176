import SchemaChange.Proofs.Script.ByteScan

/-!
# What the search for separators reads

A search that follows procedural blocks remembers what it has read from one call to the next, so it
has to be shown the text outside every range once and in order. The rounds of the loop within a line
note where each call begins and how far it comes. What they note are stretches of the line, one
behind the other, that together hold the characters outside every range and no others.
-/
namespace SchemaChange.Script

/-! ## Stretches of a line -/

/-- A part of a line between two positions. -/
structure Stretch where
  start : Nat
  stop : Nat

/-- From a position on, a line is put together from pieces in a range and pieces outside every
range. Each of the latter is a stretch. -/
inductive Laid : Nat → List (Char × Option Range) → List Stretch → Prop
  | ends {start} : Laid start [] []
  | inside {start tags stretches} (r : Range) (chars : List Char)
      (others : Laid (start + Text.byteLength chars) tags stretches) :
      Laid start (chars.map (·, some r) ++ tags) stretches
  | outside {start tags stretches} (chars : List Char)
      (others : Laid (start + Text.byteLength chars) tags stretches) :
      Laid start (chars.map (·, none) ++ tags)
        (⟨start, start + Text.byteLength chars⟩ :: stretches)

/-- Stretches of a line whose characters have their ranges: they stand in order, none reaches into
another, each begins and ends between characters, and a character lies outside every range just if
it lies in one of them. -/
structure Covers (tags : List (Char × Option Range)) (stretches : List Stretch) : Prop where
  ordered : stretches.Pairwise fun first later => first.stop ≤ later.start
  sliced : ∀ s ∈ stretches, ∃ part, Text.slice (tags.map Prod.fst) s.start s.stop = pure part
  outside : ∀ before c range after, tags = before ++ (c, range) :: after →
    (range = none ↔ ∃ s ∈ stretches, s.start ≤ Text.byteLength (before.map Prod.fst) ∧
      Text.byteLength (before.map Prod.fst) + c.utf8Size ≤ s.stop)

theorem map_fst_piece (chars : List Char) (x : Option Range) (tags : List (Char × Option Range)) :
    (chars.map (·, x) ++ tags).map Prod.fst = chars ++ tags.map Prod.fst := by
  simp [Function.comp_def]

/-- A character of a line stands in its first piece or in what follows. -/
theorem append_eq_split {x range : Option Range} {chars : List Char}
    {tags before after : List (Char × Option Range)} {c : Char}
    (h : chars.map (·, x) ++ tags = before ++ (c, range) :: after) :
    (range = x ∧ Text.byteLength (before.map Prod.fst) + c.utf8Size ≤ Text.byteLength chars) ∨
      ∃ later, before = chars.map (·, x) ++ later ∧ tags = later ++ (c, range) :: after := by
  rcases List.append_eq_append_iff.1 h with ⟨later, hbefore, htags⟩ | ⟨rest, hchars, hrest⟩
  · exact .inr ⟨later, hbefore, htags⟩
  · cases rest with
    | nil =>
        rw [List.append_nil] at hchars
        exact .inr ⟨[], by rw [hchars, List.append_nil], hrest.symm⟩
    | cons first rest =>
        obtain ⟨rfl, -⟩ := List.cons.inj hrest
        obtain ⟨front, back, rfl, rfl, hback⟩ := List.map_eq_append_iff.1 hchars
        obtain ⟨c', back, rfl, hc, -⟩ := List.map_eq_cons_iff.1 hback
        obtain ⟨rfl, rfl⟩ := Prod.mk.inj hc
        refine .inl ⟨rfl, ?_⟩
        have hfront := map_fst_piece front x []
        rw [List.append_nil, List.map_nil, List.append_nil] at hfront
        rw [hfront, Text.byteLength_append, Text.byteLength_cons]
        omega

namespace Laid

variable {start : Nat} {tags : List (Char × Option Range)} {stretches : List Stretch}

theorem start_le (h : Laid start tags stretches) : ∀ s ∈ stretches, start ≤ s.start := by
  induction h with
  | ends => exact List.forall_mem_nil _
  | inside r chars others ih => exact fun s hs => Nat.le_trans (Nat.le_add_right ..) (ih s hs)
  | outside chars others ih =>
      refine List.forall_mem_cons.2 ⟨Nat.le_refl _, fun s hs => ?_⟩
      exact Nat.le_trans (Nat.le_add_right ..) (ih s hs)

theorem ordered (h : Laid start tags stretches) :
    stretches.Pairwise fun first later => first.stop ≤ later.start := by
  induction h with
  | ends => exact .nil
  | inside r chars others ih => exact ih
  | outside chars others ih => exact .cons others.start_le ih

/-- Every stretch is a part of the line. -/
theorem parts (h : Laid start tags stretches) : ∀ s ∈ stretches, ∃ before part behind,
    tags.map Prod.fst = before ++ (part ++ behind) ∧ s.start = start + Text.byteLength before ∧
      s.stop = s.start + Text.byteLength part := by
  -- what stands behind a piece stands further on in the whole
  have further : ∀ {start : Nat} {tags : List (Char × Option Range)} {x : Option Range} {s : Stretch}
      (chars : List Char), (∃ before part behind, tags.map Prod.fst = before ++ (part ++ behind) ∧
        s.start = start + Text.byteLength chars + Text.byteLength before ∧
        s.stop = s.start + Text.byteLength part) →
      ∃ before part behind, (chars.map (·, x) ++ tags).map Prod.fst = before ++ (part ++ behind) ∧
        s.start = start + Text.byteLength before ∧ s.stop = s.start + Text.byteLength part := by
    rintro start tags x s chars ⟨before, part, behind, htags, hstart, hstop⟩
    refine ⟨chars ++ before, part, behind, ?_, ?_, hstop⟩
    · rw [map_fst_piece, htags, List.append_assoc]
    · rw [hstart, Text.byteLength_append, Nat.add_assoc]
  induction h with
  | ends => exact List.forall_mem_nil _
  | inside r chars others ih => exact fun s hs => further chars (ih s hs)
  | @outside start tags stretches chars others ih =>
      refine List.forall_mem_cons.2 ⟨?_, fun s hs => further chars (ih s hs)⟩
      exact ⟨[], chars, tags.map Prod.fst, map_fst_piece .., rfl, rfl⟩

/-- The characters outside every range are those in the stretches. -/
theorem outside_iff (h : Laid start tags stretches) {before after : List (Char × Option Range)}
    {c : Char} {range : Option Range} (htags : tags = before ++ (c, range) :: after) :
    range = none ↔ ∃ s ∈ stretches, s.start ≤ start + Text.byteLength (before.map Prod.fst) ∧
      start + Text.byteLength (before.map Prod.fst) + c.utf8Size ≤ s.stop := by
  have hsize := c.utf8Size_pos
  induction h generalizing before with
  | ends => simp at htags
  | @inside start tags stretches r chars others ih =>
      rcases append_eq_split htags with ⟨rfl, hin⟩ | ⟨later, rfl, hlater⟩
      · refine iff_of_false nofun ?_
        rintro ⟨s, hs, hle, -⟩
        have hfurther := others.start_le s hs
        omega
      · rw [map_fst_piece, Text.byteLength_append, ← Nat.add_assoc]
        exact ih hlater
  | @outside start tags stretches chars others ih =>
      rcases append_eq_split htags with ⟨rfl, hin⟩ | ⟨later, rfl, hlater⟩
      · refine iff_of_true rfl ⟨_, List.mem_cons_self .., Nat.le_add_right .., ?_⟩
        dsimp only
        omega
      · have hhead : ¬ start + Text.byteLength chars + Text.byteLength (later.map Prod.fst) +
            c.utf8Size ≤ start + Text.byteLength chars := by omega
        simp only [map_fst_piece, Text.byteLength_append, ← Nat.add_assoc, List.mem_cons,
          exists_eq_or_imp]
        exact (ih hlater).trans (or_iff_right fun h => hhead h.2).symm

theorem covers (h : Laid 0 tags stretches) : Covers tags stretches where
  ordered := h.ordered
  sliced s hs := by
    obtain ⟨before, part, behind, htags, hstart, hstop⟩ := h.parts s hs
    rw [Nat.zero_add] at hstart
    rw [htags, hstop, hstart]
    exact ⟨part, Text.slice_append before part behind⟩
  outside before c range after htags := by simpa using h.outside_iff htags

end Laid

/-! ## The calls of the search -/

/-- What is ahead of a position outside every range: the next range, the end of the text before it,
and the separator in that text with what is remembered behind it. -/
structure Search where
  next : Option (Nat × Range)
  stop : Nat
  blocks : BlockState
  token : Option SpecialToken

/-- What the search has read: up to the end of the separator, or all it was given. -/
def Search.stretch (s : Search) (r : LineReader) : Stretch :=
  ⟨r.index, match s.token with
    | some token => token.index + token.length
    | none => s.stop⟩

namespace Batches

variable (sp : Splitter)

/-- Look for a separator before the next range. -/
def search (r : LineReader) (b : Batches) : Checked Search := do
  let next ← firstStartCode r sp.ranges
  let stop := (next.map (·.1)).getD r.length
  let (blocks, token) ← sp.separator.findToken b.state.blocks r stop
  return ⟨next, stop, blocks, token⟩

/-- Pass over the separator that was found, or open the range, or read the rest of the line. -/
def follow (r : LineReader) (b : Batches) (s : Search) :
    Checked (Batches ⊕ (LineReader × Batches)) :=
  match s.token with
  | some token => do
      let text ← r.slice r.index token.textEnd
      let b := (b.emit sp text false).flush token.kind
      return .inr (r.seek (token.index + token.length), { b with state.blocks := s.blocks })
  | none => do
      let text ← r.slice r.index s.stop
      let b := { b.emit sp text false with state.blocks := s.blocks }
      match s.next with
      | none => return .inl b
      | some (index, range) =>
          let stop := index + Text.byteLength range.opening.chars
          let code ← r.slice index stop
          let b := b.emit sp code range.isComment
          return .inr (r.seek stop, { b with state.ranges := [range] })

/-- A round of the loop within a line that notes what the search has read in it. -/
def notedStep : LineReader × Batches →
    Checked (List Stretch × (Batches ⊕ (LineReader × Batches)))
  | (r, b) =>
      match b.state.ranges with
      | [] => do
          let s ← b.search sp r
          return ([s.stretch r], ← b.follow sp r s)
      | _ :: _ => do return ([], ← lineStep sp (r, b))

/-- Read a line from a position on, behind what was noted already. -/
def readNoted (noted : List Stretch) (r : LineReader) (b : Batches) :
    Checked (List Stretch × Batches) :=
  Checked.loop (fun (noted, s) => do
    match ← notedStep sp s with
    | (more, .inl b) => return .inl (noted ++ more, b)
    | (more, .inr s) => return .inr (noted ++ more, s)) (noted, (r, b))

/-- Go on to a further line. -/
def startLine (b : Batches) : Batches :=
  let b :=
    if b.firstLine then b else b.emit sp ['\n'] (b.state.ranges.head?.any Range.isComment)
  { b with firstLine := false }

/-- Read lines one after the other, with what the search has read in each of them. -/
def notedLines (b : Batches) : List (List Char) → Checked (List (List Stretch) × Batches)
  | [] => return ([], b)
  | line :: lines => do
      let (noted, b) ← readNoted sp [] ⟨line, 0⟩ (b.startLine sp)
      let (others, b) ← notedLines b lines
      return (noted :: others, b)

/-- A round outside every range looks for a separator and acts on what it finds. -/
theorem lineStep_search {r : LineReader} {b : Batches} (h : b.state.ranges = []) :
    lineStep sp (r, b) = b.search sp r >>= b.follow sp r := by
  simp only [lineStep, h, search, follow, bind_assoc, pure_bind]
  congr 1
  funext next
  congr 1
  funext found
  obtain ⟨blocks, token⟩ := found
  cases token <;> rfl

/-- Rounds that note something are the rounds of the loop. -/
theorem map_notedStep (s : LineReader × Batches) :
    Prod.snd <$> notedStep sp s = lineStep sp s := by
  obtain ⟨r, b⟩ := s
  cases hranges : b.state.ranges with
  | nil =>
      rw [lineStep_search sp hranges]
      simp [notedStep, hranges]
  | cons active outer => simp [notedStep, hranges]

end Batches

/-- What the search by characters finds at a place. -/
def Cursor.search (c : Cursor) (sp : Splitter) (blocks : BlockState) : Search where
  next := (firstRange? c sp.ranges).map fun (n, range) => (c.indexAt n, range)
  stop := c.indexAt (plainLength sp c)
  blocks := (findToken sp blocks c).1
  token := (findToken sp blocks c).2.map c.token

/-- The part of a line from a place over some characters. -/
def Cursor.stretch (c : Cursor) (n : Nat) : Stretch := ⟨c.index, c.indexAt n⟩

section Rounds

variable {sp : Splitter} {c : Cursor} {blocks blocks' : BlockState} {b : Batches}
  {x : Batches ⊕ (LineReader × Batches)}

/-- Inside a range nothing is looked for. -/
theorem notedStep_inside {r : Range} {outer : List Range}
    (hstep : Batches.lineStep sp (c.reader, { b with state := ⟨r :: outer, blocks⟩ }) = pure x) :
    Batches.notedStep sp (c.reader, { b with state := ⟨r :: outer, blocks⟩ }) = pure ([], x) := by
  simp [Batches.notedStep, hstep]

/-- Outside every range the search is called once. -/
theorem notedStep_outside
    (hstep : Batches.lineStep sp (c.reader, { b with state := ⟨[], blocks⟩ }) = pure x) :
    Batches.notedStep sp (c.reader, { b with state := ⟨[], blocks⟩ }) =
      pure ([(c.search sp blocks).stretch c.reader], x) := by
  have hsearch : Batches.search sp c.reader { b with state := ⟨[], blocks⟩ } =
      pure (c.search sp blocks) := by
    rw [Batches.search, firstStartCode_reader, pure_bind]
    dsimp only
    rw [findToken_line, getD_firstRange?, pure_bind]
    rfl
  rw [Batches.lineStep_search sp rfl, hsearch, pure_bind] at hstep
  simp only [Batches.notedStep, hsearch, pure_bind, hstep]

theorem notedStep_mark {n : Nat} {kept : Bool}
    (hfind : findToken sp blocks c = (blocks', some (.mark n kept)))
    (hstep : Batches.lineStep sp (c.reader, { b with state := ⟨[], blocks⟩ }) = pure x) :
    Batches.notedStep sp (c.reader, { b with state := ⟨[], blocks⟩ }) =
      pure ([c.stretch (n + 1)], x) := by
  rw [notedStep_outside hstep, Search.stretch, Cursor.search, hfind, Cursor.stretch,
    indexAt_mark hfind]
  rfl

theorem notedStep_wholeLine {kind : BatchKind}
    (hfind : findToken sp blocks c = (blocks', some (.wholeLine kind)))
    (hstep : Batches.lineStep sp (c.reader, { b with state := ⟨[], blocks⟩ }) = pure x) :
    Batches.notedStep sp (c.reader, { b with state := ⟨[], blocks⟩ }) =
      pure ([c.stretch c.rest.length], x) := by
  rw [notedStep_outside hstep, Search.stretch, Cursor.search, hfind, Cursor.stretch,
    indexAt_length, ← Nat.zero_add c.reader.length]
  rfl

theorem notedStep_none (hfind : findToken sp blocks c = (blocks', none))
    (hstep : Batches.lineStep sp (c.reader, { b with state := ⟨[], blocks⟩ }) = pure x) :
    Batches.notedStep sp (c.reader, { b with state := ⟨[], blocks⟩ }) =
      pure ([c.stretch (plainLength sp c)], x) := by
  rw [notedStep_outside hstep, Search.stretch, Cursor.search, hfind]
  rfl

end Rounds

section Line

variable {sp : Splitter} {c : Cursor} {st st' : ScanState} {es : List Event}
  {s s' : LineReader × Batches} {noted more stretches : List Stretch} {b : Batches}
  {tags : List (Char × Option Range)}

theorem readNoted_done (h : Batches.notedStep sp s = pure (more, .inl b)) :
    Batches.readNoted sp noted s.1 s.2 = pure (noted ++ more, b) := by
  apply Checked.loop_done
  simp [h]

theorem readNoted_next (h : Batches.notedStep sp s = pure (more, .inr s'))
    (hlater : ∀ noted, Batches.readNoted sp noted s'.1 s'.2 = pure (noted ++ stretches, b)) :
    Batches.readNoted sp noted s.1 s.2 = pure (noted ++ (more ++ stretches), b) := by
  rw [← List.append_assoc, ← hlater]
  apply Checked.loop_next
  simp [h]

theorem Laid.passed (r : Range) (n : Nat) (h : Laid (c.advance n).index tags stretches) :
    Laid c.index ((c.rest.take n).map (·, some r) ++ tags) stretches := by
  rw [index_advance] at h
  exact .inside r _ h

theorem Laid.searched (n : Nat) (h : Laid (c.advance n).index tags stretches) :
    Laid c.index ((c.rest.take n).map (·, none) ++ tags) (c.stretch n :: stretches) := by
  rw [index_advance] at h
  exact .outside _ h

/-- At the end of a line the search is called once more, for nothing. -/
theorem readNoted_end (hrest : c.rest = []) (noted : List Stretch) (b : Batches)
    (blocks : BlockState) :
    Batches.readNoted sp noted c.reader { b with state := ⟨[], blocks⟩ } =
      pure (noted ++ [c.stretch 0], { b with state := ⟨[], blocks⟩ }) := by
  have hplain : plainLength sp c = 0 := by
    rw [plainLength_of_none (firstRange?_of_rest_nil hrest sp.ranges), hrest, List.length_nil]
  rw [← hplain]
  exact readNoted_done (notedStep_none (findToken_of_rest_nil sp hrest blocks)
    (lineStep_end b hrest))

theorem laid_end (c : Cursor) : Laid c.index [] [c.stretch 0] :=
  .searched (c := c) 0 .ends

/-- What the search reads of a line is laid out over it, and the batches are as without notes. -/
theorem LineScan.exists_readNoted (h : LineScan sp st c es st') :
    ∃ stretches, Laid c.index (es.flatMap Event.tagged) stretches ∧
      ∀ noted b, Batches.readNoted sp noted c.reader { b with state := st } =
        pure (noted ++ stretches, { es.foldl (Batches.play sp) b with state := st' }) := by
  induction h with
  | @closes r outer blocks c n es st hend next ih =>
      obtain ⟨stretches, hlaid, hread⟩ := ih
      refine ⟨stretches, hlaid.passed r _, fun noted b => ?_⟩
      exact readNoted_next (notedStep_inside (lineStep_closes b hend)) fun noted => hread noted _
  | @nests r outer blocks c n es st hend next ih =>
      obtain ⟨stretches, hlaid, hread⟩ := ih
      refine ⟨stretches, hlaid.passed r _, fun noted b => ?_⟩
      exact readNoted_next (notedStep_inside (lineStep_nests b hend)) fun noted => hread noted _
  | @stays r outer blocks c hend =>
      refine ⟨[], .inside r c.rest .ends, fun noted b => ?_⟩
      exact readNoted_done (notedStep_inside (lineStep_stays b hend))
  | @ends blocks c hrest => exact ⟨_, laid_end c, fun noted b => readNoted_end hrest noted b blocks⟩
  | @keeps blocks blocks' c n es st hrest hfind next ih =>
      obtain ⟨stretches, hlaid, hread⟩ := ih
      refine ⟨_ :: stretches, hlaid.searched (n + 1), fun noted b => ?_⟩
      exact readNoted_next (notedStep_mark hfind (lineStep_keeps b hfind)) fun noted => hread noted _
  | @drops blocks blocks' c n es st hrest hfind next ih =>
      obtain ⟨stretches, hlaid, hread⟩ := ih
      have hsearched := hlaid.searched (n + 1)
      rw [(take_mark hfind).2, List.map_append, List.append_assoc] at hsearched
      refine ⟨_ :: stretches, hsearched, fun noted b => ?_⟩
      exact readNoted_next (notedStep_mark hfind (lineStep_drops b hfind)) fun noted => hread noted _
  | @wholeLine blocks blocks' c kind hrest hfind =>
      have hsearched := (laid_end (c.advance c.rest.length)).searched c.rest.length
      rw [List.take_length] at hsearched
      refine ⟨_, hsearched, fun noted b => ?_⟩
      have hrest' : (c.advance c.rest.length).rest = [] := by simp
      exact readNoted_next (notedStep_wholeLine hfind (lineStep_wholeLine b hfind)) fun noted =>
        readNoted_end hrest' noted (b.flush kind) blocks'
  | @plain blocks blocks' c hrest hrange hfind =>
      have hplain : plainLength sp c = c.rest.length := plainLength_of_none hrange
      have hsearched := Laid.ends.searched (c := c) c.rest.length
      rw [List.take_length] at hsearched
      refine ⟨_, hsearched, fun noted b => ?_⟩
      have hstep := notedStep_none hfind (lineStep_plain b hrange hfind)
      rw [hplain] at hstep
      exact readNoted_done hstep
  | @opens blocks blocks' c n r es st hrest hrange hfind next ih =>
      obtain ⟨stretches, hlaid, hread⟩ := ih
      have hplain : plainLength sp c = n := plainLength_of_some hrange
      have hopens := Laid.passed (c := c.advance n) r r.opening.length
        (by rw [advance_advance]; exact hlaid)
      refine ⟨_ :: stretches, hopens.searched n, fun noted b => ?_⟩
      have hstep := notedStep_none hfind (lineStep_opens b hrange hfind)
      rw [hplain] at hstep
      exact readNoted_next hstep fun noted => hread noted _

end Line

/-! ## The text outside every range -/

/-- The reading of characters that have ranges and are none of them part of a separator. -/
def textMarks (tags : List (Char × Option Range)) : List (Char × Mark) :=
  tags.map fun (c, range) => (c, .text range)

theorem textMarks_piece (chars : List Char) (range : Option Range)
    (tags : List (Char × Option Range)) :
    textMarks (chars.map (·, range) ++ tags) = chars.map (·, .text range) ++ textMarks tags := by
  simp [textMarks, Function.comp_def]

/-- The stretches cover what the automaton of the ranges reads as text outside every range, when it
goes over the line from some open ranges to others. -/
def LineCovered (ranges stack : List Range) (line : List Char) (stretches : List Stretch)
    (left : List Range) : Prop :=
  ∃ tags, LineMarks ranges stack (.ofLine line) (textMarks tags) left ∧ Covers tags stretches

/-- They do so on lines that follow one another. -/
inductive LinesCovered (ranges : List Range) :
    List Range → List (List Char) → List (List Stretch) → Prop
  | ends {stack} : LinesCovered ranges stack [] []
  | line {stack line stretches left lines others}
      (h : LineCovered ranges stack line stretches left)
      (hlines : LinesCovered ranges left lines others) :
      LinesCovered ranges stack (line :: lines) (stretches :: others)

section Cover

variable {sp : Splitter} (hsep : sp.separator ≠ .go)
include hsep

/-- A separator without a comment behind it is text outside every range. -/
theorem LineScan.lineMarks_tagged {st st' : ScanState} {c : Cursor} {es : List Event}
    (h : LineScan sp st c es st') (hline : '\n' ∉ c.rest) :
    LineMarks sp.ranges st.ranges c (textMarks (es.flatMap Event.tagged)) st'.ranges := by
  have piece : ∀ (chars : List Char) (range : Option Range) (es : List Event),
      textMarks ((Event.text chars range :: es).flatMap Event.tagged) =
        chars.map (·, .text range) ++ textMarks (es.flatMap Event.tagged) := fun chars range es =>
    textMarks_piece chars range _
  have last : ∀ (chars : List Char) (range : Option Range),
      textMarks ([Event.text chars range].flatMap Event.tagged) = chars.map (·, .text range) := by
    simp [Event.tagged, textMarks, Function.comp_def]
  induction h with
  | closes hend next ih =>
      rw [piece]
      exact lineMarks_closes hline hend (ih (not_mem_advance _ hline))
  | nests hend next ih =>
      rw [piece]
      exact lineMarks_nests hend (ih (not_mem_advance _ hline))
  | stays hend =>
      rw [last]
      exact lineMarks_stays hend
  | ends hrest => exact .ends hrest (by simp)
  | keeps hrest hfind next ih =>
      rw [piece]
      exact lineMarks_mark hfind (ih (not_mem_advance _ hline))
  | drops hrest hfind next ih =>
      have hcopied := lineMarks_mark hfind (ih (not_mem_advance _ hline))
      rw [(take_mark hfind).2, List.map_append, List.append_assoc, ← textMarks_piece] at hcopied
      rw [piece]
      exact hcopied
  | @wholeLine blocks blocks' c kind hrest hfind =>
      have hplain : c.rest.length ≤ plainLength sp c := by
        obtain ⟨-, ⟨hgo, -⟩ | ⟨-, -, -, hafter, -⟩⟩ := find_wholeLine hfind
        · exact absurd hgo hsep
        · exact List.drop_eq_nil_iff.1 hafter
      exact last c.rest none ▸ lineMarks_plain hplain
  | plain hrest hrange hfind =>
      rw [last]
      exact lineMarks_plain (Nat.le_of_eq (plainLength_of_none hrange).symm)
  | opens hrest hrange hfind next ih =>
      rw [piece, piece]
      exact lineMarks_opens hrange (ih (not_mem_advance _ hline))

/-- What the search reads of a line covers it. -/
theorem exists_readNoted_line {line : List Char} (hline : '\n' ∉ line) (st : ScanState)
    (b : Batches) :
    ∃ stretches,
      Batches.readNoted sp [] ⟨line, 0⟩ { b with state := st } =
        pure (stretches, { (scanLine sp st (.ofLine line)).1.foldl (Batches.play sp) b with
          state := (scanLine sp st (.ofLine line)).2 }) ∧
      LineCovered sp.ranges st.ranges line stretches (scanLine sp st (.ofLine line)).2.ranges := by
  have hscan := lineScan_scanLine sp st (.ofLine line)
  obtain ⟨stretches, hlaid, hread⟩ := hscan.exists_readNoted
  exact ⟨stretches, hread [] b, _, hscan.lineMarks_tagged hsep hline, hlaid.covers⟩

/-- So it goes on the lines behind the first one. -/
theorem exists_notedLines {lines : List (List Char)} (hlines : ∀ l ∈ lines, '\n' ∉ l)
    (st : ScanState) {b : Batches} (hfirst : b.firstLine = false) :
    ∃ searches st',
      Batches.notedLines sp { b with state := st } lines =
        pure (searches, { (scanLines sp st lines).foldl (Batches.play sp) b with state := st' }) ∧
      LinesCovered sp.ranges st.ranges lines searches := by
  induction lines generalizing st b with
  | nil => exact ⟨[], st, rfl, .ends⟩
  | cons line lines ih =>
      obtain ⟨hline, hothers⟩ := List.forall_mem_cons.1 hlines
      have hstart : Batches.startLine sp { b with state := st } =
          { b.play sp (.text ['\n'] st.ranges.head?) with state := st } := by
        simp only [Batches.startLine, Batches.play, Batches.emit, hfirst]
        rfl
      obtain ⟨stretches, hread, hcovered⟩ := exists_readNoted_line hsep hline st
        (b.play sp (.text ['\n'] st.ranges.head?))
      obtain ⟨-, hfirst', -⟩ := foldl_play_frame sp
        (.text ['\n'] st.ranges.head? :: (scanLine sp st (.ofLine line)).1) b
      obtain ⟨searches, st', hlater, hcovers⟩ := ih hothers (scanLine sp st (.ofLine line)).2
        (hfirst'.trans hfirst)
      refine ⟨stretches :: searches, st', ?_, .line hcovered hcovers⟩
      rw [Batches.notedLines, hstart, hread, pure_bind]
      dsimp only
      rw [← List.foldl_cons, hlater, pure_bind, ← List.foldl_append]
      rfl

end Cover

/-- Noting what is read changes no round of the loop. With a separator that does not take a comment
with it, the search is called for stretches of each line that are in order and disjoint, and they
hold the characters outside every range and no others, while the batches come out as ever. -/
theorem notedLines_covers (sp : Splitter) (hsep : sp.separator ≠ .go) (script : String) :
    (∀ s, Prod.snd <$> Batches.notedStep sp s = Batches.lineStep sp s) ∧
      ∃ searches b,
        Batches.notedLines sp { lines := [] } (Text.splitOn '\n' script.toList) =
          pure (searches, b) ∧
        (b.flush .statement).ready = sp.split script ∧
        LinesCovered sp.ranges [] (Text.splitOn '\n' script.toList) searches := by
  refine ⟨Batches.map_notedStep sp, ?_⟩
  obtain ⟨line, lines, hsplit⟩ := Text.exists_splitOn '\n' script.toList
  have hlines : ∀ l ∈ line :: lines, '\n' ∉ l := fun l hl =>
    Text.not_mem_of_mem_splitOn (hsplit ▸ hl)
  obtain ⟨hline, hothers⟩ := List.forall_mem_cons.1 hlines
  let started : Batches := { lines := [], firstLine := false }
  obtain ⟨stretches, hread, hcovered⟩ := exists_readNoted_line hsep hline {} started
  obtain ⟨-, hfirst, -⟩ := foldl_play_frame sp (scanLine sp {} (.ofLine line)).1 started
  obtain ⟨searches, st, hlater, hcovers⟩ := exists_notedLines hsep hothers
    (scanLine sp {} (.ofLine line)).2 hfirst
  let last : Batches := { (scan sp script.toList).foldl (Batches.play sp) started with state := st }
  have hscan : scan sp script.toList = (scanLine sp {} (.ofLine line)).1 ++
      scanLines sp (scanLine sp {} (.ofLine line)).2 lines := by
    rw [scan, hsplit]
  have hnoted : Batches.notedLines sp { lines := [] } (line :: lines) =
      pure (stretches :: searches, last) := by
    have hstart : Batches.startLine sp { lines := [] } = { started with state := {} } := rfl
    rw [Batches.notedLines, hstart, hread, pure_bind]
    dsimp only
    rw [hlater, pure_bind, ← List.foldl_append, ← hscan]
  have hready : (last.flush .statement).ready = sp.split script :=
    (ready_foldl_play sp (scan sp script.toList) started).trans (filterMap_batch?_cons ..).symm
  rw [hsplit]
  exact ⟨_, last, hnoted, hready, .line hcovered hcovers⟩

/-- A block with semicolons of its own, one of them in a string, and a comment behind it. -/
theorem notedLines_covers_block :
    let sp := Dialect.oracle.splitter
    let script := "BEGIN x := 'a;'; END; -- b;\n/\nDROP TABLE t;"
    sp.separator ≠ .go ∧ ∃ searches b,
      Batches.notedLines sp { lines := [] } (Text.splitOn '\n' script.toList) =
        pure (searches, b) ∧
      (b.flush .statement).ready = [⟨"BEGIN x := 'a;'; END;", .statement⟩, ⟨"-- b;", .statement⟩,
        ⟨"DROP TABLE t", .statement⟩] ∧
      LinesCovered sp.ranges [] (Text.splitOn '\n' script.toList) searches := by
  intro sp script
  have hsep : sp.separator ≠ .go := by decide
  obtain ⟨searches, b, hnoted, hready, hcovered⟩ := (notedLines_covers sp hsep script).2
  have hsplit : sp.split script = [⟨"BEGIN x := 'a;'; END;", .statement⟩, ⟨"-- b;", .statement⟩,
      ⟨"DROP TABLE t", .statement⟩] := by decide +kernel
  exact ⟨hsep, searches, b, hnoted, hready.trans hsplit, hcovered⟩

end SchemaChange.Script
