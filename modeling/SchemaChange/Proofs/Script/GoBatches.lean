import SchemaChange.Proofs.Script.GoForm

/-!
# Scripts that GO lines divide

A line separates batches if and only if no range is open where it begins and all of it has the
form of a separator. The ranges are those of the automaton that reads the script character by
character; a range that is open at a line break is open where the next line begins.
-/
namespace SchemaChange.Script

/-- A line of a script. -/
structure ScriptLine where
  chars : List Char
  /-- No range is open where the line begins. -/
  outside : Bool
  deriving DecidableEq

/-- For every line break of a text, whether it lies outside the ranges. -/
def breaksOutside (tags : List (Char × Option Range)) : List Bool :=
  (tags.filter (·.1 == '\n')).map (·.2.isNone)

/-- The lines of a script, the first of which begins outside every range. -/
def scriptLines (ranges : List Range) (script : List Char) : List ScriptLine :=
  List.zipWith ScriptLine.mk (Text.splitOn '\n' script)
    (true :: breaksOutside (tagged ranges [] script))

/-- The line ends a batch that is to be run a number of times. -/
structure ScriptLine.Separates (line : ScriptLine) (runs : Nat) : Prop where
  outside : line.outside = true
  form : ∃ digits, GoForm line.chars digits ∧ runs = requestedRuns digits

/-- The batches of some lines, when some text stands between them and the last separator. Text
that is not blank is a batch, trimmed. -/
inductive GoBatches : List Char → List ScriptLine → List Batch → Prop
  | last {text} : GoBatches text [] (batchOf? text .statement).toList
  | separator {text line lines runs batches} (h : line.Separates runs)
      (next : GoBatches [] lines batches) :
      GoBatches text (line :: lines) ((batchOf? text (.separator runs)).toList ++ batches)
  | text {text line lines batches} (h : ∀ runs, ¬ line.Separates runs)
      (next : GoBatches (text ++ '\n' :: line.chars) lines batches) :
      GoBatches text (line :: lines) batches

section Lines

variable {sp : Splitter} {st st' : ScanState} {line digits : List Char} {es : List Event}

theorem LineScan.eq_cut (hsp : GoSplitter sp) (hform : GoForm line digits)
    (hranges : st.ranges = []) (h : LineScan sp st (.ofLine line) es st') :
    es = [.cut line (.separator (requestedRuns digits))] ∧ st'.ranges = [] := by
  obtain ⟨ranges, blocks⟩ := st
  obtain rfl : ranges = [] := hranges
  have htoken := hsp.findToken_eq hform blocks
  cases h with
  | ends hrest =>
      obtain ⟨text, comment, rfl, hne, -⟩ := hform.exists_goText
      exact absurd (List.append_eq_nil_iff.1 hrest).1 hne
  | wholeLine hrest hfind =>
      rw [htoken] at hfind
      cases hfind
      exact ⟨rfl, rfl⟩
  | keeps hrest hfind | drops hrest hfind | plain hrest hrange hfind
  | opens hrest hrange hfind =>
      rw [htoken] at hfind
      cases hfind

/-- Nothing is cut in a line that begins in a range or has another form, nor behind the start of
a line. -/
theorem LineScan.no_cut (hsp : GoSplitter sp) {c : Cursor} (h : LineScan sp st c es st')
    (hother : c.passed ≠ [] ∨ st.ranges ≠ [] ∨ ∀ digits, ¬ GoForm c.rest digits) :
    ∀ separator kind, .cut separator kind ∉ es := by
  -- behind some characters no separator begins, and an empty line is none
  have moved : ∀ {c : Cursor} {n : Nat}, (c.rest ≠ [] → 0 < n) →
      (c.advance n).passed ≠ [] ∨ ∀ digits, ¬ GoForm (c.advance n).rest digits := by
    intro c n hn
    cases hrest : c.rest with
    | nil =>
        right
        intro digits hform
        obtain ⟨text, comment, hline, hne, -⟩ := hform.exists_goText
        rw [Cursor.advance_rest, hrest, List.drop_nil] at hline
        exact hne (List.append_eq_nil_iff.1 hline.symm).1
    | cons d rest =>
        left
        have hpos := hn (by simp [hrest])
        obtain ⟨k, rfl⟩ : ∃ k, n = k + 1 := ⟨n - 1, by omega⟩
        simp [Cursor.advance, hrest]
  have next_cut : ∀ {chars : List Char} {range : Option Range} {es : List Event},
      (∀ separator kind, .cut separator kind ∉ es) →
      ∀ separator kind, .cut separator kind ∉ .text chars range :: es := by
    intro chars range es h separator kind
    simpa using h separator kind
  induction h with
  | @closes r outer blocks c n es st hend next ih =>
      have hstep : c.rest ≠ [] → 0 < n + r.closing.length := by
        intro hne
        cases r with
        | doubled opening closing | plain opening closing isComment | nesting opening closing =>
            have := closing.length_pos
            simp only [Range.closing, Code.length] at this ⊢
            omega
        | lineComment opening atLineStart =>
            cases hend
            have := List.length_pos_iff.2 hne
            omega
      exact next_cut (ih ((moved hstep).imp_right .inr))
  | @nests r outer blocks c n es st hend next ih =>
      exact next_cut (ih (.inr (.inl (List.cons_ne_nil _ _))))
  | stays hend | plain hrest hrange hfind | ends hrest => simp
  | keeps hrest hfind | drops hrest hfind => exact absurd hsp.separator (find_mark hfind).2.1
  | @wholeLine blocks blocks' c kind hrest hfind =>
      obtain ⟨hpassed, ⟨-, count, hcount, rfl, hafter⟩ | ⟨hblocks, -⟩⟩ := find_wholeLine hfind
      · have hgo := goLine_of_goCount? hcount hafter
        rw [plainAt, List.take_append_drop] at hgo
        obtain ⟨digits, hform, -⟩ := exists_goForm hgo
        rcases hother with h | h | h
        · exact absurd hpassed h
        · exact absurd rfl h
        · exact absurd hform (h digits)
      · rw [hsp.separator] at hblocks
        cases hblocks
  | @opens blocks blocks' c n r es st hrest hrange hfind next ih =>
      exact next_cut (next_cut (ih (.inr (.inl (List.cons_ne_nil _ _)))))

/-- Nothing is cut in a line that is no separator. -/
theorem LineScan.no_cut_of_line (hsp : GoSplitter sp) (h : LineScan sp st (.ofLine line) es st')
    (hother : ¬ (st.ranges = [] ∧ ∃ digits, GoForm line digits)) :
    ∀ separator kind, .cut separator kind ∉ es := by
  refine h.no_cut hsp (.inr ?_)
  by_cases hranges : st.ranges = []
  · exact .inr fun digits hform => hother ⟨hranges, digits, hform⟩
  · exact .inl hranges

/-- Texts without a cut are gathered. -/
theorem pieces_append_of_no_cut (hcut : ∀ separator kind, .cut separator kind ∉ es)
    (gathered : List Char) (behind : List Event) :
    pieces gathered (es ++ behind) = pieces (gathered ++ es.flatMap Event.chars) behind := by
  induction es generalizing gathered with
  | nil => simp
  | cons e es ih =>
      have hothers := ih fun separator kind h => hcut separator kind (List.mem_cons_of_mem _ h)
      cases e with
      | text chars range => simp [hothers, Event.chars]
      | cut separator kind => exact absurd (List.mem_cons_self ..) (hcut separator kind)

/-- Two hyphens begin a comment and no other range. -/
theorem GoSplitter.find?_hyphens (hsp : GoSplitter sp) (cs : List Char) :
    sp.ranges.find? (fun r => r.opening.chars.isPrefixOf ('-' :: '-' :: cs)) =
      some dashComment := by
  cases hfind : sp.ranges.find? fun r => r.opening.chars.isPrefixOf ('-' :: '-' :: cs) with
  | none => exact absurd rfl (List.find?_eq_none.1 hfind dashComment hsp.comment)
  | some r =>
      have hmatch := (List.find?_eq_some_iff_append.1 hfind).1
      have hprefix := List.isPrefixOf_iff_prefix.1 hmatch
      cases hopen : r.opening.chars with
      | nil => exact absurd hopen r.opening.ne_nil
      | cons c more =>
          rw [hopen, List.cons_prefix_cons] at hprefix
          have hhead : r.opening.chars.head? = some '-' := by rw [hopen, hprefix.1, List.head?_cons]
          rw [hsp.hyphens r (List.mem_of_find?_eq_some hfind) hhead]

/-- The automaton is outside every range behind a separator, with or without a comment. -/
theorem GoSplitter.tagged_separator (hsp : GoSplitter sp) (hform : GoForm line digits)
    (hline : '\n' ∉ line) : ∃ tags, tags.map Prod.fst = line ∧ ∀ tail, Text.EndsLine tail →
      tagged sp.ranges [] (line ++ tail) = tags ++ tagged sp.ranges [] tail := by
  obtain ⟨text, comment, rfl, -, htext, hcomment⟩ := hform.exists_goText
  have hlength := hsp.plainLength_eq htext.quiet hcomment
  have hplain : ∀ tail, Text.EndsLine tail → tagged sp.ranges [] (text ++ comment ++ tail) =
      text.map (·, none) ++ tagged sp.ranges [] (comment ++ tail) := by
    intro tail ht
    have hcopied := tagged_plain (c := .ofLine (text ++ comment)) hsp.within ht
      (Nat.le_of_eq hlength.symm) (by simp [Cursor.ofLine])
    simpa only [Cursor.ofLine, Cursor.advance_rest, List.take_left, List.drop_left] using hcopied
  rcases hcomment with rfl | ⟨more, rfl⟩
  · exact ⟨text.map (·, none), by simp [Function.comp_def], hplain⟩
  · have hmore : '\n' ∉ more := fun h => hline (by simp [h])
    refine ⟨text.map (·, none) ++ ('-' :: '-' :: more).map (·, some dashComment), ?_,
      fun tail ht => ?_⟩
    · simp [Function.comp_def]
    · have hmove : move sp.ranges [] ('-' :: '-' :: (more ++ tail)) =
          ⟨2, some dashComment, [dashComment]⟩ := by
        rw [move, hsp.find?_hyphens]
        rfl
      have hcomment : tagged sp.ranges [dashComment] (more ++ tail) =
          more.map (·, some dashComment) ++ tagged sp.ranges [] tail := tagged_lineComment hmore ht
      rw [hplain tail ht, List.append_assoc, List.cons_append, List.cons_append, List.nil_append,
        tagged_of_ne_nil _ _ (by simp), hmove]
      simp [hcomment]

theorem Event.map_fst_tagged (e : Event) : e.tagged.map Prod.fst = e.chars := by
  cases e <;> simp [Event.tagged, Event.chars, Function.comp_def]

/-- The scan of a line leaves the ranges open that the automaton leaves open. -/
theorem LineScan.exists_tagged (hsp : GoSplitter sp) (h : LineScan sp st (.ofLine line) es st')
    (hopen : LeftOpen sp st.ranges) (hline : '\n' ∉ line) :
    ∃ tags, tags.map Prod.fst = line ∧ ∀ tail, Text.EndsLine tail →
      Script.tagged sp.ranges st.ranges (line ++ tail) =
        tags ++ Script.tagged sp.ranges st'.ranges tail := by
  by_cases hseparates : st.ranges = [] ∧ ∃ digits, GoForm line digits
  · obtain ⟨hranges, digits, hform⟩ := hseparates
    rw [hranges, (h.eq_cut hsp hform hranges).2]
    exact hsp.tagged_separator hform hline
  · have hcut := h.no_cut_of_line hsp hseparates
    refine ⟨es.flatMap Event.tagged, ?_, fun tail ht => ?_⟩
    · rw [List.map_flatMap]
      simp only [Event.map_fst_tagged]
      exact h.chars
    · exact h.tagged_of_no_cut hsp.within (fun _ => hcut) hopen.known hline ht

end Lines

section Scripts

variable {sp : Splitter}

theorem breaksOutside_newline (range : Option Range) (behind : List (Char × Option Range)) :
    breaksOutside (('\n', range) :: behind) = range.isNone :: breaksOutside behind := rfl

theorem breaksOutside_append {tags : List (Char × Option Range)}
    (hline : '\n' ∉ tags.map Prod.fst) (behind : List (Char × Option Range)) :
    breaksOutside (tags ++ behind) = breaksOutside behind := by
  have hnone : tags.filter (·.1 == '\n') = [] := by
    refine List.filter_eq_nil_iff.2 fun tag htag => ?_
    simp only [beq_iff_eq]
    exact fun h => hline (h ▸ List.mem_map_of_mem htag)
  rw [breaksOutside, List.filter_append, hnone, List.nil_append, breaksOutside]

theorem batchOf?_append_newline (text : List Char) (kind : BatchKind) :
    batchOf? (text ++ ['\n']) kind = batchOf? text kind := by
  have htrimmed : Text.trimmed (text ++ ['\n']) = Text.trimmed text := by
    rw [Text.trimmed, Text.trimStart, List.dropWhile_append, Text.trimmed, Text.trimStart]
    cases hstart : text.dropWhile Text.isBlank with
    | nil => rfl
    | cons c rest => exact (Text.trimEnd_append _ ['\n']).trans (if_pos rfl)
  rw [batchOf?, htrimmed, batchOf?]

/-- A line break before all text changes no batch. -/
theorem batches_pieces_newline (gathered : List Char) (es : List Event) :
    batches (pieces ('\n' :: gathered) es).1 (pieces ('\n' :: gathered) es).2 =
      batches (pieces gathered es).1 (pieces gathered es).2 := by
  have hblank : ∀ text kind, batchOf? ('\n' :: text) kind = batchOf? text kind := by
    intro text kind
    rw [batchOf?, Text.trimmed_cons_blank rfl, batchOf?]
  induction es generalizing gathered with
  | nil => simp [pieces, hblank]
  | cons e es ih =>
      cases e with
      | text chars range => exact ih (gathered ++ chars)
      | cut separator kind => simp [hblank]

/-- The first of some lines begins where a range is open or not, and the others behind it. -/
theorem breaksOutside_lines (hsp : GoSplitter sp) {st : ScanState} (hopen : LeftOpen sp st.ranges)
    {line : List Char} (hline : '\n' ∉ line) (lines : List (List Char)) :
    breaksOutside (tagged sp.ranges st.ranges ((line :: lines).flatMap ('\n' :: ·))) =
      st.ranges.isEmpty :: breaksOutside
        (tagged sp.ranges (scanLine sp st (.ofLine line)).2.ranges (lines.flatMap ('\n' :: ·))) := by
  obtain ⟨tags, htags, hread⟩ :=
    (lineScan_scanLine sp st (.ofLine line)).exists_tagged hsp hopen hline
  rw [List.flatMap_cons, List.cons_append, tagged_newline hsp.within hopen,
    hread _ (Text.endsLine_lines lines), breaksOutside_newline, breaksOutside_append (htags ▸ hline)]
  cases st.ranges <;> rfl

/-- The pieces of the lines behind some text are the batches between the separators. -/
theorem goBatches_scanLines (hsp : GoSplitter sp) {st : ScanState} (hopen : LeftOpen sp st.ranges)
    {lines : List (List Char)} (hlines : ∀ line ∈ lines, '\n' ∉ line) (gathered : List Char) :
    GoBatches gathered
      (List.zipWith ScriptLine.mk lines
        (breaksOutside (tagged sp.ranges st.ranges (lines.flatMap ('\n' :: ·)))))
      (batches (pieces gathered (scanLines sp st lines)).1
        (pieces gathered (scanLines sp st lines)).2) := by
  induction lines generalizing st gathered with
  | nil => exact .last
  | cons line lines ih =>
      have hline := hlines line (List.mem_cons_self ..)
      have hothers := fun l hl => hlines l (List.mem_cons_of_mem _ hl)
      have hscan := lineScan_scanLine sp st (.ofLine line)
      have hnext := ih (hscan.leftOpen hopen.known) hothers
      rw [breaksOutside_lines hsp hopen hline, List.zipWith_cons_cons]
      by_cases hseparates : st.ranges = [] ∧ ∃ digits, GoForm line digits
      · obtain ⟨hranges, digits, hform⟩ := hseparates
        obtain ⟨hes, hst⟩ := hscan.eq_cut hsp hform hranges
        have hpieces : pieces gathered (scanLines sp st (line :: lines)) =
            (⟨gathered ++ ['\n'], line, .separator (requestedRuns digits)⟩ ::
              (pieces [] (scanLines sp (scanLine sp st (.ofLine line)).2 lines)).1,
              (pieces [] (scanLines sp (scanLine sp st (.ofLine line)).2 lines)).2) := by
          simp [scanLines, hes]
        rw [hpieces, batches_cons, batchOf?_append_newline]
        have hrun : ScriptLine.Separates ⟨line, st.ranges.isEmpty⟩ (requestedRuns digits) :=
          ⟨by simp [hranges], digits, hform, rfl⟩
        exact .separator hrun (hnext [])
      · have hcut := hscan.no_cut_of_line hsp hseparates
        have hpieces : pieces gathered (scanLines sp st (line :: lines)) =
            pieces (gathered ++ '\n' :: line)
              (scanLines sp (scanLine sp st (.ofLine line)).2 lines) := by
          simp only [scanLines, List.cons_append, pieces_text, pieces_append_of_no_cut hcut,
            hscan.chars, List.append_assoc]
          rfl
        rw [hpieces]
        refine .text (fun runs hruns => ?_) (hnext _)
        obtain ⟨digits, hform, -⟩ := hruns.form
        exact hseparates ⟨List.isEmpty_iff.1 hruns.outside, digits, hform⟩

/-- The batches of a script are those between its separators. -/
theorem goBatches_scan (hsp : GoSplitter sp) (script : List Char) :
    GoBatches [] (scriptLines sp.ranges script)
      (batches (scanPieces sp script).1 (scanPieces sp script).2) := by
  obtain ⟨line, lines, hsplit⟩ := Text.exists_splitOn '\n' script
  have hlines : ∀ l ∈ line :: lines, '\n' ∉ l := fun l hl =>
    Text.not_mem_of_mem_splitOn (hsplit ▸ hl)
  -- the script as if it stood behind a line break
  have hopen : LeftOpen sp ({} : ScanState).ranges := leftOpen_nil sp
  have hbatches := goBatches_scanLines hsp hopen hlines []
  have hscript : (line :: lines).flatMap ('\n' :: ·) = '\n' :: script := by
    rw [Text.splitOn_flatten hsplit]
    rfl
  have hscan : scanLines sp {} (line :: lines) = .text ['\n'] none :: scan sp script := by
    rw [scan, hsplit]
    rfl
  rw [hscript, hscan, pieces_text, List.nil_append, batches_pieces_newline,
    tagged_newline hsp.within (leftOpen_nil sp), breaksOutside_newline] at hbatches
  rw [scriptLines, hsplit]
  exact hbatches

end Scripts

section Exactness

theorem ScriptLine.Separates.unique {line : ScriptLine} {runs runs' : Nat}
    (h : line.Separates runs) (h' : line.Separates runs') : runs = runs' := by
  obtain ⟨digits, hform, rfl⟩ := h.form
  obtain ⟨digits', hform', rfl⟩ := h'.form
  -- both are what the scan of the line finds
  have hsp : GoSplitter (Dialect.sqlServer.splitter.withStripComments false) := goSplitter rfl false
  have htoken := (hsp.findToken_eq hform {}).symm.trans (hsp.findToken_eq hform' {})
  simpa using htoken

theorem GoBatches.unique {text : List Char} {lines : List ScriptLine} {bs bs' : List Batch}
    (h : GoBatches text lines bs) (h' : GoBatches text lines bs') : bs = bs' := by
  induction h generalizing bs' with
  | last =>
      cases h'
      rfl
  | @separator text line lines runs batches hruns next ih =>
      cases h' with
      | separator hruns' next' => rw [hruns.unique hruns', ih next']
      | text hother next' => exact absurd hruns (hother runs)
  | text hother next ih =>
      cases h' with
      | separator hruns' next' => exact absurd hruns' (hother _)
      | text hother' next' => exact ih next'

end Exactness

section Counts

/-- Every separator asks for a run. -/
theorem LineScan.one_le_repeatCount {sp : Splitter} {st st' : ScanState} {c : Cursor}
    {es : List Event} (h : LineScan sp st c es st') {separator : List Char} {kind : BatchKind}
    (hcut : .cut separator kind ∈ es) : 1 ≤ kind.repeatCount := by
  induction h with
  | closes hend next ih | nests hend next ih => exact ih (by simpa using hcut)
  | stays hend | ends hrest | plain hrest hrange hfind => simp at hcut
  | keeps hrest hfind next ih | drops hrest hfind next ih =>
      simp only [List.mem_cons, reduceCtorEq, Event.cut.injEq, false_or] at hcut
      rcases hcut with ⟨-, rfl⟩ | hcut
      · exact Nat.le_refl 1
      · exact ih hcut
  | opens hrest hrange hfind next ih => exact ih (by simpa using hcut)
  | wholeLine hrest hfind =>
      simp only [List.mem_singleton, Event.cut.injEq] at hcut
      obtain ⟨-, rfl⟩ := hcut
      obtain ⟨-, ⟨-, count, hcount, rfl, -⟩ | ⟨-, -, rfl, -⟩⟩ := find_wholeLine hfind
      · obtain ⟨digits, -, rfl⟩ := exists_goForm (goLine_of_goCount? hcount (.inl rfl))
        exact one_le_requestedRuns digits
      · exact Nat.le_refl 1

theorem one_le_repeatCount_scan {sp : Splitter} {script separator : List Char} {kind : BatchKind}
    (hcut : .cut separator kind ∈ scan sp script) : 1 ≤ kind.repeatCount := by
  have hlines : ∀ st lines, .cut separator kind ∈ scanLines sp st lines →
      1 ≤ kind.repeatCount := by
    intro st lines hmem
    induction lines generalizing st with
    | nil => cases hmem
    | cons line lines ih =>
        simp only [scanLines, List.cons_append, List.mem_cons, reduceCtorEq, false_or,
          List.mem_append] at hmem
        exact hmem.elim (lineScan_scanLine sp st (.ofLine line)).one_le_repeatCount (ih _)
  unfold scan at hcut
  split at hcut
  · cases hcut
  · rename_i line lines _
    exact (List.mem_append.1 hcut).elim
      (lineScan_scanLine sp {} (.ofLine line)).one_le_repeatCount (hlines _ lines)

/-- Every part of a script ends with the script or with a cut. -/
theorem kind_of_mem_parts {es : List Event} {part : Part}
    (h : part ∈ (parts es).1 :: (parts es).2) :
    part.kind = .statement ∨ ∃ separator, .cut separator part.kind ∈ es := by
  induction es generalizing part with
  | nil =>
      obtain rfl : part = ⟨[], .statement⟩ := by simpa [parts] using h
      exact .inl rfl
  | cons e es ih =>
      have later : ∀ {p : Part}, p ∈ (parts es).1 :: (parts es).2 →
          p.kind = .statement ∨ ∃ separator, .cut separator p.kind ∈ e :: es := by
        intro p hp
        rcases ih hp with hkind | ⟨separator, hmem⟩
        · exact .inl hkind
        · exact .inr ⟨separator, List.mem_cons_of_mem _ hmem⟩
      cases e with
      | text chars range =>
          rcases List.mem_cons.1 h with rfl | h
          · exact later (p := (parts es).1) (List.mem_cons_self ..)
          · exact later (List.mem_cons_of_mem _ h)
      | cut separator kind =>
          rcases List.mem_cons.1 h with rfl | h
          · exact .inr ⟨separator, List.mem_cons_self ..⟩
          · exact later h

/-- Every batch of every script is run at least once. -/
theorem one_le_repeatCount_split (sp : Splitter) (script : String) :
    ∀ b ∈ sp.split script, 1 ≤ b.repeatCount := by
  intro b hb
  obtain ⟨part, hpart, hbatch⟩ := List.mem_filterMap.1 hb
  have hkind : b.kind = part.kind := by
    unfold Part.batch? at hbatch
    split at hbatch
    · cases hbatch
    · cases hbatch
      rfl
  rw [Batch.repeatCount, hkind]
  rcases kind_of_mem_parts hpart with h | ⟨separator, hcut⟩
  · rw [h]
    exact Nat.le_refl 1
  · exact one_le_repeatCount_scan hcut

end Counts

/-- In the dialects with GO lines, and with comments kept, the batches of a script are exactly
those between its separators. Every batch is run at least once. -/
theorem split_eq_iff_goBatches (d : Dialect) (hd : d.splitter.separator = .go) (script : String) :
    (∀ bs, (d.splitter.withStripComments false).split script = bs ↔
      GoBatches [] (scriptLines d.splitter.ranges script.toList) bs) ∧
    ∀ stripComments, ∀ b ∈ (d.splitter.withStripComments stripComments).split script,
      1 ≤ b.repeatCount := by
  have hbatches : GoBatches [] (scriptLines d.splitter.ranges script.toList)
      ((d.splitter.withStripComments false).split script) := by
    rw [split_eq_batches _ rfl]
    exact goBatches_scan (goSplitter hd false) script.toList
  refine ⟨fun bs => ⟨?_, fun h => hbatches.unique h⟩,
    fun stripComments => one_le_repeatCount_split _ script⟩
  rintro rfl
  exact hbatches

/-- A string holds the first line with GO, a comment the last one; the others ask for five runs,
for none, and for more than fit. -/
theorem split_eq_iff_goBatches_counts :
    let script := "a 'b\nGO\n'\n go\t5 -- c\nd\nGO 0\ne\nGo 4294967296 \nf /*\nGO\n*/"
    Dialect.sqlServer.splitter.separator = .go ∧
      GoBatches [] (scriptLines Dialect.sqlServer.splitter.ranges script.toList)
        [⟨"a 'b\nGO\n'", .separator 5⟩, ⟨"d", .separator 1⟩, ⟨"e", .separator 1⟩,
          ⟨"f /*\nGO\n*/", .statement⟩] := by
  intro script
  have hsplit : (Dialect.sqlServer.splitter.withStripComments false).split script =
      [⟨"a 'b\nGO\n'", .separator 5⟩, ⟨"d", .separator 1⟩, ⟨"e", .separator 1⟩,
        ⟨"f /*\nGO\n*/", .statement⟩] := by decide +kernel
  exact ⟨rfl, ((split_eq_iff_goBatches .sqlServer rfl script).1 _).1 hsplit⟩

end SchemaChange.Script
