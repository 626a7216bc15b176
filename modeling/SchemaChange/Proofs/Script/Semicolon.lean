import SchemaChange.Proofs.Script.Pieces
import SchemaChange.Proofs.Script.Seams

/-!
# Scripts that semicolons divide

Where a semicolon ends a statement, the scan line by line finds exactly the semicolons that
the automaton leaves outside every range.
-/
namespace SchemaChange.Script

/-- The ranges that can be open behind a line: ranges of the splitter, and no line comment
innermost. -/
structure LeftOpen (sp : Splitter) (stack : List Range) : Prop where
  known : ∀ r ∈ stack, r ∈ sp.ranges
  lasting : ∀ code atLineStart outer, stack ≠ .lineComment code atLineStart :: outer

theorem leftOpen_nil (sp : Splitter) : LeftOpen sp [] := ⟨by simp, by simp⟩

theorem LineScan.leftOpen {sp : Splitter} {st st' : ScanState} {c : Cursor}
    {es : List Event} (h : LineScan sp st c es st') (hopen : ∀ r ∈ st.ranges, r ∈ sp.ranges) :
    LeftOpen sp st'.ranges := by
  induction h with
  | closes hend next ih => exact ih fun r hr => hopen r (List.mem_cons_of_mem _ hr)
  | nests hend next ih => exact ih (by simpa using hopen)
  | stays hend =>
      refine ⟨hopen, fun code atLineStart outer he => ?_⟩
      obtain ⟨rfl, -⟩ := List.cons.inj he
      cases hend
  | keeps hrest hfind next ih | drops hrest hfind next ih => exact ih hopen
  | ends hrest | wholeLine hrest hfind | plain hrest hrange hfind => exact leftOpen_nil sp
  | opens hrest hrange hfind next ih =>
      obtain ⟨-, before, after, hsplit, -⟩ := firstRange?_eq_some hrange
      exact ih (by simp [hsplit])

section Tagged

variable {sp : Splitter}

/-- A line break changes nothing. -/
theorem tagged_newline (hranges : ∀ r ∈ sp.ranges, r.WithinLines) {stack : List Range}
    (hopen : LeftOpen sp stack) (cs : List Char) :
    tagged sp.ranges stack ('\n' :: cs) =
      ('\n', stack.head?) :: tagged sp.ranges stack cs :=
  tagged_foreign (foreign_newline hranges) hopen.known (fun _ => hopen.lasting) cs

theorem scanLines_tagged (hranges : ∀ r ∈ sp.ranges, r.WithinLines)
    (hsep : sp.separator ≠ .go) {st : ScanState} (hopen : LeftOpen sp st.ranges)
    {lines : List (List Char)} (hlines : ∀ line ∈ lines, '\n' ∉ line) :
    (scanLines sp st lines).flatMap Event.tagged =
      tagged sp.ranges st.ranges (lines.flatMap ('\n' :: ·)) := by
  induction lines generalizing st with
  | nil => simp [scanLines]
  | cons line lines ih =>
      have hscan := lineScan_scanLine sp st (.ofLine line)
      have hothers := ih (hscan.leftOpen hopen.known)
        (fun l hl => hlines l (List.mem_cons_of_mem _ hl))
      rw [List.flatMap_cons, List.cons_append, tagged_newline hranges hopen]
      have hline := hscan.tagged hranges hsep hopen.known
        (hlines line (List.mem_cons_self ..)) (Text.endsLine_lines lines)
      simp only [Cursor.ofLine] at hline hothers
      rw [hline, scanLines, ← hothers]
      simp [Event.tagged, Cursor.ofLine]

/-- The events of a scan give every character the range that the automaton gives it. -/
theorem scan_tagged (hranges : ∀ r ∈ sp.ranges, r.WithinLines) (hsep : sp.separator ≠ .go)
    (script : List Char) :
    (scan sp script).flatMap Event.tagged = tagged sp.ranges [] script := by
  obtain ⟨line, lines, hsplit⟩ := Text.exists_splitOn '\n' script
  have hlines : ∀ l ∈ line :: lines, '\n' ∉ l := fun l hl =>
    Text.not_mem_of_mem_splitOn (hsplit ▸ hl)
  have hscan := lineScan_scanLine sp {} (.ofLine line)
  have hline := hscan.tagged hranges hsep (by simp) (hlines line (List.mem_cons_self ..))
    (Text.endsLine_lines lines)
  rw [← scanLines_tagged hranges hsep (hscan.leftOpen (by simp))
    (fun l hl => hlines l (List.mem_cons_of_mem _ hl)), ← List.flatMap_append] at hline
  simp only [scan, hsplit]
  rw [← hline, Text.splitOn_flatten hsplit]
  rfl

end Tagged

/-- An event of a scan for semicolons: no semicolon is left outside the ranges, and every cut
drops one. -/
def Event.MarksSemicolons : Event → Prop
  | text chars range => range = none → ';' ∉ chars
  | cut separator kind => separator = [';'] ∧ kind = .statement

section Marks

variable {sp : Splitter} {blocks blocks' : BlockState} {c : Cursor}

theorem findToken_semicolon_some (hsep : sp.separator = .semicolon) {token : Token}
    (h : findToken sp blocks c = (blocks', some token)) :
    ∃ n, token = .mark n false ∧ ';' ∉ c.rest.take n := by
  rw [findToken, hsep] at h
  obtain ⟨n, hn, he⟩ := Option.map_eq_some_iff.1 (congrArg Prod.snd h)
  obtain ⟨hlt, -, hbefore⟩ := List.findIdx?_eq_some_iff_getElem.1 hn
  refine ⟨n, he.symm, fun hmem => ?_⟩
  obtain ⟨m, hm, hget⟩ := List.mem_take_iff_getElem.1 hmem
  simp only [plainAt, List.length_take] at hlt hbefore
  have := hbefore m (by omega)
  simp [hget] at this

theorem findToken_semicolon_none (hsep : sp.separator = .semicolon)
    (h : findToken sp blocks c = (blocks', none)) : ';' ∉ c.rest.take (plainLength sp c) := by
  rw [findToken, hsep] at h
  have hnone := Option.map_eq_none_iff.1 (congrArg Prod.snd h)
  intro hmem
  simpa using List.findIdx?_eq_none_iff.1 hnone _ hmem

end Marks

theorem LineScan.marksSemicolons {sp : Splitter} (hsep : sp.separator = .semicolon)
    {st st' : ScanState} {c : Cursor} {es : List Event} (h : LineScan sp st c es st') :
    ∀ e ∈ es, e.MarksSemicolons := by
  induction h with
  | closes hend next ih | nests hend next ih => simpa [Event.MarksSemicolons] using ih
  | stays hend => simp [Event.MarksSemicolons]
  | ends hrest => simp
  | keeps hrest hfind next ih | wholeLine hrest hfind =>
      obtain ⟨n, he, -⟩ := findToken_semicolon_some hsep hfind
      cases he
  | drops hrest hfind next ih =>
      obtain ⟨n, he, hbefore⟩ := findToken_semicolon_some hsep hfind
      cases he
      simpa [Event.MarksSemicolons, hbefore] using ih
  | @plain blocks blocks' c hrest hrange hfind =>
      have hnone := findToken_semicolon_none hsep hfind
      rw [plainLength, hrange] at hnone
      simpa [Event.MarksSemicolons] using hnone
  | @opens blocks blocks' c n r es st hrest hrange hfind next ih =>
      have hnone := findToken_semicolon_none hsep hfind
      rw [plainLength, hrange] at hnone
      simpa [Event.MarksSemicolons] using ⟨hnone, ih⟩

theorem scan_marksSemicolons {sp : Splitter} (hsep : sp.separator = .semicolon)
    (script : List Char) : ∀ e ∈ scan sp script, e.MarksSemicolons := by
  have hlines : ∀ st lines, ∀ e ∈ scanLines sp st lines, e.MarksSemicolons := by
    intro st lines
    induction lines generalizing st with
    | nil => simp [scanLines]
    | cons line lines ih =>
        simp only [scanLines, List.cons_append, List.forall_mem_cons, List.forall_mem_append]
        exact ⟨by simp [Event.MarksSemicolons],
          (lineScan_scanLine sp st (.ofLine line)).marksSemicolons hsep, ih _⟩
  unfold scan
  split
  · simp
  · rename_i line lines _
    simp only [List.forall_mem_append]
    exact ⟨(lineScan_scanLine sp {} (.ofLine line)).marksSemicolons hsep, hlines _ lines⟩

/-- The pieces of such a scan lie between the semicolons outside the ranges. -/
theorem pieces_marksSemicolons {es : List Event} (h : ∀ e ∈ es, e.MarksSemicolons)
    {first : List (Char × Option Range)} {others : List (List (Char × Option Range))}
    (hsplit : Text.splitOn (';', none) (es.flatMap Event.tagged) = first :: others)
    (gathered : List Char) :
    (pieces gathered es).1.map Cut.piece ++ [(pieces gathered es).2] =
        (gathered ++ first.map Prod.fst) :: others.map (·.map Prod.fst) ∧
      ∀ cut ∈ (pieces gathered es).1, cut.kind = .statement := by
  induction es generalizing first others gathered with
  | nil =>
      cases hsplit
      simp [pieces]
  | cons e es ih =>
      obtain ⟨part, parts, hparts⟩ := Text.exists_splitOn (';', none) (es.flatMap Event.tagged)
      have hes := fun e he => h e (List.mem_cons_of_mem _ he)
      rw [List.flatMap_cons] at hsplit
      cases e with
      | text chars range =>
          have htext : (';', none) ∉ (Event.text chars range).tagged := by
            have hchars : range = none → ';' ∉ chars := h _ (List.mem_cons_self ..)
            simp only [Event.tagged, List.mem_map, Prod.mk.injEq, not_exists, not_and]
            exact fun c hc he hr => hchars hr (he ▸ hc)
          rw [Text.splitOn_append htext hparts] at hsplit
          obtain ⟨rfl, rfl⟩ := List.cons.inj hsplit
          simpa [Event.tagged, Function.comp_def] using ih hes hparts (gathered ++ chars)
      | cut separator kind =>
          obtain ⟨rfl, rfl⟩ := h _ (List.mem_cons_self ..)
          obtain ⟨hpieces, hkinds⟩ := ih hes hparts []
          have hcut : (Event.cut [';'] .statement).tagged = [(';', none)] := rfl
          rw [hcut, List.singleton_append, Text.splitOn_cons hparts, if_pos rfl] at hsplit
          obtain ⟨rfl, rfl⟩ := List.cons.inj hsplit
          simpa [hpieces] using hkinds

/-- The batches that the automaton finds: the text between two semicolons outside every range
is a piece, and the pieces that are not blank are trimmed. -/
def automatonBatches (ranges : List Range) (script : List Char) : List Batch :=
  ((Text.splitOn (';', none) (tagged ranges [] script)).map (·.map Prod.fst)).filterMap
    (batchOf? · .statement)

theorem Splitter.split_of_semicolon {sp : Splitter} (hsep : sp.separator = .semicolon)
    (hstrip : sp.stripComments = false) (hranges : ∀ r ∈ sp.ranges, r.WithinLines)
    (script : String) : sp.split script = automatonBatches sp.ranges script.toList := by
  obtain ⟨first, others, hsplit⟩ :=
    Text.exists_splitOn (';', none) (tagged sp.ranges [] script.toList)
  have hevents := hsplit
  rw [← scan_tagged hranges (by simp [hsep])] at hevents
  obtain ⟨hpieces, hkinds⟩ :=
    pieces_marksSemicolons (scan_marksSemicolons hsep script.toList) hevents []
  rw [split_eq_batches sp hstrip, scanPieces, batches_of_statements hkinds, hpieces,
    automatonBatches, hsplit]
  rfl

/-- In the dialects whose statements end with semicolons, and with comments kept, the batches
of a script are those that the automaton finds. -/
theorem split_eq_automatonBatches (d : Dialect) (hd : d.splitter.separator = .semicolon)
    (script : String) : (d.splitter.withStripComments false).split script =
      automatonBatches d.splitter.ranges script.toList :=
  (d.splitter.withStripComments false).split_of_semicolon hd rfl (withinLines_splitter d) script

theorem split_eq_automatonBatches_hana :
    Dialect.hana.splitter.separator = .semicolon ∧
      (Dialect.hana.splitter.withStripComments false).split "a ';' --;\n; \"b\"\";\";;" =
        [⟨"a ';' --;", .statement⟩, ⟨"\"b\"\";\"", .statement⟩] :=
  ⟨rfl, (split_eq_automatonBatches .hana rfl _).trans (by decide +kernel)⟩

end SchemaChange.Script
