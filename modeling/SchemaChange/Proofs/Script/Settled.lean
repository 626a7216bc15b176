import SchemaChange.Proofs.Script.Calm
import SchemaChange.Proofs.Script.Excerpt

/-!
# Batches are settled

A batch is split no further: split by itself it comes back alone. Between semicolons nothing is
left to cut. Between GO lines no line that begins outside the ranges separates, and neither does
one of the lines that trimming shortens.
-/
namespace SchemaChange.Script

section Semicolons

variable {d : Dialect} {script : String} {b : Batch}

/-- A text without a semicolon outside the ranges is one piece. -/
theorem automatonBatches_of_not_mem {ranges : List Range} {cs : List Char}
    (h : (';', none) ∉ tagged ranges [] cs) :
    automatonBatches ranges cs = (batchOf? cs .statement).toList := by
  rw [automatonBatches, Text.splitOn_of_not_mem h, List.map_singleton, tagged_chars]
  cases hbatch : batchOf? cs .statement <;> simp [hbatch]

/-- The text of a batch is that of its piece without the blanks on both sides. -/
theorem exists_of_batchOf? {piece : List Char} {kind : BatchKind}
    (h : batchOf? piece kind = some b) :
    b.sql.toList = Text.trimmed piece ∧ b.sql.toList ≠ [] ∧ b.kind = kind := by
  rw [batchOf?] at h
  split at h
  · cases h
  · rename_i hne
    cases h
    rw [String.toList_ofList]
    exact ⟨rfl, hne, rfl⟩

/-- A trimmed text is its own batch. -/
theorem batchOf?_sql {piece : List Char} {kind : BatchKind} (h : batchOf? piece kind = some b) :
    batchOf? b.sql.toList .statement = some ⟨b.sql, .statement⟩ := by
  obtain ⟨htrim, hne, -⟩ := exists_of_batchOf? h
  have hself : Text.trimmed b.sql.toList = b.sql.toList := by rw [htrim, Text.trimmed_trimmed]
  rw [batchOf?_of_trimmed hself hne, String.ofList_toList]

theorem automatonBatches_of_mem (hb : b ∈ automatonBatches d.splitter.ranges script.toList) :
    automatonBatches d.splitter.ranges b.sql.toList = [⟨b.sql, .statement⟩] := by
  obtain ⟨chars, hchars, hbatch⟩ := List.mem_filterMap.1 hb
  obtain ⟨piece, hpiece, rfl⟩ := List.mem_map.1 hchars
  have hsemi : (';', none) ∉ piece := Text.not_mem_of_mem_splitOn hpiece
  have hread := tagged_of_mem_splitOn (foreign_semicolon d) (by decide) hpiece
  obtain ⟨lead, trail, -, -, htrimmed⟩ := exists_tagged_trimmed d (piece.map Prod.fst)
  rw [hread, ← (exists_of_batchOf? hbatch).1] at htrimmed
  have hnone : (';', none) ∉ tagged d.splitter.ranges [] b.sql.toList := by
    intro hmem
    rw [htrimmed] at hsemi
    exact hsemi (List.mem_append_right _ (List.mem_append_left _ hmem))
  rw [automatonBatches_of_not_mem hnone, batchOf?_sql hbatch]
  rfl

end Semicolons

section Lines

variable {sp : Splitter} {text : List Char} {tags : List (Char × Option Range)} {bs : List Batch}

/-- A text that is read so before the end of its line is read so by itself. -/
theorem Calm.of_read {ranges left : List Range} (h : Calm tags)
    (hread : ∀ tail, Text.EndsLine tail →
      tagged ranges [] (text ++ tail) = tags ++ tagged ranges left tail) :
    Calm (tagged ranges [] text) := by
  have hself := hread [] Text.endsLine_nil
  rw [tagged_nil, List.append_nil, List.append_nil] at hself
  exact hself ▸ h

/-- Between the separators stand texts in which no line separates. -/
theorem exists_calm_of_goBatches (hsp : GoSplitter sp) {st : ScanState}
    (hopen : LeftOpen sp st.ranges) {lines : List (List Char)}
    (hlines : ∀ line ∈ lines, '\n' ∉ line)
    (hread : ∀ tail, Text.EndsLine tail →
      tagged sp.ranges [] (text ++ tail) = tags ++ tagged sp.ranges st.ranges tail)
    (hcalm : Calm tags)
    (h : GoBatches text (List.zipWith ScriptLine.mk lines
      (breaksOutside (tagged sp.ranges st.ranges (lines.flatMap ('\n' :: ·))))) bs) :
    ∀ b ∈ bs, ∃ piece kind, batchOf? piece kind = some b ∧ Calm (tagged sp.ranges [] piece) := by
  induction lines generalizing st text tags bs with
  | nil =>
      cases h with
      | last =>
          intro b hb
          exact ⟨text, .statement, Option.mem_toList.1 hb, hcalm.of_read hread⟩
  | cons line lines ih =>
      obtain ⟨hline, hothers⟩ := List.forall_mem_cons.1 hlines
      have hscan := lineScan_scanLine sp st (.ofLine line)
      have hleft := hscan.leftOpen hopen.known
      rw [breaksOutside_lines hsp hopen hline, List.zipWith_cons_cons] at h
      cases h with
      | @separator _ _ _ runs _ hruns hbatches =>
          -- behind a separator nothing has gathered and nothing is open
          obtain ⟨digits, hform, -⟩ := hruns.form
          obtain ⟨-, hclosed⟩ := hscan.eq_cut hsp hform (List.isEmpty_iff.1 hruns.outside)
          have hnothing : ∀ tail, Text.EndsLine tail → tagged sp.ranges [] ([] ++ tail) =
              [] ++ tagged sp.ranges (scanLine sp st (.ofLine line)).2.ranges tail := by
            intro tail _
            rw [hclosed]
            rfl
          have hlater := ih hleft hothers hnothing calm_nil hbatches
          refine List.forall_mem_append.2 ⟨fun b hb => ?_, hlater⟩
          exact ⟨text, .separator runs, Option.mem_toList.1 hb, hcalm.of_read hread⟩
      | text hother hbatches =>
          obtain ⟨next, hchars, hnext⟩ := hscan.exists_tagged hsp hopen hline
          have hgathered : ∀ tail, Text.EndsLine tail →
              tagged sp.ranges [] (text ++ '\n' :: line ++ tail) =
                (tags ++ ('\n', st.ranges.head?) :: next) ++
                  tagged sp.ranges (scanLine sp st (.ofLine line)).2.ranges tail := by
            intro tail htail
            rw [List.append_assoc, List.cons_append, hread _ (Text.endsLine_newline _),
              tagged_newline hsp.within hopen, hnext tail htail, List.append_assoc,
              List.cons_append]
          have hbegins : st.ranges.head? = none → ¬ BeginsSeparated (next.map Prod.fst) := by
            rintro hhead ⟨digits, hform⟩
            have hself : line.takeWhile (· != '\n') = line := by
              simpa using Text.takeWhile_line hline []
            rw [hchars, hself] at hform
            have houtside := List.isEmpty_iff.2 (List.head?_eq_none_iff.1 hhead)
            exact hother _ ⟨houtside, digits, hform, rfl⟩
          exact ih hleft hothers hgathered (hcalm.newline (hchars ▸ hline) hbegins) hbatches

/-- Every batch is what is left of a text in which no line separates. -/
theorem exists_calm_of_mem (hsp : GoSplitter sp) {script : List Char} {b : Batch}
    (hb : b ∈ batches (scanPieces sp script).1 (scanPieces sp script).2) :
    ∃ piece kind, batchOf? piece kind = some b ∧ Calm (tagged sp.ranges [] piece) := by
  obtain ⟨line, lines, hsplit⟩ := Text.exists_splitOn '\n' script
  have hlines : ∀ l ∈ line :: lines, '\n' ∉ l := fun l hl =>
    Text.not_mem_of_mem_splitOn (hsplit ▸ hl)
  -- the script as if it stood behind a line break
  have hopen : LeftOpen sp ({} : ScanState).ranges := leftOpen_nil sp
  have hscript : (line :: lines).flatMap ('\n' :: ·) = '\n' :: script := by
    rw [Text.splitOn_flatten hsplit]
    rfl
  have hbreaks : breaksOutside (tagged sp.ranges [] ('\n' :: script)) =
      true :: breaksOutside (tagged sp.ranges [] script) :=
    congrArg breaksOutside (tagged_newline hsp.within hopen script)
  have hbatches := goBatches_scan hsp script
  rw [scriptLines, hsplit, ← hbreaks, ← hscript] at hbatches
  exact exists_calm_of_goBatches hsp hopen hlines (fun tail _ => rfl) calm_nil hbatches b hb

/-- Without the blanks on both sides a calm text is as calm. -/
theorem Calm.trimmed {d : Dialect} {cs : List Char} (h : Calm (tagged d.splitter.ranges [] cs)) :
    Calm (tagged d.splitter.ranges [] (Text.trimmed cs)) := by
  obtain ⟨lead, trail, hlead, htrail, hcs⟩ := exists_tagged_trimmed d cs
  rw [hcs] at h
  exact (h.drop hlead).take htrail

theorem split_of_mem_go {d : Dialect} (hd : d.splitter.separator = .go) {script : String}
    {b : Batch} (hb : b ∈ (d.splitter.withStripComments false).split script) :
    (d.splitter.withStripComments false).split b.sql = [⟨b.sql, .statement⟩] := by
  rw [split_eq_batches _ rfl] at hb
  obtain ⟨piece, kind, hpiece, hcalm⟩ := exists_calm_of_mem (goSplitter hd false) hb
  have hsettled : Calm (tagged d.splitter.ranges [] b.sql.toList) := by
    rw [(exists_of_batchOf? hpiece).1]
    exact Calm.trimmed hcalm
  rw [hsettled.split hd, batchOf?_sql hpiece]
  rfl

end Lines

/-- In every dialect without blocks, and with comments kept, a batch of a script comes back alone
when it is split. -/
theorem split_of_mem_split (d : Dialect) (hd : d ≠ .oracle) (script : String) {b : Batch}
    (hb : b ∈ (d.splitter.withStripComments false).split script) :
    (d.splitter.withStripComments false).split b.sql = [⟨b.sql, .statement⟩] := by
  cases hsep : d.splitter.separator with
  | go => exact split_of_mem_go hsep hb
  | semicolon =>
      rw [split_eq_automatonBatches d hsep] at hb ⊢
      exact automatonBatches_of_mem hb
  | blocks =>
      cases d with
      | oracle => exact absurd rfl hd
      | _ => cases hsep

/-- A batch that begins with a comment and ends in a string that is never closed. -/
theorem split_of_mem_split_openString :
    let script := "a\n go 3 -- b\n /*\nGO\n*/ c 'd\nGO\n"
    let b : Batch := ⟨"/*\nGO\n*/ c 'd\nGO", .statement⟩
    Dialect.sqlServer ≠ .oracle ∧
      b ∈ (Dialect.sqlServer.splitter.withStripComments false).split script ∧
      (Dialect.sqlServer.splitter.withStripComments false).split b.sql = [⟨b.sql, .statement⟩] := by
  intro script b
  have hdialect : Dialect.sqlServer ≠ .oracle := by decide
  have hb : b ∈ (Dialect.sqlServer.splitter.withStripComments false).split script := by
    decide +kernel
  exact ⟨hdialect, hb, split_of_mem_split .sqlServer hdialect script hb⟩

end SchemaChange.Script
