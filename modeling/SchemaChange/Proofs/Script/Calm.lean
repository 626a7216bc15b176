import SchemaChange.Proofs.Script.GoBatches

/-!
# Texts in which no line separates

Only a line that begins outside the ranges can separate. The first line of a text does, and so
does every line behind a line break outside the ranges; where none of these has the form of a
separator, the text is one batch. Dropping the blanks on both sides of a text makes no line of it
separate, because blanks around a separator leave it one.
-/
namespace SchemaChange.Script

section Lines

/-- The first line of the text separates. -/
def BeginsSeparated (cs : List Char) : Prop := ∃ digits, GoForm (cs.takeWhile (· != '\n')) digits

/-- No line behind a line break outside the ranges separates. -/
def Unseparated : List (Char × Option Range) → Prop
  | [] => True
  | (c, range) :: tags =>
      (c = '\n' → range = none → ¬ BeginsSeparated (tags.map Prod.fst)) ∧ Unseparated tags

variable {line digits cs : List Char} {tags tags' : List (Char × Option Range)}

theorem GoForm.ne_nil (h : GoForm line digits) : line ≠ [] := by
  obtain ⟨text, comment, rfl, hne, -⟩ := h.exists_goText
  exact fun hnil => hne (List.append_eq_nil_iff.1 hnil).1

/-- Blanks on both sides do not keep a line from separating. -/
theorem GoForm.padded (h : GoForm line digits) {lead trail : List Char}
    (hlead : ∀ c ∈ lead, Text.isBlank c) (htrail : ∀ c ∈ trail, Text.isBlank c) :
    GoForm (lead ++ line ++ trail) digits := by
  obtain ⟨lead', g, o, count, trail', comment, rfl, hlead', hg, ho, hcount, htrail', hcomment⟩ :=
    h.parts
  have hleads : ∀ c ∈ lead ++ lead', Text.isBlank c := List.forall_mem_append.2 ⟨hlead, hlead'⟩
  rcases hcomment with rfl | ⟨more, rfl⟩
  · have htrails : ∀ c ∈ trail' ++ trail, Text.isBlank c :=
      List.forall_mem_append.2 ⟨htrail', htrail⟩
    exact ⟨lead ++ lead', g, o, count, trail' ++ trail, [], by simp, hleads, hg, ho, hcount,
      htrails, .inl rfl⟩
  · -- the blanks behind the line go to its comment
    refine ⟨lead ++ lead', g, o, count, trail', ['-', '-'] ++ more ++ trail, by simp, hleads, hg,
      ho, hcount, htrail', .inr ?_⟩
    rw [List.append_assoc]
    exact List.prefix_append ..

theorem not_beginsSeparated_nil : ¬ BeginsSeparated [] := fun ⟨_, hform⟩ => hform.ne_nil rfl

/-- Whether the first line separates does not depend on the other lines. -/
theorem beginsSeparated_append_newline (cs more : List Char) :
    BeginsSeparated (cs ++ '\n' :: more) ↔ BeginsSeparated cs := by
  have hline : (cs ++ '\n' :: more).takeWhile (· != '\n') = cs.takeWhile (· != '\n') := by
    induction cs with
    | nil => rfl
    | cons c cs ih => simp only [List.cons_append, List.takeWhile_cons, ih]
  rw [BeginsSeparated, hline, BeginsSeparated]

/-- A blank before a line that separates leaves one that does. -/
theorem BeginsSeparated.cons {c : Char} (hc : Text.isBlank c) (hbreak : c ≠ '\n')
    (h : BeginsSeparated cs) : BeginsSeparated (c :: cs) := by
  obtain ⟨digits, hform⟩ := h
  have hlead : ∀ b ∈ [c], Text.isBlank b := by simpa using hc
  have hpadded := hform.padded hlead (List.forall_mem_nil _)
  rw [List.append_nil] at hpadded
  refine ⟨digits, ?_⟩
  rwa [List.takeWhile_cons_of_pos (by simpa using hbreak)]

/-- So do blanks behind it. -/
theorem BeginsSeparated.append (h : BeginsSeparated cs) {trail : List Char}
    (htrail : ∀ c ∈ trail, Text.isBlank c) : BeginsSeparated (cs ++ trail) := by
  by_cases hbreak : '\n' ∈ cs
  · obtain ⟨line, more, rfl⟩ := List.append_of_mem hbreak
    rw [beginsSeparated_append_newline] at h
    rw [List.append_assoc, List.cons_append]
    exact (beginsSeparated_append_newline line _).2 h
  · obtain ⟨digits, hform⟩ := h
    have hline : cs.takeWhile (· != '\n') = cs := by simpa using Text.takeWhile_line hbreak []
    rw [hline] at hform
    refine ⟨digits, ?_⟩
    rw [Text.takeWhile_line hbreak]
    exact hform.padded (List.forall_mem_nil _) fun c hc =>
      htrail c ((List.takeWhile_sublist _).subset hc)

theorem Unseparated.append (h : Unseparated tags) {range : Option Range}
    (h' : Unseparated (('\n', range) :: tags')) :
    Unseparated (tags ++ ('\n', range) :: tags') := by
  induction tags with
  | nil => exact h'
  | cons tag tags ih =>
      have hbehind : (tags ++ ('\n', range) :: tags').map Prod.fst =
          tags.map Prod.fst ++ '\n' :: tags'.map Prod.fst := by simp
      refine ⟨fun hc hrange hbegins => h.1 hc hrange ?_, ih h.2⟩
      rwa [← beginsSeparated_append_newline, ← hbehind]

/-- Characters of one line behind which nothing separates. -/
theorem unseparated_of_line (h : '\n' ∉ tags.map Prod.fst) : Unseparated tags := by
  induction tags with
  | nil => trivial
  | cons tag tags ih =>
      rw [List.map_cons, List.mem_cons, not_or] at h
      exact ⟨fun hc => absurd hc.symm h.1, ih h.2⟩

/-- No line of a text separates. -/
structure Calm (tags : List (Char × Option Range)) : Prop where
  first : ¬ BeginsSeparated (tags.map Prod.fst)
  later : Unseparated tags

theorem calm_nil : Calm [] := ⟨not_beginsSeparated_nil, trivial⟩

/-- One more line behind a calm text. -/
theorem Calm.newline {range : Option Range} (h : Calm tags) (hline : '\n' ∉ tags'.map Prod.fst)
    (hbegins : range = none → ¬ BeginsSeparated (tags'.map Prod.fst)) :
    Calm (tags ++ ('\n', range) :: tags') := by
  refine ⟨?_, h.later.append ⟨fun _ => hbegins, unseparated_of_line hline⟩⟩
  rw [List.map_append, List.map_cons, beginsSeparated_append_newline]
  exact h.first

/-- Without its leading blanks a text is as calm. -/
theorem Calm.drop {lead : List Char} (hlead : ∀ c ∈ lead, Text.isBlank c)
    (h : Calm (lead.map (·, none) ++ tags)) : Calm tags := by
  induction lead with
  | nil => exact h
  | cons c lead ih =>
      obtain ⟨hc, hothers⟩ := List.forall_mem_cons.1 hlead
      refine ih hothers ⟨fun hbegins => ?_, h.later.2⟩
      by_cases hbreak : c = '\n'
      · exact h.later.1 hbreak rfl hbegins
      · exact h.first (hbegins.cons hc hbreak)

/-- So it is without the blanks behind it. -/
theorem Calm.take (htrail : ∀ tag ∈ tags', Text.isBlank tag.1) (h : Calm (tags ++ tags')) :
    Calm tags := by
  have hblank : ∀ c ∈ tags'.map Prod.fst, Text.isBlank c := by
    intro c hc
    obtain ⟨tag, htag, rfl⟩ := List.mem_map.1 hc
    exact htrail tag htag
  have hlater : ∀ tags : List (Char × Option Range),
      Unseparated (tags ++ tags') → Unseparated tags := by
    intro tags h
    induction tags with
    | nil => trivial
    | cons tag tags ih =>
        have hbehind : (tags ++ tags').map Prod.fst = tags.map Prod.fst ++ tags'.map Prod.fst :=
          List.map_append
        refine ⟨fun hc hrange hbegins => h.1 hc hrange ?_, ih h.2⟩
        exact hbehind ▸ hbegins.append hblank
  refine ⟨fun hbegins => h.first ?_, hlater tags h.later⟩
  rw [List.map_append]
  exact hbegins.append hblank

end Lines

theorem length_breaksOutside (tags : List (Char × Option Range)) :
    (breaksOutside tags).length + 1 = (Text.splitOn '\n' (tags.map Prod.fst)).length := by
  induction tags with
  | nil => rfl
  | cons tag tags ih =>
      obtain ⟨c, range⟩ := tag
      obtain ⟨line, lines, hsplit⟩ := Text.exists_splitOn '\n' (tags.map Prod.fst)
      rw [hsplit] at ih
      rw [List.map_cons, Text.splitOn_cons hsplit]
      split
      · rename_i hc
        obtain rfl : c = '\n' := hc
        rw [breaksOutside_newline, List.length_cons, ih]
        rfl
      · rename_i hc
        have hbreaks : breaksOutside ((c, range) :: tags) = breaksOutside tags := by
          simp [breaksOutside, hc]
        rw [hbreaks, ih]
        rfl

/-- The lines of a script make up the script. -/
theorem scriptLines_chars (ranges : List Range) (script : List Char) :
    (scriptLines ranges script).flatMap ('\n' :: ·.chars) = '\n' :: script := by
  obtain ⟨line, lines, hsplit⟩ := Text.exists_splitOn '\n' script
  have hlength := length_breaksOutside (tagged ranges [] script)
  rw [tagged_chars, hsplit] at hlength
  have hchars : (scriptLines ranges script).map ScriptLine.chars = line :: lines := by
    have hfst : (List.zip (line :: lines) (true :: breaksOutside (tagged ranges [] script))).map
        Prod.fst = line :: lines := List.map_fst_zip (Nat.le_of_eq hlength.symm)
    rw [List.zip, List.map_zipWith] at hfst
    rwa [scriptLines, hsplit, List.map_zipWith]
  rw [← List.flatMap_map, hchars, List.flatMap_cons, List.cons_append,
    ← Text.splitOn_flatten hsplit]

/-- Lines without a separator are gathered. -/
theorem goBatches_gathered {lines : List ScriptLine} (h : ∀ l ∈ lines, ∀ runs, ¬ l.Separates runs)
    (text : List Char) :
    GoBatches text lines
      (batchOf? (text ++ lines.flatMap ('\n' :: ·.chars)) .statement).toList := by
  induction lines generalizing text with
  | nil =>
      rw [List.flatMap_nil, List.append_nil]
      exact .last
  | cons l lines ih =>
      have hlater := ih (fun l hl => h l (List.mem_cons_of_mem _ hl)) (text ++ '\n' :: l.chars)
      rw [List.append_assoc] at hlater
      exact .text (h l (List.mem_cons_self ..)) hlater

section Separators

variable {tags : List (Char × Option Range)} {cs line : List Char} {lines : List (List Char)}

theorem first_not_separates (hsplit : Text.splitOn '\n' cs = line :: lines) {outside : Bool}
    (h : outside = true → ¬ BeginsSeparated cs) (runs : Nat) :
    ¬ (ScriptLine.mk line outside).Separates runs := by
  intro hruns
  obtain ⟨digits, hform, -⟩ := hruns.form
  refine h hruns.outside ⟨digits, ?_⟩
  rwa [Text.takeWhile_of_splitOn hsplit]

/-- No line behind the first one separates. -/
theorem later_not_separates (h : Unseparated tags)
    (hsplit : Text.splitOn '\n' (tags.map Prod.fst) = line :: lines) :
    ∀ l ∈ List.zipWith ScriptLine.mk lines (breaksOutside tags), ∀ runs, ¬ l.Separates runs := by
  induction tags generalizing line lines with
  | nil =>
      obtain ⟨-, rfl⟩ := List.cons.inj hsplit
      simp
  | cons tag tags ih =>
      obtain ⟨c, range⟩ := tag
      obtain ⟨next, others, hnext⟩ := Text.exists_splitOn '\n' (tags.map Prod.fst)
      have hlater := ih h.2 hnext
      rw [List.map_cons, Text.splitOn_cons hnext] at hsplit
      split at hsplit
      · rename_i hc
        obtain rfl : c = '\n' := hc
        obtain ⟨-, rfl⟩ := List.cons.inj hsplit
        rw [breaksOutside_newline, List.zipWith_cons_cons]
        refine List.forall_mem_cons.2 ⟨first_not_separates hnext fun houtside => ?_, hlater⟩
        exact h.1 rfl (Option.isNone_iff_eq_none.1 houtside)
      · rename_i hc
        obtain ⟨-, rfl⟩ := List.cons.inj hsplit
        have hbreaks : breaksOutside ((c, range) :: tags) = breaksOutside tags := by
          simp [breaksOutside, hc]
        rwa [hbreaks]

/-- A text in which no line separates is one batch. -/
theorem Calm.split {d : Dialect} (hd : d.splitter.separator = .go) {text : String}
    (h : Calm (tagged d.splitter.ranges [] text.toList)) :
    (d.splitter.withStripComments false).split text = (batchOf? text.toList .statement).toList := by
  obtain ⟨line, lines, hsplit⟩ := Text.exists_splitOn '\n' text.toList
  have hchars := tagged_chars d.splitter.ranges [] text.toList
  have hnone : ∀ l ∈ scriptLines d.splitter.ranges text.toList, ∀ runs, ¬ l.Separates runs := by
    rw [scriptLines, hsplit, List.zipWith_cons_cons]
    refine List.forall_mem_cons.2 ⟨first_not_separates hsplit fun _ => ?_,
      later_not_separates h.later (hchars.symm ▸ hsplit)⟩
    exact hchars ▸ h.first
  have hgathered := goBatches_gathered hnone []
  rw [List.nil_append, scriptLines_chars, batchOf?, Text.trimmed_cons_blank rfl, ← batchOf?]
    at hgathered
  have hscan := goBatches_scan (goSplitter hd false) text.toList
  rw [split_eq_batches _ rfl]
  exact hscan.unique hgathered

end Separators

end SchemaChange.Script
