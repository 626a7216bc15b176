import SchemaChange.Proofs.Script.Division
import SchemaChange.Proofs.Script.ProgramUnit
import SchemaChange.Proofs.Script.Semicolon

/-!
# Program units in scripts

A program unit is one batch, whatever strings, quoted names, comments and line breaks it
holds. The state that the scan carries from line to line agrees with the state behind the
lexemes of the whole text, so the scan cuts at the semicolon behind the unit and starts anew.
-/
namespace SchemaChange.Script

/-- The text with a quote in place of every character of a range. -/
def outside (tags : List (Char × Option Range)) : List Char :=
  tags.map fun tag => if tag.2.isNone then tag.1 else '"'

/-- The lexemes of a text that begins with some ranges open. -/
def Splitter.lexemesFrom (sp : Splitter) (previous : Option Char) (stack : List Range)
    (cs : List Char) : List Lexeme :=
  lexemes previous (outside (tagged sp.ranges stack cs))

/-- The closing code of the range ends in no character of a word and in no point. -/
def Range.closesApart (r : Range) : Bool :=
  r.closing.getLast?.all fun c => !isWordChar c && c != '.'

/-- A splitter that keeps procedural blocks whole. -/
structure Splitter.KeepsBlocks (sp : Splitter) : Prop where
  separator : sp.separator = .blocks
  ranges : ∀ r ∈ sp.ranges, r.WithinLines
  apart : ∀ r ∈ sp.ranges, r.closesApart

def Event.isText : Event → Bool
  | text .. => true
  | cut .. => false

section Outside

@[simp] theorem outside_nil : outside [] = [] := rfl

@[simp] theorem outside_append (tags tags' : List (Char × Option Range)) :
    outside (tags ++ tags') = outside tags ++ outside tags' := List.map_append

@[simp] theorem outside_plain (cs : List Char) : outside (cs.map (·, none)) = cs := by
  simp [outside, Function.comp_def]

/-- Ranges are passed over. -/
theorem firstEnd_ranged (s : BlockState) (previous : Option Char) (r : Range) {cs : List Char}
    (hcs : cs ≠ []) (more : List Char) :
    firstEnd s (lexemes previous (outside (cs.map (·, some r)) ++ more)) =
      firstEnd s (lexemes none more) := by
  induction cs generalizing previous with
  | nil => exact absurd rfl hcs
  | cons c cs ih =>
      have hquote : outside ((c :: cs).map (·, some r)) =
          '"' :: outside (cs.map (·, some r)) := rfl
      rw [hquote, List.cons_append, lexemes_stop (.inl rfl), firstEnd]
      by_cases h : cs = []
      · subst h
        rfl
      · exact ih _ h

variable {tail : List Char}

/-- What stands behind a line stops the words of the line. -/
theorem stops_outside (ranges stack : List Range) (ht : Text.EndsLine tail) :
    Stops (outside (tagged ranges stack tail)) := by
  intro c hc
  have hchars := tagged_chars ranges stack tail
  cases htags : tagged ranges stack tail with
  | nil => rw [htags] at hc; cases hc
  | cons tag tags =>
      rw [htags] at hc hchars
      have htag : tag.1 = '\n' := ht tag.1 (by rw [← hchars]; rfl)
      cases hc
      dsimp only
      split
      · exact .inr htag
      · exact .inl rfl

end Outside

section Token

variable {sp : Splitter} {blocks blocks' : BlockState} {c : Cursor}

theorem followWords_of_none (hsep : sp.separator = .blocks)
    (h : findToken sp blocks c = (blocks', none)) :
    followWords blocks c.passed.head? (c.rest.take (plainLength sp c)) = (blocks', none) := by
  rw [findToken, hsep, Separator.find, findOutsideBlocks] at h
  split at h
  · cases h
  · split at h
    · cases h
    · rename_i hfollow
      cases h
      exact hfollow

theorem followWords_of_mark (hsep : sp.separator = .blocks) {n : Nat} {kept : Bool}
    (h : findToken sp blocks c = (blocks', some (.mark n kept))) :
    ∃ s, followWords blocks c.passed.head? (c.rest.take (plainLength sp c)) = (s, some n) ∧
      blocks' = {} ∧ kept = s.containsBlock := by
  rw [findToken, hsep, Separator.find, findOutsideBlocks] at h
  split at h
  · cases h
  · split at h
    · rename_i s n' hfollow
      cases h
      exact ⟨s, hfollow, rfl, rfl⟩
    · cases h

variable {tail : List Char} {s : BlockState}

/-- Behind plain text stands a range or the end of the line. -/
theorem stops_plain (hranges : ∀ r ∈ sp.ranges, r.WithinLines) (ht : Text.EndsLine tail) :
    Stops (outside (tagged sp.ranges [] ((c.advance (plainLength sp c)).rest ++ tail))) := by
  cases h : firstRange? c sp.ranges with
  | none =>
      have hrest : (c.advance (plainLength sp c)).rest = [] := by simp [plainLength, h]
      rw [hrest, List.nil_append]
      exact stops_outside _ _ ht
  | some found =>
      obtain ⟨n, r⟩ := found
      have hplain : plainLength sp c = n := plainLength_of_some h
      obtain ⟨first, code, hcode⟩ := List.exists_cons_of_ne_nil (opening_ne_nil h)
      rw [hplain, tagged_opens hranges ht h, hcode, outside_append]
      rintro _ ⟨⟩
      exact .inl rfl

theorem lexemesFrom_plain (hranges : ∀ r ∈ sp.ranges, r.WithinLines) (ht : Text.EndsLine tail)
    (previous : Option Char) : sp.lexemesFrom previous [] (c.rest ++ tail) =
      lexemes previous (c.rest.take (plainLength sp c) ++
        outside (tagged sp.ranges [] ((c.advance (plainLength sp c)).rest ++ tail))) := by
  rw [Splitter.lexemesFrom,
    tagged_plain hranges ht (Nat.le_refl _) (plainLength_le_length sp _), outside_append,
    outside_plain]

theorem firstEnd_of_none (hsp : sp.KeepsBlocks) (ht : Text.EndsLine tail)
    (hline : '\n' ∉ c.rest) (hfind : findToken sp blocks c = (blocks', none)) :
    firstEnd blocks (sp.lexemesFrom c.passed.head? [] (c.rest ++ tail)) =
      firstEnd blocks'
        (sp.lexemesFrom none [] ((c.advance (plainLength sp c)).rest ++ tail)) := by
  rw [lexemesFrom_plain hsp.ranges ht, firstEnd_lexemes blocks _
    (fun h => hline (List.mem_of_mem_take h)) (stops_plain hsp.ranges ht),
    followWords_of_none hsp.separator hfind]
  rfl

/-- Where the first end is the last lexeme, a mark in the line is the last character. -/
theorem firstEnd_of_mark (hsp : sp.KeepsBlocks) (ht : Text.EndsLine tail)
    (hline : '\n' ∉ c.rest) {n : Nat} {kept : Bool}
    (hfind : findToken sp blocks c = (blocks', some (.mark n kept)))
    (hend : firstEnd blocks (sp.lexemesFrom c.passed.head? [] (c.rest ++ tail)) =
      some (s, [])) :
    blocks' = {} ∧ kept = s.containsBlock ∧ (c.advance (n + 1)).rest = [] ∧ tail = [] := by
  obtain ⟨s', hfollow, hblocks, hkept⟩ := followWords_of_mark hsp.separator hfind
  rw [lexemesFrom_plain hsp.ranges ht, firstEnd_lexemes blocks _
    (fun h => hline (List.mem_of_mem_take h)) (stops_plain hsp.ranges ht), hfollow] at hend
  obtain ⟨rfl, hnil⟩ := Prod.mk.inj (Option.some.inj hend)
  have hbehind := Decidable.not_not.1 fun h => lexemes_ne_nil (some ';') h hnil
  obtain ⟨hshort, hmasked⟩ := List.append_eq_nil_iff.1 hbehind
  have hchars := tagged_chars sp.ranges [] ((c.advance (plainLength sp c)).rest ++ tail)
  rw [List.map_eq_nil_iff.1 hmasked] at hchars
  obtain ⟨hrest, htail⟩ := List.append_eq_nil_iff.1 hchars.symm
  refine ⟨hblocks, hkept, ?_, htail⟩
  rw [Cursor.advance_rest, List.drop_eq_nil_iff] at hrest ⊢
  rw [List.drop_eq_nil_iff, List.length_take] at hshort
  omega

end Token

/-- Behind a range stands the end of its line, or a character that belongs to no word. -/
theorem closes_apart {r : Range} (hapart : r.closesApart) {c : Cursor} {n : Nat}
    (h : r.findEnd? c.rest = some (.closes n)) :
    (c.advance (n + r.closing.length)).rest = [] ∨
      c.rest.take (n + r.closing.length) ≠ [] ∧
        ∃ e, (c.advance (n + r.closing.length)).passed.head? = some e ∧
          isWordChar e = false ∧ e ≠ '.' := by
  cases hlast : r.closing.getLast? with
  | none =>
      obtain ⟨opening, atLineStart, rfl⟩ := eq_lineComment (List.getLast?_eq_none_iff.1 hlast)
      cases h
      exact .inl (by simp [Range.closing])
  | some e =>
      have htake : c.rest.take (n + r.closing.length) = c.rest.take n ++ r.closing := by
        rw [List.take_add, ← List.prefix_iff_eq_take.1 (closing_occurs h)]
      have hne : r.closing ≠ [] := fun he => by rw [he] at hlast; cases hlast
      refine .inr ⟨by simp [htake, hne], e, ?_, ?_⟩
      · rw [Cursor.advance, htake]
        simp [hlast]
      · rw [Range.closesApart, hlast] at hapart
        simpa using hapart

section Moves

variable {sp : Splitter} {r : Range} {c : Cursor} {n : Nat} {tail : List Char}

/-- Behind a range, the lexemes go on as behind the character that stands there. -/
theorem firstEnd_closes (hsp : sp.KeepsBlocks) (hr : r ∈ sp.ranges) (hline : '\n' ∉ c.rest)
    (ht : Text.EndsLine tail) (hfind : r.findEnd? c.rest = some (.closes n)) (s : BlockState)
    (outer : List Range) (previous : Option Char) :
    ∃ next, ((c.advance (n + r.closing.length)).rest ≠ [] → ∀ cs,
        lexemes next cs = lexemes (c.advance (n + r.closing.length)).passed.head? cs) ∧
      firstEnd s (sp.lexemesFrom previous (r :: outer) (c.rest ++ tail)) =
        firstEnd s (sp.lexemesFrom next outer
          ((c.advance (n + r.closing.length)).rest ++ tail)) := by
  have hapart := closes_apart (hsp.apart r hr) hfind
  rw [Splitter.lexemesFrom, tagged_closes (hsp.ranges r hr) hline ht hfind, outside_append]
  by_cases htaken : c.rest.take (n + r.closing.length) = []
  · have hrest := hapart.resolve_right fun h => h.1 htaken
    exact ⟨previous, fun hne => absurd hrest hne, by rw [htaken]; rfl⟩
  · refine ⟨none, fun hne cs => ?_, firstEnd_ranged _ _ _ htaken _⟩
    obtain ⟨-, e, he, hword, hpoint⟩ := hapart.resolve_left hne
    rw [he]
    exact lexemes_congr (by simp [hword]) (by simp [hpoint]) cs

theorem firstEnd_nests (hsp : sp.KeepsBlocks) (hr : r ∈ sp.ranges) (ht : Text.EndsLine tail)
    (hfind : r.findEnd? c.rest = some (.nests n)) (s : BlockState) (outer : List Range)
    (previous : Option Char) :
    firstEnd s (sp.lexemesFrom previous (r :: outer) (c.rest ++ tail)) =
      firstEnd s (sp.lexemesFrom none (r :: r :: outer)
        ((c.advance (n + r.opening.length)).rest ++ tail)) := by
  have htaken : c.rest.take (n + r.opening.length) ≠ [] := by
    have := r.opening.length_pos
    simp [List.take_eq_nil_iff, Range.ne_nil_of_nests hfind]
    omega
  rw [Splitter.lexemesFrom, tagged_nests (hsp.ranges r hr) ht hfind, outside_append,
    firstEnd_ranged _ _ _ htaken]
  rfl

theorem firstEnd_stays (hsp : sp.KeepsBlocks) (hr : r ∈ sp.ranges) (ht : Text.EndsLine tail)
    (hfind : r.findEnd? c.rest = none) (s : BlockState) (outer : List Range)
    (previous : Option Char) :
    firstEnd s (sp.lexemesFrom previous (r :: outer) (c.rest ++ tail)) =
      firstEnd s (sp.lexemesFrom none (r :: outer) tail) := by
  rw [Splitter.lexemesFrom, tagged_stays (hsp.ranges r hr) ht hfind, outside_append]
  by_cases htaken : c.rest = []
  · rw [htaken, List.map_nil, outside_nil, List.nil_append, (stops_outside _ _ ht).lexemes]
    rfl
  · rw [firstEnd_ranged _ _ _ htaken]
    rfl

theorem firstEnd_opens (hsp : sp.KeepsBlocks) (hline : '\n' ∉ c.rest) (ht : Text.EndsLine tail)
    {blocks blocks' : BlockState} (hrange : firstRange? c sp.ranges = some (n, r))
    (hfind : findToken sp blocks c = (blocks', none)) :
    firstEnd blocks (sp.lexemesFrom c.passed.head? [] (c.rest ++ tail)) =
      firstEnd blocks' (sp.lexemesFrom none [r]
        ((c.advance (n + r.opening.length)).rest ++ tail)) := by
  have hplain : plainLength sp c = n := plainLength_of_some hrange
  rw [firstEnd_of_none hsp ht hline hfind, hplain, Splitter.lexemesFrom,
    tagged_opens hsp.ranges ht hrange, outside_append,
    firstEnd_ranged _ _ _ (opening_ne_nil hrange)]
  rfl

end Moves

/-- The line is no lone slash that could be found from here. -/
def Cursor.Unslashed (c : Cursor) : Prop := c.passed = [] → Text.trimmed c.rest ≠ ['/']

theorem Cursor.Unslashed.advance {c : Cursor} (h : c.Unslashed) (n : Nat) :
    (c.advance n).Unslashed := by
  intro hpassed
  obtain ⟨htaken, hpassed⟩ := List.append_eq_nil_iff.1 hpassed
  have hrest : (c.advance n).rest = c.rest := by
    have happend := take_append_advance c n
    rwa [List.reverse_eq_nil_iff.1 htaken] at happend
  rw [hrest]
  exact h hpassed

/-- What a line does while the first semicolon that ends the statement is the last character:
it holds no end of the statement and hands on its state, or it is the last line and ends
with that semicolon. -/
inductive LineEnd (sp : Splitter) (s : BlockState) (tail : List Char) :
    List Event → ScanState → Prop
  | passes {es st} (htexts : ∀ e ∈ es, e.isText)
      (hend : firstEnd st.blocks (sp.lexemesFrom none st.ranges tail) = some (s, [])) :
      LineEnd sp s tail es st
  | ends {texts} (htexts : ∀ e ∈ texts, e.isText) (htail : tail = []) :
      LineEnd sp s tail (texts ++ [.cut [] .statement]) {}

theorem LineEnd.cons {sp : Splitter} {s : BlockState} {tail : List Char} {e : Event}
    {es : List Event} {st : ScanState} (he : e.isText) (h : LineEnd sp s tail es st) :
    LineEnd sp s tail (e :: es) st := by
  cases h with
  | passes htexts hend => exact .passes (List.forall_mem_cons.2 ⟨he, htexts⟩) hend
  | ends htexts htail => exact .ends (List.forall_mem_cons.2 ⟨he, htexts⟩) htail

/-- Nothing happens at the end of a line outside every range. -/
theorem LineScan.eq_of_nil {sp : Splitter} {blocks : BlockState} {c : Cursor} {es : List Event}
    {st : ScanState} (h : LineScan sp ⟨[], blocks⟩ c es st) (hrest : c.rest = []) :
    es = [] ∧ st = ⟨[], blocks⟩ := by
  cases h with
  | ends => exact ⟨rfl, rfl⟩
  | keeps hne | drops hne | wholeLine hne | plain hne | opens hne => exact absurd hrest hne

theorem LineScan.lineEnd {sp : Splitter} (hsp : sp.KeepsBlocks) {st st' : ScanState}
    {c : Cursor} {es : List Event} (h : LineScan sp st c es st')
    (hopen : ∀ r ∈ st.ranges, r ∈ sp.ranges) (hslash : c.Unslashed) (hline : '\n' ∉ c.rest)
    {tail : List Char} (ht : Text.EndsLine tail) {previous : Option Char}
    (hprevious : st.ranges = [] → c.rest ≠ [] →
      ∀ cs, lexemes previous cs = lexemes c.passed.head? cs)
    {s : BlockState} (hkept : s.containsBlock)
    (hend : firstEnd st.blocks (sp.lexemesFrom previous st.ranges (c.rest ++ tail)) =
      some (s, [])) : LineEnd sp s tail es st' := by
  have unread : ∀ {c : Cursor} (n : Nat), '\n' ∉ c.rest → '\n' ∉ (c.advance n).rest :=
    fun n h hmem => h (List.mem_of_mem_drop hmem)
  induction h generalizing previous with
  | @closes r outer blocks c n es st hfind next ih =>
      obtain ⟨hr, houter⟩ := List.forall_mem_cons.1 hopen
      obtain ⟨previous', hnext, hstep⟩ :=
        firstEnd_closes hsp hr hline ht hfind blocks outer previous
      exact .cons rfl (ih houter (hslash.advance _) (unread _ hline) (fun _ => hnext)
        (hstep.symm.trans hend))
  | @nests r outer blocks c n es st hfind next ih =>
      have hr := hopen r (List.mem_cons_self ..)
      have hstep := firstEnd_nests hsp hr ht hfind blocks outer previous
      exact .cons rfl (ih (List.forall_mem_cons.2 ⟨hr, hopen⟩) (hslash.advance _)
        (unread _ hline) (fun h => absurd h (List.cons_ne_nil _ _)) (hstep.symm.trans hend))
  | @stays r outer blocks c hfind =>
      have hr := hopen r (List.mem_cons_self ..)
      have hstep := firstEnd_stays hsp hr ht hfind blocks outer previous
      exact .passes (by simp [Event.isText]) (hstep.symm.trans hend)
  | ends hrest =>
      rw [Splitter.lexemesFrom, hrest, List.nil_append, (stops_outside _ _ ht).lexemes] at hend
      exact .passes (by simp) hend
  | @keeps blocks blocks' c n es st hrest hfind next ih =>
      rw [Splitter.lexemesFrom, hprevious rfl hrest] at hend
      obtain ⟨rfl, -, hlast, htail⟩ := firstEnd_of_mark hsp ht hline hfind hend
      obtain ⟨rfl, rfl⟩ := next.eq_of_nil hlast
      have htexts : ∀ e ∈ [Event.text (c.rest.take (n + 1)) none], e.isText := by
        simp [Event.isText]
      exact .ends htexts htail
  | drops hrest hfind next ih =>
      rw [Splitter.lexemesFrom, hprevious rfl hrest] at hend
      obtain ⟨-, hdropped, -⟩ := firstEnd_of_mark hsp ht hline hfind hend
      rw [hkept] at hdropped
      cases hdropped
  | @wholeLine blocks blocks' c kind hrest hfind =>
      obtain ⟨hpassed, ⟨hgo, -⟩ | ⟨-, -, -, hafter, hlone⟩⟩ := find_wholeLine hfind
      · rw [hsp.separator] at hgo
        cases hgo
      · have hall : (plainAt c (plainLength sp c)).text = c.rest :=
          List.take_of_length_le (List.drop_eq_nil_iff.1 hafter)
        rw [hall] at hlone
        exact absurd hlone (hslash hpassed)
  | @plain blocks blocks' c hrest hrange hfind =>
      rw [Splitter.lexemesFrom, hprevious rfl hrest] at hend
      have hstep := firstEnd_of_none hsp ht hline hfind
      have hall : (c.advance (plainLength sp c)).rest = [] := by simp [plainLength, hrange]
      rw [hall] at hstep
      exact .passes (by simp [Event.isText]) (hstep.symm.trans hend)
  | opens hrest hrange hfind next ih =>
      rw [Splitter.lexemesFrom, hprevious rfl hrest] at hend
      have hmem := (opening_le hrange).1
      have hstep := firstEnd_opens hsp hline ht hrange hfind
      exact .cons rfl (.cons rfl (ih (by simpa using hmem) (hslash.advance _)
        (unread _ hline) (fun h => absurd h (List.cons_ne_nil _ _)) (hstep.symm.trans hend)))

section Lines

variable {sp : Splitter} {s : BlockState}

/-- The state behind some lines. -/
def afterLines (sp : Splitter) (st : ScanState) : List (List Char) → ScanState
  | [] => st
  | line :: lines => afterLines sp (scanLine sp st (.ofLine line)).2 lines

theorem scanLines_append (st : ScanState) (lines lines' : List (List Char)) :
    scanLines sp st (lines ++ lines') =
      scanLines sp st lines ++ scanLines sp (afterLines sp st lines) lines' := by
  induction lines generalizing st with
  | nil => rfl
  | cons line lines ih => simp [scanLines, afterLines, ih]

theorem LineEnd.append {tail : List Char} {texts es : List Event} {st : ScanState}
    (htexts : ∀ e ∈ texts, e.isText) (h : LineEnd sp s tail es st) :
    LineEnd sp s tail (texts ++ es) st := by
  induction texts with
  | nil => exact h
  | cons e texts ih =>
      obtain ⟨he, hothers⟩ := List.forall_mem_cons.1 htexts
      exact .cons he (ih hothers)

/-- A line that hands on its state is continued by the lines behind it. -/
theorem LineEnd.continue {lines : List (List Char)} {es : List Event} {st : ScanState}
    (h : LineEnd sp s (lines.flatMap ('\n' :: ·)) es st)
    (hlines : firstEnd st.blocks (sp.lexemesFrom none st.ranges (lines.flatMap ('\n' :: ·))) =
      some (s, []) → LineEnd sp s [] (scanLines sp st lines) (afterLines sp st lines)) :
    LineEnd sp s [] (es ++ scanLines sp st lines) (afterLines sp st lines) := by
  cases h with
  | passes htexts hend => exact .append htexts (hlines hend)
  | ends htexts htail =>
      cases lines with
      | nil => simpa [scanLines, afterLines] using LineEnd.ends htexts rfl
      | cons line lines => cases htail

/-- A line break stands between words, inside a range or outside. -/
theorem lexemesFrom_newline (hsp : sp.KeepsBlocks) {stack : List Range}
    (hopen : LeftOpen sp stack) (cs : List Char) :
    sp.lexemesFrom none stack ('\n' :: cs) = .other :: sp.lexemesFrom none stack cs := by
  rw [Splitter.lexemesFrom, tagged_newline hsp.ranges hopen]
  cases stack with
  | nil => exact lexemes_stop (.inr rfl) none _
  | cons r stack => exact lexemes_stop (.inl rfl) none _

/-- Lines with the end of the statement as their last character. -/
theorem lineEnd_scanLines (hsp : sp.KeepsBlocks) {st : ScanState} (hopen : LeftOpen sp st.ranges)
    {lines : List (List Char)} (hlines : ∀ line ∈ lines, '\n' ∉ line)
    (hslash : ∀ line ∈ lines, Text.trimmed line ≠ ['/']) (hkept : s.containsBlock)
    (hend : firstEnd st.blocks (sp.lexemesFrom none st.ranges (lines.flatMap ('\n' :: ·))) =
      some (s, [])) :
    LineEnd sp s [] (scanLines sp st lines) (afterLines sp st lines) := by
  induction lines generalizing st with
  | nil => exact .passes (by simp [scanLines]) hend
  | cons line lines ih =>
      have hscan := lineScan_scanLine sp st (.ofLine line)
      rw [List.flatMap_cons, List.cons_append, lexemesFrom_newline hsp hopen, firstEnd] at hend
      have hline := hscan.lineEnd hsp hopen.known (fun _ => hslash line (List.mem_cons_self ..))
        (hlines line (List.mem_cons_self ..)) (Text.endsLine_lines lines)
        (fun _ _ _ => rfl) hkept hend
      exact .cons rfl (hline.continue (ih (hscan.leftOpen hopen.known)
        (fun l hl => hlines l (List.mem_cons_of_mem _ hl))
        fun l hl => hslash l (List.mem_cons_of_mem _ hl)))

/-- A text whose last character is the first end of its statement is scanned up to a cut, and
what stands behind its last line is scanned anew. -/
theorem scan_append (hsp : sp.KeepsBlocks) {cs tail : List Char} (hkept : s.containsBlock)
    (hslash : ∀ line ∈ Text.splitOn '\n' cs, Text.trimmed line ≠ ['/'])
    (hend : firstEnd {} (sp.lexemesFrom none [] cs) = some (s, [])) (ht : Text.EndsLine tail) :
    ∃ texts, (∀ e ∈ texts, e.isText) ∧
      scan sp (cs ++ tail) = texts ++ .cut [] .statement :: scan sp tail := by
  obtain ⟨line, lines, hsplit⟩ := Text.exists_splitOn '\n' cs
  obtain ⟨behind, htail, happend⟩ := Text.exists_splitOn_append hsplit ht
  have hlines : ∀ l ∈ line :: lines, '\n' ∉ l := fun l hl =>
    Text.not_mem_of_mem_splitOn (hsplit ▸ hl)
  rw [hsplit] at hslash
  have hscan := lineScan_scanLine sp {} (.ofLine line)
  rw [Text.splitOn_flatten hsplit] at hend
  have hline := hscan.lineEnd hsp (by simp) (fun _ => hslash line (List.mem_cons_self ..))
    (hlines line (List.mem_cons_self ..)) (Text.endsLine_lines lines) (fun _ _ _ => rfl) hkept hend
  have hall := hline.continue (lineEnd_scanLines hsp (hscan.leftOpen (by simp))
    (fun l hl => hlines l (List.mem_cons_of_mem _ hl))
    (fun l hl => hslash l (List.mem_cons_of_mem _ hl)) hkept)
  have hempty := (lineScan_scanLine sp {} (.ofLine [])).eq_of_nil rfl
  simp only [scan, happend, htail, scanLines_append, ← List.append_assoc, hempty.1, hempty.2,
    List.nil_append]
  generalize hes : (scanLine sp {} (.ofLine line)).1 ++
    scanLines sp (scanLine sp {} (.ofLine line)).2 lines = es at hall ⊢
  generalize afterLines sp (scanLine sp {} (.ofLine line)).2 lines = st at hall ⊢
  cases hall with
  | passes htexts hend => simp [Splitter.lexemesFrom, firstEnd] at hend
  | ends htexts htail => exact ⟨_, htexts, by simp⟩

end Lines

/-- A program unit, told by the words that the ranges of a splitter leave outside. The
semicolon behind it lies outside as well, and no line is a lone slash. -/
structure Splitter.IsProgramUnit (sp : Splitter) (text : List Char) : Prop where
  lexemes : ∃ ls, sp.lexemesFrom none [] (text ++ [';']) = ls ++ [.semicolon] ∧
    ProgramUnit (ls.filter (· ≠ .other))
  unslashed : ∀ line ∈ Text.splitOn '\n' (text ++ [';']), Text.trimmed line ≠ ['/']

theorem keepsBlocks_oracle : Dialect.oracle.splitter.KeepsBlocks :=
  ⟨rfl, withinLines_splitter .oracle, by decide⟩

theorem pieces_append {texts : List Event} (htexts : ∀ e ∈ texts, e.isText)
    (gathered : List Char) (es : List Event) :
    pieces gathered (texts ++ es) = pieces (gathered ++ texts.flatMap Event.chars) es := by
  induction texts generalizing gathered with
  | nil => simp
  | cons e texts ih =>
      obtain ⟨he, hothers⟩ := List.forall_mem_cons.1 htexts
      cases e with
      | text cs range => simp [ih hothers, Event.chars]
      | cut separator kind => cases he

/-- A text with its first end at its last character is one batch, and the text behind its
last line is divided as if it stood alone. -/
theorem split_of_firstEnd {unit rest : String} {s : BlockState} (hkept : s.containsBlock)
    (hslash : ∀ line ∈ Text.splitOn '\n' (unit.toList ++ [';']), Text.trimmed line ≠ ['/'])
    (hend : firstEnd {} (Dialect.oracle.splitter.lexemesFrom none [] (unit.toList ++ [';'])) =
      some (s, [])) (hrest : Text.EndsLine rest.toList) :
    Dialect.oracle.splitter.split (unit ++ ";" ++ rest) =
      ⟨Text.trim (unit ++ ";"), .statement⟩ :: Dialect.oracle.splitter.split rest := by
  obtain ⟨texts, htexts, hscan⟩ := scan_append keepsBlocks_oracle hkept hslash hend hrest
  have hchars : texts.flatMap Event.chars = unit.toList ++ [';'] := by
    have h := scan_chars Dialect.oracle.splitter (unit.toList ++ [';'] ++ rest.toList)
    rw [hscan, List.flatMap_append, List.flatMap_cons, scan_chars] at h
    exact List.append_cancel_right h
  have htext : (unit ++ ";").toList = unit.toList ++ [';'] := String.toList_append
  have hblank : Text.allBlank (unit ++ ";") = false := by
    rw [Text.allBlank, htext, List.all_append]
    exact Bool.and_false _
  have hpieces : scanPieces Dialect.oracle.splitter (unit ++ ";" ++ rest).toList =
      (⟨(unit ++ ";").toList, [], .statement⟩ ::
        (scanPieces Dialect.oracle.splitter rest.toList).1,
        (scanPieces Dialect.oracle.splitter rest.toList).2) := by
    rw [scanPieces, String.toList_append, htext, hscan, pieces_append htexts, hchars,
      List.nil_append, pieces_cut]
    rfl
  rw [split_eq_batches _ rfl, split_eq_batches _ rfl, hpieces, batches_cons,
    batchOf?_of_not_blank hblank]
  rfl

/-- A program unit with its semicolon is one batch, and the text behind its last line is
divided as if it stood alone. -/
theorem split_programUnit {unit rest : String}
    (hunit : Dialect.oracle.splitter.IsProgramUnit unit.toList)
    (hrest : Text.EndsLine rest.toList) :
    Dialect.oracle.splitter.split (unit ++ ";" ++ rest) =
      ⟨Text.trim (unit ++ ";"), .statement⟩ :: Dialect.oracle.splitter.split rest := by
  obtain ⟨ls, hls, hgrammar⟩ := hunit.lexemes
  have hend := firstEnd_of_filter (firstEnd_programUnit hgrammar)
  rw [← hls] at hend
  exact split_of_firstEnd rfl hunit.unslashed hend hrest

theorem split_programUnit_procedure :
    let unit :=
      "CREATE PROCEDURE p AS v d;\nBEGIN IF a THEN x := CASE ';' END; END IF; --END;\nEND p"
    Dialect.oracle.splitter.IsProgramUnit unit.toList ∧
      Dialect.oracle.splitter.split (unit ++ ";" ++ "\nCOMMIT") =
        [⟨unit ++ ";", .statement⟩, ⟨"COMMIT", .statement⟩] := by
  intro unit
  have hcase : Body (.word "CASE" :: ([] ++ .word "END" :: [.semicolon])) :=
    .nested .caseExpression .nil (.ordinary rfl .nil)
  have hbody : Body (.word "IF" :: (.word "A" :: .word "THEN" :: .word "X" :: .word "CASE" ::
      ([] ++ .word "END" :: [.semicolon]) ++ .ending "IF" :: [.semicolon])) :=
    .nested .condition (.ordinary rfl (.ordinary rfl (.ordinary rfl hcase))) (.ordinary rfl .nil)
  have hheading : Heading (.word "CREATE" :: ([] ++ .word "PROCEDURE" ::
      [.word "P", .word "AS", .word "V", .word "D", .semicolon])) :=
    .create (by decide) (by decide) (by decide)
  have hlabel : ∀ w ∈ some "P", (Lexeme.word w).isOrdinary := by decide
  have hunit : Dialect.oracle.splitter.IsProgramUnit unit.toList := by
    refine ⟨⟨(Dialect.oracle.splitter.lexemesFrom none [] (unit.toList ++ [';'])).dropLast,
      by decide +kernel, ?_⟩, by decide +kernel⟩
    refine Eq.mp (congrArg ProgramUnit ?_) (ProgramUnit.block hheading hbody hlabel)
    decide +kernel
  have hrest : Text.EndsLine "\nCOMMIT".toList :=
    fun c h => Option.some.inj (h.symm.trans (by decide))
  exact ⟨hunit, (split_programUnit hunit hrest).trans (by decide +kernel)⟩

end SchemaChange.Script
