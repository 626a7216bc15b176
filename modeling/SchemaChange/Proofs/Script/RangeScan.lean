import SchemaChange.Proofs.Script.RangeEnd
import SchemaChange.Script.Batch

/-!
# Lines and the automaton agree on ranges

Searching a line for the next code passes exactly the places at which the automaton copies a
character. Hence the events of a scan give every character of the script the range that the
automaton gives it, whatever is left open at the ends of lines.
-/
namespace SchemaChange.Script

/-- The range begins only with nothing but blanks before it on the line. -/
def Range.isAtLineStart : Range → Bool
  | lineComment _ atLineStart => atLineStart
  | doubled .. | plain .. | nesting .. => false

/-- The codes of the range hold no line break, and it may begin anywhere in a line. -/
structure Range.WithinLines (r : Range) : Prop where
  opening : '\n' ∉ r.opening.chars
  closing : '\n' ∉ r.closing
  anywhere : r.isAtLineStart = false

instance : DecidablePred Range.WithinLines := fun r =>
  decidable_of_iff ('\n' ∉ r.opening.chars ∧ '\n' ∉ r.closing ∧ r.isAtLineStart = false)
    ⟨fun h => ⟨h.1, h.2.1, h.2.2⟩, fun h => ⟨h.opening, h.closing, h.anywhere⟩⟩

theorem withinLines_splitter (d : Dialect) : ∀ r ∈ d.splitter.ranges, r.WithinLines := by
  cases d <;> decide

section Line

variable {ranges outer : List Range} {line tail : List Char}

/-- A step of the automaton that stays in a line. -/
theorem tagged_step {stack next : List Range} {range : Option Range} {n : Nat}
    (hne : line ≠ []) (hn : n ≤ line.length)
    (hmove : move ranges stack (line ++ tail) = ⟨n, range, next⟩) :
    tagged ranges stack (line ++ tail) =
      (line.take n).map (·, range) ++ tagged ranges next (line.drop n ++ tail) := by
  rw [tagged_of_ne_nil ranges stack (by simp [hne]), hmove]
  simp only [List.take_append_of_le_length hn, drop_line hn]

/-- Copying a part of a line. -/
theorem tagged_copy {stack : List Range} {range : Option Range} {n : Nat}
    (hn : n ≤ line.length)
    (hquiet : ∀ m < n, move ranges stack (line.drop m ++ tail) = ⟨1, range, stack⟩) :
    tagged ranges stack (line ++ tail) =
      (line.take n).map (·, range) ++ tagged ranges stack (line.drop n ++ tail) := by
  have hquiet' : ∀ m < n, move ranges stack ((line ++ tail).drop m) = ⟨1, range, stack⟩ := by
    intro m hm
    rw [drop_line (by omega)]
    exact hquiet m hm
  rw [tagged_quiet (by simp; omega) hquiet', List.take_append_of_le_length hn, drop_line hn]

theorem Range.WithinLines.confined {r : Range} (hr : r.WithinLines) (ht : Text.EndsLine tail) :
    r.Confined tail :=
  ⟨confined_of_endsLine hr.opening ht, confined_of_endsLine hr.closing ht⟩

/-- What is taken inside a range of a line is copied. -/
theorem Takes.tagged_line {next : List Range} {r : Range} {n : Nat}
    (h : Takes r outer (line ++ tail) n next) (hn : n ≤ line.length) :
    Script.tagged ranges (r :: outer) (line ++ tail) =
      (line.take n).map (·, some r) ++ Script.tagged ranges next (line.drop n ++ tail) := by
  rw [h.tagged, List.take_append_of_le_length hn, drop_line hn]

/-- A line comment is left at the end of its line. -/
theorem tagged_lineComment {opening : Code} {atLineStart : Bool} (hline : '\n' ∉ line)
    (ht : Text.EndsLine tail) :
    tagged ranges (.lineComment opening atLineStart :: outer) (line ++ tail) =
      line.map (·, some (.lineComment opening atLineStart)) ++ tagged ranges outer tail := by
  have hleave : tagged ranges (.lineComment opening atLineStart :: outer) tail =
      tagged ranges outer tail := by
    cases tail with
    | nil => simp
    | cons c tail =>
        obtain rfl : c = '\n' := ht c rfl
        rw [tagged_of_ne_nil _ (.lineComment opening atLineStart :: outer) (by simp)]
        simp [move, moveInside]
  have htakes : Takes (.lineComment opening atLineStart) outer (line ++ tail) line.length _ :=
    takes_lineComment hline
  rw [htakes.tagged_line (Nat.le_refl line.length), List.take_length, List.drop_length,
    List.nil_append, hleave]

/-- The automaton leaves a range where the line scan sees it close. -/
theorem tagged_closes {r : Range} (hr : r.WithinLines) (hline : '\n' ∉ line)
    (ht : Text.EndsLine tail) {n : Nat} (hend : r.findEnd? line = some (.closes n)) :
    tagged ranges (r :: outer) (line ++ tail) =
      (line.take (n + r.closing.length)).map (·, some r) ++
        tagged ranges outer (line.drop (n + r.closing.length) ++ tail) := by
  cases r with
  | lineComment opening atLineStart =>
      cases hend
      rw [tagged_lineComment hline ht]
      simp [Range.closing]
  | doubled _ closing | plain _ closing _ | nesting _ closing =>
      exact (takes_closes (hr.confined ht) closing.ne_nil hend).tagged_line (closing_le hend)

/-- The automaton goes deeper where the line scan sees the range open again. -/
theorem tagged_nests {r : Range} (hr : r.WithinLines) (ht : Text.EndsLine tail) {n : Nat}
    (hend : r.findEnd? line = some (.nests n)) :
    tagged ranges (r :: outer) (line ++ tail) =
      (line.take (n + r.opening.length)).map (·, some r) ++
        tagged ranges (r :: r :: outer) (line.drop (n + r.opening.length) ++ tail) :=
  (takes_nests (hr.confined ht) hend).tagged_line (nesting_le hend)

/-- The automaton copies the line where the line scan sees no end. -/
theorem tagged_stays {r : Range} (hr : r.WithinLines) (ht : Text.EndsLine tail)
    (hend : r.findEnd? line = none) :
    tagged ranges (r :: outer) (line ++ tail) =
      line.map (·, some r) ++ tagged ranges (r :: outer) tail := by
  simpa using (takes_stays (hr.confined ht) hend).tagged_line (Nat.le_refl line.length)

end Line

/-- The earliest start comes from the earliest range of the list that begins there. -/
theorem firstRange?_eq_some {c : Cursor} {ranges : List Range} {n : Nat} {r : Range}
    (h : firstRange? c ranges = some (n, r)) :
    r.findStart? c = some n ∧ ∃ before after, ranges = before ++ r :: after ∧
      ∀ r' ∈ before, ∀ m, r'.findStart? c = some m → n < m := by
  induction ranges generalizing n r with
  | nil => cases h
  | cons first others ih =>
      -- a later range that begins earlier is preceded by the first one as well
      have later : ∀ {n r}, firstRange? c others = some (n, r) →
          (∀ m, first.findStart? c = some m → n < m) →
          r.findStart? c = some n ∧ ∃ before after, first :: others = before ++ r :: after ∧
            ∀ r' ∈ before, ∀ m, r'.findStart? c = some m → n < m := by
        intro n r hothers hlt
        obtain ⟨hr, before, after, rfl, hbefore⟩ := ih hothers
        exact ⟨hr, first :: before, after, rfl, by simpa using ⟨hlt, hbefore⟩⟩
      rw [firstRange?] at h
      cases hfirst : first.findStart? c with
      | none =>
          rw [hfirst] at h
          exact later h (by simp [hfirst])
      | some k =>
          rw [hfirst] at h
          cases hothers : firstRange? c others with
          | none =>
              rw [hothers] at h
              cases h
              exact ⟨hfirst, [], others, rfl, by simp⟩
          | some found =>
              obtain ⟨m, r'⟩ := found
              rw [hothers] at h
              simp only at h
              split at h
              · rename_i hlt
                cases h
                exact later hothers (by simpa [hfirst] using hlt)
              · cases h
                exact ⟨hfirst, [], others, rfl, by simp⟩

/-- No range begins before the earliest start. -/
theorem firstRange?_le {c : Cursor} {ranges : List Range} {r : Range} (hr : r ∈ ranges)
    {k : Nat} (hk : r.findStart? c = some k) :
    ∃ n first, firstRange? c ranges = some (n, first) ∧ n ≤ k := by
  induction ranges with
  | nil => cases hr
  | cons first others ih =>
      rw [firstRange?]
      rcases List.mem_cons.1 hr with rfl | hr
      · rw [hk]
        cases hothers : firstRange? c others with
        | none => exact ⟨k, r, rfl, Nat.le_refl k⟩
        | some later =>
            obtain ⟨m, later⟩ := later
            by_cases hlt : m < k
            · exact ⟨m, later, by simp [hlt], by omega⟩
            · exact ⟨k, r, by simp [hlt], Nat.le_refl k⟩
      · obtain ⟨n, later, hlater, hle⟩ := ih hr
        rw [hlater]
        cases hfirst : first.findStart? c with
        | none => exact ⟨n, later, rfl, hle⟩
        | some m =>
            by_cases hlt : n < m
            · exact ⟨n, later, by simp [hlt], hle⟩
            · exact ⟨m, first, by simp [hlt], by omega⟩

theorem plainLength_le {sp : Splitter} {c : Cursor} {r : Range} (hr : r ∈ sp.ranges) {k : Nat}
    (hk : r.findStart? c = some k) : plainLength sp c ≤ k := by
  obtain ⟨n, first, hfirst, hle⟩ := firstRange?_le hr hk
  simpa [plainLength, hfirst] using hle

/-- A range begins with its code. -/
theorem opening_occurs {c : Cursor} {r : Range} {n : Nat} (h : r.findStart? c = some n) :
    r.opening.chars <+: c.rest.drop n := by
  cases r with
  | doubled _ _ | plain _ _ _ | nesting _ _ => exact (Text.find?_eq_some h).1
  | lineComment opening atLineStart =>
      cases atLineStart with
      | false => exact (Text.find?_eq_some h).1
      | true =>
          simp only [Range.findStart?, Option.ite_none_right_eq_some, Bool.and_eq_true,
            Option.some.injEq] at h
          obtain ⟨⟨-, hcode⟩, rfl⟩ := h
          exact List.isPrefixOf_iff_prefix.1 hcode

theorem lt_of_findStart? {c : Cursor} {r : Range} {n : Nat} (h : r.findStart? c = some n) :
    n < c.rest.length := lt_of_occurs r.opening.ne_nil (opening_occurs h)

/-- At the end of a line nothing begins. -/
theorem firstRange?_of_rest_nil {c : Cursor} (hrest : c.rest = []) (ranges : List Range) :
    firstRange? c ranges = none := by
  cases hrange : firstRange? c ranges with
  | none => rfl
  | some found =>
      have hlt := lt_of_findStart? (firstRange?_eq_some hrange).1
      simp [hrest] at hlt

/-- At the end of a line stands no separator. -/
theorem findToken_of_rest_nil (sp : Splitter) {c : Cursor} (hrest : c.rest = [])
    (blocks : BlockState) :
    findToken sp blocks c = (blocks, none) := by
  have hplain : plainAt c (plainLength sp c) = ⟨c.passed, [], []⟩ := by
    simp [plainAt, hrest]
  rw [findToken, hplain]
  cases sp.separator with
  | go => simp [Separator.find, findGo?, goCount?, Text.trimmed, Text.trimStart, Text.trimEnd]
  | semicolon => rfl
  | blocks =>
      simp [Separator.find, findOutsideBlocks, followWords, Text.trimmed, Text.trimStart,
        Text.trimEnd]

theorem Range.WithinLines.findStart? {r : Range} (hr : r.WithinLines) (c : Cursor) :
    r.findStart? c = Text.find? r.opening.chars c.rest := by
  cases r with
  | lineComment opening atLineStart =>
      cases atLineStart with
      | false => rfl
      | true => cases hr.anywhere
  | doubled _ _ | plain _ _ _ | nesting _ _ => rfl

section Outside

variable {sp : Splitter} {c : Cursor} {tail : List Char}

theorem not_prefix_of_lt_plainLength {r : Range} (hr : r ∈ sp.ranges) (hin : r.WithinLines)
    {m : Nat} (hm : m < plainLength sp c) : ¬ r.opening.chars <+: c.rest.drop m := by
  cases hk : r.findStart? c with
  | none => exact Text.find?_eq_none (hin.findStart? c ▸ hk) m
  | some k =>
      have := plainLength_le hr hk
      exact (Text.find?_eq_some (hin.findStart? c ▸ hk)).2 m (by omega)

/-- The automaton copies the text in which the separator is looked for. -/
theorem move_plain (hranges : ∀ r ∈ sp.ranges, r.WithinLines) (ht : Text.EndsLine tail)
    {m : Nat} (hm : m < plainLength sp c) :
    move sp.ranges [] (c.rest.drop m ++ tail) = ⟨1, none, []⟩ := by
  have hnone : sp.ranges.find? (fun r => r.opening.chars.isPrefixOf (c.rest.drop m ++ tail)) =
      none := by
    refine List.find?_eq_none.2 fun r hr => ?_
    have hin := hranges r hr
    rw [(hin.confined ht).opening.not_occurs (not_prefix_of_lt_plainLength hr hin hm)]
    simp
  rw [move, hnone]

/-- The automaton opens the range that the line scan opens. -/
theorem move_opens (hranges : ∀ r ∈ sp.ranges, r.WithinLines) (ht : Text.EndsLine tail)
    {n : Nat} {r : Range} (hr : firstRange? c sp.ranges = some (n, r)) :
    move sp.ranges [] (c.rest.drop n ++ tail) = ⟨r.opening.length, some r, [r]⟩ := by
  obtain ⟨hstart, before, after, hsplit, hbefore⟩ := firstRange?_eq_some hr
  have hmem : r ∈ sp.ranges := by simp [hsplit]
  have hin := hranges r hmem
  have hfind : sp.ranges.find? (fun r => r.opening.chars.isPrefixOf (c.rest.drop n ++ tail)) =
      some r := by
    refine List.find?_eq_some_iff_append.2 ⟨?_, before, after, hsplit, fun r' hr' => ?_⟩
    · have hfound := (Text.find?_eq_some (hin.findStart? c ▸ hstart)).1
      exact (hin.confined ht).opening.occurs hfound
    · have hin' := hranges r' (by simp [hsplit, hr'])
      have habsent : ¬ r'.opening.chars <+: c.rest.drop n := by
        cases hk : r'.findStart? c with
        | none => exact Text.find?_eq_none (hin'.findStart? c ▸ hk) n
        | some k =>
            have := hbefore r' hr' k hk
            exact (Text.find?_eq_some (hin'.findStart? c ▸ hk)).2 n this
      simp [(hin'.confined ht).opening.not_occurs habsent]
  rw [move, hfind]

/-- The text in which the separator is looked for lies outside every range. -/
theorem tagged_plain (hranges : ∀ r ∈ sp.ranges, r.WithinLines) (ht : Text.EndsLine tail)
    {n : Nat} (hn : n ≤ plainLength sp c) (hlen : n ≤ c.rest.length) :
    tagged sp.ranges [] (c.rest ++ tail) =
      (c.rest.take n).map (·, none) ++ tagged sp.ranges [] ((c.advance n).rest ++ tail) :=
  tagged_copy hlen fun _ hm => move_plain hranges ht (by omega)

/-- The earliest range start lies in the line. -/
theorem opening_le {n : Nat} {r : Range} (hr : firstRange? c sp.ranges = some (n, r)) :
    r ∈ sp.ranges ∧ n + r.opening.length ≤ c.rest.length := by
  obtain ⟨hstart, before, after, hsplit, -⟩ := firstRange?_eq_some hr
  have hle := (opening_occurs hstart).length_le
  have hlt := lt_of_findStart? hstart
  rw [List.length_drop] at hle
  simp only [Code.length]
  exact ⟨by simp [hsplit], by omega⟩

theorem plainLength_le_length (sp : Splitter) (c : Cursor) :
    plainLength sp c ≤ c.rest.length := by
  cases h : firstRange? c sp.ranges with
  | none => simp [plainLength, h]
  | some found =>
      obtain ⟨n, r⟩ := found
      have := (opening_le h).2
      simp only [plainLength, h, Option.map_some, Option.getD_some]
      omega

theorem opening_ne_nil {n : Nat} {r : Range} (hr : firstRange? c sp.ranges = some (n, r)) :
    (c.rest.drop n).take r.opening.length ≠ [] := by
  have hle := (opening_le hr).2
  have := r.opening.length_pos
  rw [← List.length_pos_iff, List.length_take, List.length_drop]
  omega

/-- The code that opens a range belongs to it. -/
theorem tagged_opens (hranges : ∀ r ∈ sp.ranges, r.WithinLines) (ht : Text.EndsLine tail)
    {n : Nat} {r : Range} (hr : firstRange? c sp.ranges = some (n, r)) :
    tagged sp.ranges [] ((c.advance n).rest ++ tail) =
      ((c.rest.drop n).take r.opening.length).map (·, some r) ++
        tagged sp.ranges [r] ((c.advance (n + r.opening.length)).rest ++ tail) := by
  have hle := (opening_le hr).2
  have hne : c.rest.drop n ≠ [] := fun h => opening_ne_nil hr (by rw [h, List.take_nil])
  rw [Cursor.advance_rest, Cursor.advance_rest, ← List.drop_drop]
  exact tagged_step hne (by rw [List.length_drop]; omega) (move_opens hranges ht hr)

end Outside

/-- The characters of an event with their range; a separator lies outside every range. -/
def Event.tagged : Event → List (Char × Option Range)
  | text chars range => chars.map (·, range)
  | cut separator _ => separator.map (·, none)

/-- The scan of a line gives every character the range that the automaton gives it. A line
that is a separator with a comment behind it is the one exception. -/
theorem LineScan.tagged_of_no_cut {sp : Splitter} (hranges : ∀ r ∈ sp.ranges, r.WithinLines)
    {st st' : ScanState} {c : Cursor} {es : List Event} {tail : List Char}
    (h : LineScan sp st c es st')
    (hcut : sp.separator = .go → ∀ separator kind, .cut separator kind ∉ es)
    (hopen : ∀ r ∈ st.ranges, r ∈ sp.ranges) (hline : '\n' ∉ c.rest) (ht : Text.EndsLine tail) :
    Script.tagged sp.ranges st.ranges (c.rest ++ tail) =
      es.flatMap Event.tagged ++ Script.tagged sp.ranges st'.ranges tail := by
  have unread : ∀ {c : Cursor} (n : Nat), '\n' ∉ c.rest → '\n' ∉ (c.advance n).rest :=
    fun n h hmem => h (List.mem_of_mem_drop hmem)
  have mark_lt : ∀ {c : Cursor} {n : Nat}, n < plainLength sp c ∧ c.rest[n]? = some ';' →
      n + 1 ≤ plainLength sp c ∧ n + 1 ≤ c.rest.length := fun h =>
    ⟨h.1, (List.getElem?_eq_some_iff.1 h.2).1⟩
  have behind : ∀ {e : Event} {es : List Event},
      (sp.separator = .go → ∀ separator kind, .cut separator kind ∉ e :: es) →
      sp.separator = .go → ∀ separator kind, .cut separator kind ∉ es :=
    fun h hgo separator kind hmem => h hgo separator kind (List.mem_cons_of_mem _ hmem)
  induction h with
  | @closes r outer blocks c n es st hend next ih =>
      have hr := hranges r (hopen r (List.mem_cons_self ..))
      rw [tagged_closes hr hline ht hend, List.flatMap_cons, List.append_assoc,
        ← ih (behind hcut) (fun r' h => hopen r' (List.mem_cons_of_mem _ h)) (unread _ hline)]
      rfl
  | @nests r outer blocks c n es st hend next ih =>
      have hmem := hopen r (List.mem_cons_self ..)
      rw [tagged_nests (hranges r hmem) ht hend, List.flatMap_cons, List.append_assoc,
        ← ih (behind hcut) (by simpa using hopen) (unread _ hline)]
      rfl
  | @stays r outer blocks c hend =>
      have hr := hranges r (hopen r (List.mem_cons_self ..))
      rw [tagged_stays hr ht hend]
      simp [Event.tagged]
  | ends hrest => simp [hrest]
  | @keeps blocks blocks' c n es st hrest hfind next ih =>
      obtain ⟨hn, hlen⟩ := mark_lt (findToken_mark hfind)
      rw [tagged_plain hranges ht hn hlen, ih (behind (behind hcut)) hopen (unread _ hline)]
      simp [Event.tagged]
  | @drops blocks blocks' c n es st hrest hfind next ih =>
      obtain ⟨hn, hlen⟩ := mark_lt (findToken_mark hfind)
      rw [tagged_plain hranges ht hn hlen, ih (behind (behind hcut)) hopen (unread _ hline),
        (take_mark hfind).2]
      simp [Event.tagged]
  | @wholeLine blocks blocks' c kind hrest hfind =>
      have hall : c.rest.length ≤ plainLength sp c := by
        obtain ⟨-, ⟨hgo, -⟩ | ⟨-, -, -, hafter, -⟩⟩ := find_wholeLine hfind
        · exact absurd (List.mem_cons_self ..) (hcut hgo c.rest kind)
        · exact List.drop_eq_nil_iff.1 hafter
      rw [tagged_plain hranges ht hall (Nat.le_refl _)]
      simp [Event.tagged]
  | @plain blocks blocks' c hrest hrange hfind =>
      have hall : plainLength sp c = c.rest.length := plainLength_of_none hrange
      rw [tagged_plain hranges ht (Nat.le_of_eq hall.symm) (Nat.le_refl _)]
      simp [Event.tagged]
  | @opens blocks blocks' c n r es st hrest hrange hfind next ih =>
      have hplain : plainLength sp c = n := plainLength_of_some hrange
      obtain ⟨hmem, hle⟩ := opening_le hrange
      rw [tagged_plain hranges ht (Nat.le_of_eq hplain.symm) (by omega),
        tagged_opens hranges ht hrange, ih (behind (behind hcut)) (by simpa using hmem)
          (unread _ hline)]
      simp [Event.tagged]

theorem LineScan.tagged {sp : Splitter} (hranges : ∀ r ∈ sp.ranges, r.WithinLines)
    (hsep : sp.separator ≠ .go) {st st' : ScanState} {c : Cursor} {es : List Event}
    {tail : List Char} (h : LineScan sp st c es st') (hopen : ∀ r ∈ st.ranges, r ∈ sp.ranges)
    (hline : '\n' ∉ c.rest) (ht : Text.EndsLine tail) :
    Script.tagged sp.ranges st.ranges (c.rest ++ tail) =
      es.flatMap Event.tagged ++ Script.tagged sp.ranges st'.ranges tail :=
  h.tagged_of_no_cut hranges (fun hgo => absurd hgo hsep) hopen hline ht

end SchemaChange.Script
