import SchemaChange.Proofs.Script.Runs
import SchemaChange.Proofs.Sql.Quoting

/-!
# String literals

A script opens a literal at its first quote and closes it at its last one, on whatever line it
stands: in between, quotes come in pairs, and pairs are passed over. Each character of the text is
written alone or as a pair, so taking one of every pair gives the text back. Where a backslash takes
the next character with it, backslashes stand in pairs as well.
-/
namespace SchemaChange

open Script

namespace Script

/-- How many characters of some lines stand before the code that closes an open range. -/
def Range.endsAfter? (r : Range) : List (List Char) → Option Nat
  | [] => none
  | line :: lines =>
      match r.findEnd? line with
      | some (.closes n) => some n
      | some (.nests _) => none
      | none => (r.endsAfter? lines).map (line.length + 1 + ·)

/-- The events of lines inside a range, which holds the line breaks as well. -/
def Range.inside (r : Range) : List (List Char) → List Event
  | [] => []
  | [line] => [.text line (some r)]
  | line :: lines => .text line (some r) :: .text ['\n'] (some r) :: r.inside lines

/-- The range closes on the first line, or not at all there and on a later one. -/
theorem endsAfter?_cases {r : Range} {line : List Char} {lines : List (List Char)} {n : Nat}
    (h : r.endsAfter? (line :: lines) = some n) :
    r.findEnd? line = some (.closes n) ∨
      r.findEnd? line = none ∧ ∃ k, r.endsAfter? lines = some k ∧ n = line.length + 1 + k := by
  rw [Range.endsAfter?] at h
  cases hend : r.findEnd? line with
  | none =>
      rw [hend] at h
      obtain ⟨k, hk, hn⟩ := Option.map_eq_some_iff.1 h
      exact .inr ⟨rfl, k, hk, hn.symm⟩
  | some ending =>
      rw [hend] at h
      cases ending with
      | nests k => cases h
      | closes k => exact .inl (congrArg (fun k => some (Ending.closes k)) (Option.some.inj h))

/-- A range that closes with the last character of some lines is one text on each of them, and
behind them no range is open. -/
theorem scan_inside (sp : Splitter) (blocks : BlockState) {r : Range} {c : Cursor}
    {lines : List (List Char)} {n : Nat} (hends : r.endsAfter? (c.rest :: lines) = some n)
    (hlast : n + r.closing.length = (c.rest ++ lines.flatMap ('\n' :: ·)).length)
    (behind : List (List Char)) :
    (scanLine sp ⟨[r], blocks⟩ c).1 ++
        scanLines sp (scanLine sp ⟨[r], blocks⟩ c).2 (lines ++ behind) =
      r.inside (c.rest :: lines) ++ scanLines sp ⟨[], blocks⟩ behind := by
  induction lines generalizing c n with
  | nil =>
      rcases endsAfter?_cases hends with hend | ⟨-, k, hk, -⟩
      · have hlength : c.rest.length ≤ n + r.closing.length := by
          simpa using Nat.le_of_eq hlast.symm
        have hall : c.rest.take (n + r.closing.length) = c.rest := List.take_of_length_le hlength
        have hdone : (c.advance (n + r.closing.length)).rest = [] :=
          List.drop_of_length_le hlength
        obtain ⟨hevents, hstate⟩ :=
          (lineScan_scanLine sp ⟨[r], blocks⟩ c).unique (.closes hend (.ends hdone))
        rw [hevents, hstate, hall]
        rfl
      · cases hk
  | cons next lines ih =>
      simp only [List.flatMap_cons, List.length_append, List.length_cons] at hlast
      rcases endsAfter?_cases hends with hend | ⟨hend, k, hk, rfl⟩
      · -- the range would close before the last line
        have hle := closing_le hend
        omega
      · have hlast' : k + r.closing.length = (next ++ lines.flatMap ('\n' :: ·)).length := by
          rw [List.length_append]
          omega
        obtain ⟨hevents, hstate⟩ := (lineScan_scanLine sp ⟨[r], blocks⟩ c).unique (.stays hend)
        have hothers := ih (c := .ofLine next) hk hlast'
        rw [List.cons_append, hevents, hstate, scanLines]
        exact congrArg (fun es => Event.text c.rest (some r) :: .text ['\n'] (some r) :: es) hothers

section Ends

variable {mark : Char}

/-- What the search for the end passes over stands before the end. -/
theorem endsAfter?_append {opening closing : Code} {lead line : List Char}
    (h : findSingle? closing (lead ++ line) = (findSingle? closing line).map (lead.length + ·))
    (lines : List (List Char)) :
    (Range.doubled opening closing).endsAfter? ((lead ++ line) :: lines) =
      ((Range.doubled opening closing).endsAfter? (line :: lines)).map (lead.length + ·) := by
  simp only [Range.endsAfter?, Range.findEnd?, h]
  cases findSingle? closing line with
  | none => simp [Function.comp_def, Nat.add_assoc]
  | some n => rfl

/-- A range in which the closing mark is doubled ends at the first mark behind the pairs, on
whatever line. -/
theorem endsAfter?_doubled (opening : Code) (hline : mark ≠ '\n') {body rest : List Char}
    (hbody : Doubled mark body) (hrest : rest.head? ≠ some mark) :
    (Range.doubled opening (Code.of mark [])).endsAfter?
      (Text.splitOn '\n' (body ++ mark :: rest)) = some body.length := by
  induction hbody with
  | nil =>
      obtain ⟨line, lines, hlines⟩ := Text.exists_splitOn '\n' rest
      have hlone : line.head? ≠ some mark := by
        rw [Text.splitOn_flatten hlines, List.head?_append] at hrest
        exact fun h => hrest (by rw [h, Option.some_or])
      rw [List.nil_append, Text.splitOn_cons hlines, if_neg hline, Range.endsAfter?, Range.findEnd?,
        findSingle?_lone hlone]
      rfl
  | @pair cs next ih =>
      obtain ⟨line, lines, hlines⟩ := Text.exists_splitOn '\n' (cs ++ mark :: rest)
      have hmarks : '\n' ∉ [mark, mark] := by simpa using hline.symm
      have hsplit : Text.splitOn '\n' (mark :: mark :: cs ++ mark :: rest) =
          ([mark, mark] ++ line) :: lines := Text.splitOn_append hmarks hlines
      rw [hlines] at ih
      rw [hsplit, endsAfter?_append (findSingle?_pair line), ih]
      exact congrArg some (Nat.add_comm ..)
  | @other c cs hc next ih =>
      obtain ⟨line, lines, hlines⟩ := Text.exists_splitOn '\n' (cs ++ mark :: rest)
      rw [hlines] at ih
      rw [List.cons_append, Text.splitOn_cons hlines]
      by_cases hbreak : c = '\n'
      · have hempty : findSingle? (Code.of mark []) [] = none := by rw [findSingle?_mark]; rfl
        rw [if_pos hbreak, Range.endsAfter?, Range.findEnd?, hempty, ih]
        exact congrArg some (Nat.add_comm ..)
      · have hpasses : findSingle? (Code.of mark []) ([c] ++ line) =
            (findSingle? (Code.of mark []) line).map (1 + ·) := findSingle?_other hc line
        rw [if_neg hbreak]
        refine (endsAfter?_append hpasses lines).trans ?_
        rw [ih]
        exact congrArg some (Nat.add_comm ..)

end Ends

section Opens

variable {d : Dialect} {c : Cursor} {lead line : List Char}

theorem singleQuoted_mem (d : Dialect) : singleQuoted ∈ d.splitter.ranges := by
  cases d <;> decide

/-- Behind characters that are no marks, the first range of a line is the one that a quote opens. -/
theorem firstRange?_quote (hrest : c.rest = lead ++ '\x27' :: line)
    (hlead : ∀ c ∈ lead, isMark c = false) :
    firstRange? c d.splitter.ranges = some (lead.length, singleQuoted) := by
  have hquote : c.rest.drop lead.length = opener '\x27' :: line := by
    rw [hrest]
    exact List.drop_left ..
  obtain ⟨k, hle, hk⟩ : ∃ k ≤ lead.length, singleQuoted.findStart? c = some k :=
    Text.exists_find?_le (hquote ▸ ⟨line, rfl⟩)
  obtain ⟨n, r, hfirst, hn⟩ := firstRange?_le (singleQuoted_mem d) hk
  have hmove := move_opens (withinLines_splitter d) Text.endsLine_nil hfirst
  rw [List.append_nil] at hmove
  rcases Nat.lt_or_eq_of_le (Nat.le_trans hn hle) with hlt | rfl
  · -- no range opens at a character that is no mark
    have hat : c.rest.drop n = lead[n] :: (lead.drop (n + 1) ++ '\x27' :: line) := by
      rw [hrest, List.drop_append_of_le_length (Nat.le_of_lt hlt), List.drop_eq_getElem_cons hlt]
      rfl
    have hplain : (isMark lead[n] && lead[n] != ';') = false := by
      rw [hlead _ (List.getElem_mem hlt)]
      rfl
    rw [hat, move_plain_char d hplain] at hmove
    cases congrArg Move.range hmove
  · rw [hquote, quotes_single d] at hmove
    have hrange : some (quotedTo '\x27') = some r := congrArg Move.range hmove
    rw [hfirst, ← Option.some.inj hrange]
    rfl

/-- A line is scanned on in the range of a quote if no separator stands before the quote. -/
theorem scanLine_quote {blocks : BlockState} (hrest : c.rest = lead ++ '\x27' :: line)
    (hlead : ∀ c ∈ lead, isMark c = false)
    (hnone : d.splitter.separator.find blocks ⟨c.passed, lead, '\x27' :: line⟩ = (blocks, none)) :
    scanLine d.splitter ⟨[], blocks⟩ c =
      (.text lead none :: .text ['\x27'] (some singleQuoted) ::
        (scanLine d.splitter ⟨[singleQuoted], blocks⟩ (c.advance (lead.length + 1))).1,
        (scanLine d.splitter ⟨[singleQuoted], blocks⟩ (c.advance (lead.length + 1))).2) := by
  have hfirst := firstRange?_quote (d := d) hrest hlead
  have htake : c.rest.take lead.length = lead := by rw [hrest, List.take_left]
  have hdrop : c.rest.drop lead.length = '\x27' :: line := by rw [hrest, List.drop_left]
  have hfind : findToken d.splitter blocks c = (blocks, none) := by
    rw [findToken, plainLength, hfirst, Option.map_some, Option.getD_some, plainAt, htake, hdrop,
      hnone]
  have hscan := LineScan.opens (by simp [hrest]) hfirst hfind
    (lineScan_scanLine d.splitter ⟨[singleQuoted], blocks⟩ _)
  obtain ⟨hevents, hstate⟩ := (lineScan_scanLine d.splitter ⟨[], blocks⟩ c).unique hscan
  rw [htake, hdrop] at hevents
  exact Prod.ext hevents hstate

end Opens

end Script

/-- The mark of national characters, where the dialect has one. -/
def Dialect.nationalMark (d : Dialect) : List Char := if d = .sqlServer then ['N'] else []

/-- The characters between the quotes of a literal. -/
def Quoter.content (q : Quoter) (s : String) : List Char := s.toList.flatMap (escape q.dialect)

/-- The text that the characters between the quotes stand for: of two quotes side by side one is
left, and of two backslashes in the dialect that escapes with them. -/
def Dialect.decoded (d : Dialect) : List Char → List Char
  | a :: b :: cs =>
      if a = b ∧ (a = '\x27' ∨ d = .mySql ∧ a = '\\') then a :: d.decoded cs
      else a :: d.decoded (b :: cs)
  | cs => cs

/-- How many characters stand before the quote that closes a literal, where a backslash takes the
next character with it. -/
def escapedEnd? : List Char → Option Nat
  | '\\' :: _ :: cs => (escapedEnd? cs).map (2 + ·)
  | '\x27' :: '\x27' :: cs => (escapedEnd? cs).map (2 + ·)
  | '\x27' :: _ => some 0
  | _ :: cs => (escapedEnd? cs).map (1 + ·)
  | [] => none

section Content

variable {d : Dialect}

theorem decoded_escape (c : Char) (cs : List Char) :
    d.decoded (Quoter.escape d c ++ cs) = c :: d.decoded cs := by
  rw [Quoter.escape]
  split
  · rename_i hc
    subst hc
    rw [List.cons_append, List.singleton_append, Dialect.decoded, if_pos ⟨rfl, .inl rfl⟩]
  · rename_i hquote
    split
    · rename_i hc
      rw [List.cons_append, List.singleton_append, Dialect.decoded,
        if_pos ⟨rfl, .inr ⟨hc.1, rfl⟩⟩, hc.2]
    · rename_i hbackslash
      cases cs with
      | nil => rfl
      | cons b cs =>
          rw [List.singleton_append, Dialect.decoded, if_neg]
          rintro ⟨-, h | h⟩
          · exact hquote h
          · exact hbackslash h

theorem escapedEnd?_escape (c : Char) (cs : List Char) :
    escapedEnd? (Quoter.escape .mySql c ++ cs) =
      (escapedEnd? cs).map ((Quoter.escape .mySql c).length + ·) := by
  rw [Quoter.escape]
  split
  · rfl
  · rename_i hquote
    split
    · rfl
    · rename_i hbackslash
      have hslash : c ≠ '\\' := fun h => hbackslash ⟨rfl, h⟩
      rw [List.singleton_append, escapedEnd?]
      · rfl
      · exact fun _ _ h => absurd h hslash
      · exact fun _ h => absurd h hquote
      · exact hquote

end Content

section Literal

variable {q : Quoter}

theorem toList_string (q : Quoter) (s : String) : (q.string s).toList =
    q.dialect.nationalMark ++ '\x27' :: (q.content s ++ ['\x27']) := String.toList_ofList

/-- The characters between the quotes stand for the text. -/
theorem decoded_content (q : Quoter) (s : String) :
    q.dialect.decoded (q.content s) = s.toList := by
  rw [Quoter.content]
  induction s.toList with
  | nil => rfl
  | cons c cs ih => rw [List.flatMap_cons, decoded_escape, ih]

/-- Where a backslash takes the next character with it, the quote behind the text still closes. -/
theorem escapedEnd?_content (hq : q.dialect = .mySql) (s : String) {rest : List Char}
    (hrest : rest.head? ≠ some '\x27') :
    escapedEnd? (q.content s ++ '\x27' :: rest) = some (q.content s).length := by
  rw [Quoter.content, hq]
  induction s.toList with
  | nil =>
      cases rest with
      | nil => rfl
      | cons c rest =>
          have hc : c ≠ '\x27' := fun h => hrest (congrArg some h)
          rw [List.flatMap_nil, List.nil_append, escapedEnd?]
          · rfl
          · exact fun _ h => hc (List.cons.inj h).1
  | cons c cs ih =>
      rw [List.flatMap_cons, List.append_assoc, escapedEnd?_escape, ih, Option.map_some,
        List.length_append]

/-- Outside the range, a script finds no separator before the quote. -/
theorem find_nationalMark (d : Dialect) (line : List Char) :
    d.splitter.separator.find {} ⟨[], d.nationalMark, '\x27' :: line⟩ = ({}, none) := by
  cases d with
  | oracle =>
      have hwords : followWords {} none [] = ({}, none) := by rw [followWords]
      simp [Dialect.splitter, Separator.find, findOutsideBlocks, Dialect.nationalMark, hwords]
  | _ => rfl

/-- The range of a literal closes at the quote behind its content. -/
theorem endsAfter?_content (q : Quoter) (s : String) {rest : List Char}
    (hrest : rest.head? ≠ some '\x27') :
    singleQuoted.endsAfter? (Text.splitOn '\n' (q.content s ++ '\x27' :: rest)) =
      some (q.content s).length :=
  endsAfter?_doubled _ (by decide) (doubled_escape q.dialect s.toList) hrest

/-- A script opens the range of a literal at the first quote, stays in it on every line and has left
it behind the last quote. -/
theorem scan_string (q : Quoter) (s : String) {tail : List Char} (ht : Text.EndsLine tail) :
    scan q.dialect.splitter ((q.string s).toList ++ tail) =
      .text q.dialect.nationalMark none :: .text ['\x27'] (some singleQuoted) ::
        (singleQuoted.inside (Text.splitOn '\n' (q.content s ++ ['\x27'])) ++
          scanLines q.dialect.splitter {} (Text.splitOn '\n' tail).tail) := by
  obtain ⟨line, lines, hlines⟩ := Text.exists_splitOn '\n' (q.content s ++ ['\x27'])
  have hplain : q.dialect.nationalMark.all (fun c => !isMark c) = true := by
    cases q.dialect <;> rfl
  have hlead : ∀ c ∈ q.dialect.nationalMark, isMark c = false := fun c hc => by
    simpa using List.all_eq_true.1 hplain c hc
  have hbreak : '\n' ∉ q.dialect.nationalMark ++ ['\x27'] := by
    cases q.dialect <;> decide
  have hstring : Text.splitOn '\n' (q.string s).toList =
      (q.dialect.nationalMark ++ '\x27' :: line) :: lines := by
    have hall := Text.splitOn_append hbreak hlines
    rwa [List.append_assoc, List.append_assoc, List.singleton_append, List.singleton_append,
      ← toList_string] at hall
  obtain ⟨behind, htail, hsplit⟩ := Text.exists_splitOn_append hstring ht
  have hends : singleQuoted.endsAfter? (line :: lines) = some (q.content s).length :=
    hlines ▸ endsAfter?_content q s (by simp)
  have hlast : (q.content s).length + singleQuoted.closing.length =
      (line ++ lines.flatMap ('\n' :: ·)).length := by
    rw [← Text.splitOn_flatten hlines, List.length_append]
    rfl
  have hrest : ((Cursor.ofLine (q.dialect.nationalMark ++ '\x27' :: line)).advance
      (q.dialect.nationalMark.length + 1)).rest = line := by
    rw [Cursor.advance_rest, ← List.drop_drop]
    exact congrArg (List.drop 1) (List.drop_left ..)
  rw [← hrest] at hends hlast
  have hinside := scan_inside q.dialect.splitter {} hends hlast behind
  rw [hrest] at hinside
  have hline := scanLine_quote (c := .ofLine _) rfl hlead (find_nationalMark q.dialect line)
  rw [scan, hsplit, hlines, htail, List.tail_cons, ← hinside]
  dsimp only
  rw [hline]
  rfl

end Literal

/-- In every dialect a script reads a string literal as one range, from its first quote up to its
last one. That quote closes it whatever other character follows, and lines behind it are scanned as
if they were the script. The characters in between stand for the text, and they do not end early
where a backslash takes the next character with it. -/
theorem string_opaque (q : Quoter) (s : String) :
    let events := .text q.dialect.nationalMark none :: .text ['\x27'] (some singleQuoted) ::
      singleQuoted.inside (Text.splitOn '\n' (q.content s ++ ['\x27']))
    (q.string s).toList = q.dialect.nationalMark ++ '\x27' :: (q.content s ++ ['\x27']) ∧
      scan q.dialect.splitter (q.string s).toList = events ∧
      (∀ more, scan q.dialect.splitter ((q.string s).toList ++ '\n' :: more) =
        events ++ scanLines q.dialect.splitter {} (Text.splitOn '\n' more)) ∧
      (∀ rest, rest.head? ≠ some '\x27' →
        singleQuoted.endsAfter? (Text.splitOn '\n' (q.content s ++ '\x27' :: rest)) =
          some (q.content s).length) ∧
      q.dialect.decoded (q.content s) = s.toList ∧
      (q.dialect = .mySql → ∀ rest, rest.head? ≠ some '\x27' →
        escapedEnd? (q.content s ++ '\x27' :: rest) = some (q.content s).length) := by
  intro events
  refine ⟨toList_string q s, ?_, fun more => ?_, fun _ => endsAfter?_content q s,
    decoded_content q s, fun hq _ => escapedEnd?_content hq s⟩
  · have hscan := scan_string q s Text.endsLine_nil
    rwa [List.append_nil, Text.splitOn, List.tail_cons, scanLines, List.append_nil] at hscan
  · obtain ⟨part, parts, hparts⟩ := Text.exists_splitOn '\n' more
    have hscan := scan_string q s (Text.endsLine_newline more)
    rwa [Text.splitOn_cons hparts, if_pos rfl, List.tail_cons, ← hparts] at hscan

/-- A text with a quote before a line break and a backslash before a quote. -/
theorem string_opaque_mySql :
    let q := (Profile.of .mySql .strict {}).quoter
    let text := "it's\n\\'"
    q.string text = "'it''s\n\\\\'''" ∧
      scan q.dialect.splitter (q.string text).toList =
        [.text [] none, .text ['\x27'] (some singleQuoted),
          .text "it''s".toList (some singleQuoted), .text ['\n'] (some singleQuoted),
          .text "\\\\'''".toList (some singleQuoted)] ∧
      singleQuoted.endsAfter? (Text.splitOn '\n' (q.content text ++ ['\x27', ';'])) = some 10 ∧
      q.dialect.decoded (q.content text) = text.toList ∧
      escapedEnd? (q.content text ++ ['\x27', ';']) = some 10 := by
  intro q text
  obtain ⟨-, hscan, -, hends, hdecoded, hescaped⟩ := string_opaque q text
  have hlength : some (q.content text).length = some 10 := by decide +kernel
  exact ⟨by decide +kernel, hscan.trans (by decide +kernel),
    (hends [';'] (by decide)).trans hlength, hdecoded,
    (hescaped rfl [';'] (by decide)).trans hlength⟩

end SchemaChange
