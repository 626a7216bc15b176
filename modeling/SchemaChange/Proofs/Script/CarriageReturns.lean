import Mathlib.Data.List.Forall2
import SchemaChange.Proofs.Script.Exchange
import SchemaChange.Proofs.Script.Boundary

/-!
# Carriage returns

A carriage return at the end of a line belongs to no delimiter, no word and no separator, and it
is trimmed like every blank. So a script whose lines end in a carriage return and a line break is
cut at the same places, and its batches differ in these line ends only.
-/
namespace SchemaChange.Script

/-- The text with a carriage return before every line break. -/
def withReturns (s : String) : String :=
  String.ofList (Text.replaceAll ['\n'] ['\r', '\n'] s.toList)

/-- The text without the carriage returns that stand before a line break. -/
def withoutReturns (s : String) : String :=
  String.ofList (Text.replaceAll ['\r', '\n'] ['\n'] s.toList)

/-! ## Texts with other line ends -/

/-- The first text has no carriage returns; the second one has them before some of its line
breaks. -/
inductive LineEnds : List Char → List Char → Prop
  | nil : LineEnds [] []
  | same {c cs ds} (hc : c ≠ '\r') (others : LineEnds cs ds) : LineEnds (c :: cs) (c :: ds)
  | returns {cs ds} (others : LineEnds cs ds) : LineEnds ('\n' :: cs) ('\r' :: '\n' :: ds)

section LineEnds

variable {cs ds : List Char}

theorem LineEnds.replaceAll (h : LineEnds cs ds) :
    Text.replaceAll ['\r', '\n'] ['\n'] ds = cs := by
  induction h with
  | nil => rw [Text.replaceAll]
  | same hc others ih =>
      rw [Text.replaceAll, if_neg (by simp [List.isPrefixOf, Ne.symm hc]), ih]
  | returns others ih =>
      rw [Text.replaceAll, if_pos ⟨by simp, by simp [List.isPrefixOf]⟩]
      exact congrArg ('\n' :: ·) ih

theorem LineEnds.append_left {before : List Char} (hbefore : '\r' ∉ before)
    (h : LineEnds cs ds) : LineEnds (before ++ cs) (before ++ ds) := by
  induction before with
  | nil => exact h
  | cons c before ih =>
      rw [List.mem_cons, not_or] at hbefore
      exact .same (Ne.symm hbefore.1) (ih hbefore.2)

theorem LineEnds.trimStart (h : LineEnds cs ds) :
    LineEnds (Text.trimStart cs) (Text.trimStart ds) := by
  induction h with
  | nil => exact .nil
  | @same c cs ds hc others ih =>
      by_cases hblank : Text.isBlank c = true
      · simpa only [Text.trimStart, List.dropWhile_cons, hblank, if_true] using ih
      · rw [Text.trimStart, Text.trimStart, List.dropWhile_cons_of_neg hblank,
          List.dropWhile_cons_of_neg hblank]
        exact .same hc others
  | returns others ih => exact ih

theorem LineEnds.trimEnd (h : LineEnds cs ds) :
    LineEnds (Text.trimEnd cs) (Text.trimEnd ds) := by
  have hreturn : Text.isBlank '\r' = true := rfl
  have hbreak : Text.isBlank '\n' = true := rfl
  induction h with
  | nil => exact .nil
  | @same c cs ds hc others ih =>
      rw [Text.trimEnd, Text.trimEnd]
      generalize Text.trimEnd cs = cs' at ih
      generalize Text.trimEnd ds = ds' at ih
      cases ih with
      | nil =>
          dsimp only
          split
          · exact .nil
          · exact .same hc .nil
      | same hd more => exact .same hc (.same hd more)
      | returns more => exact .same hc (.returns more)
  | @returns cs ds others ih =>
      rw [Text.trimEnd, Text.trimEnd, Text.trimEnd]
      generalize Text.trimEnd cs = cs' at ih
      generalize Text.trimEnd ds = ds' at ih
      cases ih with
      | nil => simpa only [hreturn, hbreak, if_true] using LineEnds.nil
      | same hd more => exact .returns (.same hd more)
      | returns more => exact .returns (.returns more)

/-- Both texts give a batch, or neither does. -/
theorem LineEnds.batchOf? (h : LineEnds cs ds) (kind : BatchKind) :
    (batchOf? ds kind).map (fun batch => { batch with sql := withoutReturns batch.sql }) =
      batchOf? cs kind := by
  have htrimmed : LineEnds (Text.trimmed cs) (Text.trimmed ds) := h.trimStart.trimEnd
  rw [Script.batchOf?, Script.batchOf?]
  generalize Text.trimmed cs = cs' at htrimmed
  generalize Text.trimmed ds = ds' at htrimmed
  have hback := htrimmed.replaceAll
  cases htrimmed with
  | nil => rfl
  | same hc others | returns others =>
      simp only [Option.map_some, withoutReturns, String.toList_ofList, hback]

end LineEnds

/-! ## Searching before a carriage return -/

section Search

variable {code : Code}

theorem find?_return (hcode : '\r' ∉ code.chars) (cs : List Char) :
    Text.find? code.chars (cs ++ ['\r']) = Text.find? code.chars cs := by
  induction cs with
  | nil =>
      have hnone := not_isPrefixOf_foreign hcode []
      simp [Text.find?, hnone, code.ne_nil]
  | cons c cs ih =>
      have hprefix := confined_of_foreign hcode [] (c :: cs)
      rw [List.cons_append] at hprefix
      rw [List.cons_append, Text.find?, Text.find?, ih, hprefix]

theorem findSingle?_return (hcode : '\r' ∉ code.chars) (cs : List Char) :
    findSingle? code (cs ++ ['\r']) = findSingle? code cs := by
  have hprefix := confined_of_foreign hcode []
  fun_induction findSingle? code cs with
  | case1 cs hfind => rw [findSingle?_eq, find?_return hcode, hfind, Option.bind_none]
  | case2 cs n hfind behind hpair ih =>
      have hfound : n + code.length ≤ cs.length := Text.le_of_find? hfind
      have hlength : code.length ≤ behind.length := (List.isPrefixOf_iff_prefix.1 hpair).length_le
      rw [findSingle?_eq, find?_return hcode, hfind, Option.bind_some,
        List.drop_append_of_le_length hfound, hprefix, if_pos hpair,
        List.drop_append_of_le_length hlength, ih]
  | case3 cs n hfind behind hpair =>
      have hfound : n + code.length ≤ cs.length := Text.le_of_find? hfind
      rw [findSingle?_eq, find?_return hcode, hfind, Option.bind_some,
        List.drop_append_of_le_length hfound, hprefix, if_neg hpair]

/-- A range with a closing code does not see the carriage return. -/
theorem findEnd?_return {r : Range} (hopening : '\r' ∉ r.opening.chars)
    (hclosing : '\r' ∉ r.closing) (hlasting : r.closing ≠ []) (cs : List Char) :
    r.findEnd? (cs ++ ['\r']) = r.findEnd? cs := by
  cases r with
  | doubled opening closing => rw [Range.findEnd?, findSingle?_return hclosing, Range.findEnd?]
  | plain opening closing isComment =>
      rw [Range.findEnd?, find?_return hclosing, Range.findEnd?]
  | lineComment opening atLineStart => exact absurd rfl hlasting
  | nesting opening closing =>
      have hinner := find?_return hopening cs
      have houter := find?_return hclosing cs
      simp only [Range.opening] at hinner houter
      simp only [Range.findEnd?, hinner, houter]

theorem trimmed_return (cs : List Char) : Text.trimmed (cs ++ ['\r']) = Text.trimmed cs := by
  have hend : ∀ ds, Text.trimEnd (ds ++ ['\r']) = Text.trimEnd ds := fun ds => by
    rw [Text.trimEnd_append]
    rfl
  rw [Text.trimmed, Text.trimStart_append, Text.trimmed]
  split
  · rename_i hblank
    rw [hblank]
    rfl
  · exact hend _

theorem goCount?_return (cs : List Char) : goCount? (cs ++ ['\r']) = goCount? cs := by
  rw [goCount?, trimmed_return, goCount?]

theorem takeWord_return (cs : List Char) : takeWord (cs ++ ['\r']) = takeWord cs := by
  have hstops : ['\r'].takeWhile isWordChar = [] := rfl
  exact takeWord_append hstops cs

theorem nextWord?_return (cs : List Char) : nextWord? (cs ++ ['\r']) = nextWord? cs := by
  by_cases hblank : ∀ c ∈ cs, Text.isBlank c
  · have hnone := nextWord?_of_blanks hblank []
    rw [List.append_nil] at hnone
    rw [nextWord?_of_blanks hblank, hnone]
    rfl
  · exact nextWord?_parted hblank (.inr rfl)

theorem followWords_return (s : BlockState) (previous : Option Char) (cs : List Char) :
    followWords s previous (cs ++ ['\r']) = followWords s previous cs := by
  fun_induction followWords s previous cs with
  | case1 s previous =>
      have hreturn : isWordStart '\r' = false := rfl
      rw [List.nil_append, followWords, if_neg (by simp), hreturn, Bool.false_and,
        if_neg (by simp), followWords]
      rfl
  | case2 s previous c rest hends => rw [List.cons_append, followWords, if_pos hends]
  | case3 s previous c rest hgoes hstart word length hword following next joined hread taken s'
      found hfound ih =>
      have hc := (Bool.and_eq_true_iff.1 hstart).1
      have hpos := takeWord_length_pos hc rest
      have hle := (takeWord_eq hc rest).1
      rw [hword] at hpos hle
      have hbehind : (following.map (·.2)).getD 0 ≤ ((c :: rest).drop length).length := by
        cases hnext : following with
        | none => exact Nat.zero_le _
        | some next => exact (nextWord?_eq_some hnext).1
      have htaken : taken = if joined = true then length + (following.map (·.2)).getD 0
          else length := rfl
      have hbounds : 1 ≤ taken ∧ taken ≤ (c :: rest).length := by
        rw [List.length_drop] at hbehind
        rw [htaken]
        split <;> omega
      have hchars : takeWord (c :: (rest ++ ['\r'])) = (word, length) :=
        (takeWord_return (c :: rest)).trans hword
      have hfollowing : nextWord? ((c :: (rest ++ ['\r'])).drop length) = following := by
        rw [← List.cons_append, List.drop_append_of_le_length hle, nextWord?_return]
      have htake : (c :: (rest ++ ['\r'])).take taken = (c :: rest).take taken :=
        (List.take_append_of_le_length hbounds.2 :
          ((c :: rest) ++ ['\r']).take taken = (c :: rest).take taken)
      have hdrop : (rest ++ ['\r']).drop (taken - 1) = rest.drop (taken - 1) ++ ['\r'] :=
        List.drop_append_of_le_length (by rw [List.length_cons] at hbounds; omega)
      rw [dite_eq_ite] at hread
      rw [List.cons_append, followWords, if_neg hgoes, if_pos hstart]
      simp only [hchars, hfollowing, hread, ← htaken]
      rw [htake, hdrop, ih, hfound]
  | case4 s previous c rest hgoes hstart s' found hfound ih =>
      rw [hfound] at ih
      rw [List.cons_append, followWords, if_neg hgoes, if_neg hstart, ih]

end Search

/-! ## Lines that end in a carriage return -/

/-- The same place when the line ends in a carriage return. -/
def Cursor.withReturn (c : Cursor) : Cursor := ⟨c.passed, c.rest ++ ['\r']⟩

/-- The events of a line that ends in a carriage return, against those of the line without it.
The carriage return belongs to what is open behind the line or to a comment, unless it goes
with a separator. -/
inductive EndsInReturn (left : Option Range) (es es' : List Event) : Prop
  | text {range : Option Range} (hrange : range = left ∨ range.any Range.isComment)
      (h : ∀ more, taggedParts (es' ++ more) = taggedParts (es ++ .text ['\r'] range :: more))
  | separator (h : ∀ more, taggedParts (es' ++ more) = taggedParts (es ++ more))

theorem EndsInReturn.cons {left : Option Range} {es es' : List Event}
    (h : EndsInReturn left es es') (e : Event) : EndsInReturn left (e :: es) (e :: es') := by
  cases h with
  | text hrange h => exact .text hrange fun more => taggedParts_cons e (h more)
  | separator h => exact .separator fun more => taggedParts_cons e (h more)

theorem endsInReturn_text (cs : List Char) (range : Option Range) :
    EndsInReturn range [.text cs range] [.text (cs ++ ['\r']) range] :=
  .text (.inl rfl) fun more => taggedParts_join cs ['\r'] range more

section Line

variable {sp : Splitter} {c : Cursor}

theorem withReturn_advance {n : Nat} (hn : n ≤ c.rest.length) :
    c.withReturn.advance n = (c.advance n).withReturn := by
  rw [Cursor.advance, Cursor.withReturn, List.take_append_of_le_length hn,
    List.drop_append_of_le_length hn]
  rfl

theorem firstRange?_return {ranges : List Range} (hranges : ∀ r ∈ ranges, r.WithinLines)
    (hreturn : Foreign ranges '\r') (c : Cursor) :
    firstRange? c.withReturn ranges = firstRange? c ranges := by
  induction ranges with
  | nil => rfl
  | cons r ranges ih =>
      obtain ⟨hr, hothers⟩ := List.forall_mem_cons.1 hranges
      obtain ⟨hcode, hcodes⟩ := List.forall_mem_cons.1 hreturn
      have hstart : r.findStart? c.withReturn = r.findStart? c := by
        rw [hr.findStart?, hr.findStart?]
        exact find?_return hcode.1 c.rest
      rw [firstRange?, firstRange?, hstart, ih hothers hcodes]

/-- A separator is found in a plain text whether or not its line ends in a carriage return. -/
theorem find_text_return (separator : Separator) (blocks : BlockState) (passed cs : List Char) :
    separator.find blocks ⟨passed, cs ++ ['\r'], []⟩ = separator.find blocks ⟨passed, cs, []⟩ := by
  cases separator with
  | go => simp only [Separator.find, findGo?, goCount?_return]
  | semicolon =>
      have hsemi : (cs ++ ['\r']).findIdx? (· == ';') = cs.findIdx? (· == ';') := by
        simp [List.findIdx?_append]
      simp only [Separator.find, findSemicolon?, hsemi]
  | blocks => simp only [Separator.find, findOutsideBlocks, trimmed_return, followWords_return]

theorem find_after_return (separator : Separator) (blocks : BlockState) (passed cs : List Char)
    {after : List Char} (hafter : after ≠ []) :
    separator.find blocks ⟨passed, cs, after ++ ['\r']⟩ =
      separator.find blocks ⟨passed, cs, after⟩ := by
  have hopen : (after ++ ['\r']).isEmpty = after.isEmpty := by
    cases after with
    | nil => exact absurd rfl hafter
    | cons c after => rfl
  have hdashes : ['-', '-'].isPrefixOf (after ++ ['\r']) = ['-', '-'].isPrefixOf after :=
    confined_of_foreign (by decide) [] after
  cases separator with
  | go => simp only [Separator.find, findGo?, hopen, hdashes]
  | semicolon => rfl
  | blocks => simp only [Separator.find, findOutsideBlocks, hopen]

/-- The carriage return hides no separator and makes none. -/
theorem findToken_return (hranges : ∀ r ∈ sp.ranges, r.WithinLines)
    (hreturn : Foreign sp.ranges '\r') (blocks : BlockState) (c : Cursor) :
    findToken sp blocks c.withReturn = findToken sp blocks c := by
  have hfirst := firstRange?_return hranges hreturn c
  rw [findToken, findToken, plainAt, plainAt, plainLength, plainLength, hfirst]
  cases hrange : firstRange? c sp.ranges with
  | none =>
      simp only [Option.map_none, Option.getD_none, List.take_length, List.drop_length]
      exact find_text_return _ _ _ _
  | some first =>
      obtain ⟨n, r⟩ := first
      have hn := (opening_le hrange).2
      have hpos := r.opening.length_pos
      have hle : n ≤ c.rest.length := by omega
      have hafter : c.rest.drop n ≠ [] := by
        rw [Ne, List.drop_eq_nil_iff]
        omega
      simp only [Option.map_some, Option.getD_some, Cursor.withReturn,
        List.take_append_of_le_length hle, List.drop_append_of_le_length hle]
      exact find_after_return _ _ _ _ hafter

/-- At the end of a line nothing is added and only line comments are closed. -/
theorem LineScan.at_end {st st' : ScanState} {es : List Event} (h : LineScan sp st c es st')
    (hrest : c.rest = []) {c' : Cursor} (hrest' : c'.rest = []) :
    LineScan sp st c' es st' ∧ ∀ more, taggedParts (es ++ more) = taggedParts more := by
  induction h generalizing c' with
  | @closes r outer blocks c n es st hend next ih =>
      rw [hrest] at hend
      have hbehind : (c.advance (n + r.closing.length)).rest = [] := by simp [hrest]
      have hbehind' : (c'.advance (n + r.closing.length)).rest = [] := by simp [hrest']
      obtain ⟨hscan, hparts⟩ := ih hbehind hbehind'
      have htaken : c.rest.take (n + r.closing.length) = c'.rest.take (n + r.closing.length) := by
        rw [hrest, hrest']
      refine ⟨?_, fun more => ?_⟩
      · rw [htaken]
        exact .closes (by rw [hrest']; exact hend) hscan
      · rw [hrest, List.take_nil, List.cons_append, taggedParts_text, hparts]
        rfl
  | nests hend next ih => exact absurd hrest (Range.ne_nil_of_nests hend)
  | stays hend =>
      rw [hrest] at hend ⊢
      refine ⟨?_, fun more => rfl⟩
      rw [← hrest'] at hend ⊢
      exact .stays hend
  | ends hnil => exact ⟨.ends hrest', fun _ => rfl⟩
  | keeps hne | drops hne | wholeLine hne | plain hne | opens hne => exact absurd hrest hne

/-- A line that ends in a carriage return is scanned as the line without it. -/
theorem LineScan.withReturn (hranges : ∀ r ∈ sp.ranges, r.WithinLines)
    (hreturn : Foreign sp.ranges '\r') {st st' : ScanState} {es : List Event}
    (h : LineScan sp st c es st') (hopen : ∀ r ∈ st.ranges, r ∈ sp.ranges) :
    ∃ es', LineScan sp st c.withReturn es' st' ∧ EndsInReturn st'.ranges.head? es es' := by
  have hne : ∀ c : Cursor, c.withReturn.rest ≠ [] := fun c => by simp [Cursor.withReturn]
  induction h with
  | @closes r outer blocks c n es st hend next ih =>
      by_cases hclosing : r.closing = []
      · -- a line comment takes the carriage return
        obtain ⟨opening, atLineStart, rfl⟩ := eq_lineComment hclosing
        cases hend
        have hline : ∀ line : List Char, line.take (line.length +
            (Range.lineComment opening atLineStart).closing.length) = line :=
          fun line => List.take_of_length_le (Nat.le_refl _)
        have hbehind : (c.withReturn.advance (c.withReturn.rest.length +
            (Range.lineComment opening atLineStart).closing.length)).rest = [] := by simp
        have hcomment : (some (Range.lineComment opening atLineStart)).any Range.isComment := rfl
        obtain ⟨hscan, hparts⟩ := next.at_end (by simp) hbehind
        refine ⟨_, .closes rfl hscan, .text (.inr hcomment) fun more => ?_⟩
        rw [hline, hline, List.cons_append, List.cons_append,
          taggedParts_cons _ (hparts more), taggedParts_cons _ (hparts _)]
        exact taggedParts_join _ _ _ _
      · have hcode := hreturn r (hopen r (List.mem_cons_self ..))
        have hn : n + r.closing.length ≤ c.rest.length := closing_le hend
        obtain ⟨es', hscan, hreturned⟩ := ih fun r hr => hopen r (List.mem_cons_of_mem _ hr)
        rw [← withReturn_advance hn] at hscan
        refine ⟨_, .closes ((findEnd?_return hcode.1 hcode.2 hclosing c.rest).trans hend) hscan, ?_⟩
        rw [Cursor.withReturn, List.take_append_of_le_length hn]
        exact hreturned.cons _
  | @nests r outer blocks c n es st hend next ih =>
      have hcode := hreturn r (hopen r (List.mem_cons_self ..))
      have hn : n + r.opening.length ≤ c.rest.length := nesting_le hend
      obtain ⟨es', hscan, hreturned⟩ := ih (by simpa using hopen)
      rw [← withReturn_advance hn] at hscan
      have hclosing : r.closing ≠ [] := closing_ne_nil hend nofun
      refine ⟨_, .nests ((findEnd?_return hcode.1 hcode.2 hclosing c.rest).trans hend) hscan, ?_⟩
      rw [Cursor.withReturn, List.take_append_of_le_length hn]
      exact hreturned.cons _
  | @stays r outer blocks c hend =>
      have hcode := hreturn r (hopen r (List.mem_cons_self ..))
      have hclosing : r.closing ≠ [] := closing_ne_nil hend nofun
      exact ⟨_, .stays ((findEnd?_return hcode.1 hcode.2 hclosing c.rest).trans hend),
        endsInReturn_text c.rest (some r)⟩
  | @ends blocks c hrest =>
      have hnil : findToken sp blocks c = (blocks, none) := findToken_of_rest_nil sp hrest blocks
      refine ⟨_, .plain (hne c) ((firstRange?_return hranges hreturn c).trans
        (firstRange?_of_rest_nil hrest _)) ((findToken_return hranges hreturn _ _).trans hnil),
        .text (.inl rfl) fun more => ?_⟩
      rw [Cursor.withReturn, hrest]
      rfl
  | @keeps blocks blocks' c n es st hrest hfind next ih =>
      have hn : n + 1 ≤ c.rest.length :=
        (List.getElem?_eq_some_iff.1 (findToken_mark hfind).2).1
      obtain ⟨es', hscan, hreturned⟩ := ih hopen
      rw [← withReturn_advance hn] at hscan
      refine ⟨_, .keeps (hne c) ((findToken_return hranges hreturn _ _).trans hfind) hscan, ?_⟩
      rw [Cursor.withReturn, List.take_append_of_le_length hn]
      exact (hreturned.cons _).cons _
  | @drops blocks blocks' c n es st hrest hfind next ih =>
      have hn : n + 1 ≤ c.rest.length :=
        (List.getElem?_eq_some_iff.1 (findToken_mark hfind).2).1
      obtain ⟨es', hscan, hreturned⟩ := ih hopen
      rw [← withReturn_advance hn] at hscan
      refine ⟨_, .drops (hne c) ((findToken_return hranges hreturn _ _).trans hfind) hscan, ?_⟩
      rw [Cursor.withReturn, List.take_append_of_le_length (by omega)]
      exact (hreturned.cons _).cons _
  | @wholeLine blocks blocks' c kind hrest hfind =>
      exact ⟨_, .wholeLine (hne c) ((findToken_return hranges hreturn _ _).trans hfind),
        .separator fun more => rfl⟩
  | @plain blocks blocks' c hrest hrange hfind =>
      exact ⟨_, .plain (hne c) ((firstRange?_return hranges hreturn c).trans hrange)
        ((findToken_return hranges hreturn _ _).trans hfind), endsInReturn_text c.rest none⟩
  | @opens blocks blocks' c n r es st hrest hrange hfind next ih =>
      obtain ⟨hmem, hn⟩ := opening_le hrange
      obtain ⟨es', hscan, hreturned⟩ := ih (by simpa using hmem)
      rw [← withReturn_advance hn] at hscan
      refine ⟨_, .opens (hne c) ((firstRange?_return hranges hreturn c).trans hrange)
        ((findToken_return hranges hreturn _ _).trans hfind) hscan, ?_⟩
      have hcode : r.opening.length ≤ (c.rest.drop n).length := by
        rw [List.length_drop]
        omega
      rw [Cursor.withReturn, List.take_append_of_le_length (by omega),
        List.drop_append_of_le_length (by omega), List.take_append_of_le_length hcode]
      exact (hreturned.cons _).cons _

end Line

/-! ## Scripts whose lines end in a carriage return -/

/-- A carriage return behind every line but the last one. -/
def returned : List (List Char) → List (List Char)
  | [] => []
  | [line] => [line]
  | line :: next :: lines => (line ++ ['\r']) :: returned (next :: lines)

theorem splitOn_returns (cs : List Char) :
    Text.splitOn '\n' (Text.replaceAll ['\n'] ['\r', '\n'] cs) =
      returned (Text.splitOn '\n' cs) := by
  induction cs with
  | nil => simp [Text.replaceAll, Text.splitOn, returned]
  | cons c cs ih =>
      obtain ⟨line, lines, hsplit⟩ := Text.exists_splitOn '\n' cs
      obtain ⟨line', lines', hreturned⟩ :=
        Text.exists_splitOn '\n' (Text.replaceAll ['\n'] ['\r', '\n'] cs)
      rw [hsplit, hreturned] at ih
      by_cases hc : c = '\n'
      · subst hc
        have hbreak := Text.splitOn_cons hreturned '\n'
        have hreplaced : Text.replaceAll ['\n'] ['\r', '\n'] ('\n' :: cs) =
            '\r' :: '\n' :: Text.replaceAll ['\n'] ['\r', '\n'] cs := by
          rw [Text.replaceAll, if_pos ⟨by simp, by simp [List.isPrefixOf]⟩]
          rfl
        rw [if_pos rfl] at hbreak
        rw [hreplaced, Text.splitOn_cons hbreak, if_neg (by decide), Text.splitOn_cons hsplit,
          if_pos rfl, returned, ih]
        rfl
      · have hreplaced : Text.replaceAll ['\n'] ['\r', '\n'] (c :: cs) =
            c :: Text.replaceAll ['\n'] ['\r', '\n'] cs := by
          rw [Text.replaceAll, if_neg (by simp [List.isPrefixOf, Ne.symm hc])]
        rw [hreplaced, Text.splitOn_cons hreturned, if_neg hc, Text.splitOn_cons hsplit, if_neg hc]
        cases lines with
        | nil =>
            obtain ⟨rfl, rfl⟩ := List.cons.inj ih
            rfl
        | cons next lines =>
            obtain ⟨rfl, rfl⟩ := List.cons.inj ih
            rfl

/-- Events whose parts have the same kinds and, perhaps without comments, the same texts but for
their line ends. -/
def AlikeParts (strip : Bool) (es es' : List Event) : Prop :=
  List.Forall₂ (fun p q => LineEnds (withoutComments strip p.1) (withoutComments strip q.1) ∧
    p.2 = q.2) (partList es) (partList es')

section Parts

variable {strip : Bool} {es es' : List Event}

theorem AlikeParts.cons (h : AlikeParts strip es es') {e : Event} (he : '\r' ∉ e.chars) :
    AlikeParts strip (e :: es) (e :: es') := by
  cases e with
  | cut separator kind =>
      rw [AlikeParts, partList, partList, taggedParts_cut, taggedParts_cut]
      exact .cons ⟨.nil, rfl⟩ h
  | text chars range =>
      obtain ⟨⟨hfirst, hkind⟩, hothers⟩ := List.forall₂_cons.1 h
      rw [AlikeParts, partList, partList, taggedParts_text, taggedParts_text]
      refine .cons ⟨?_, hkind⟩ hothers
      rw [withoutComments_append, withoutComments_append, withoutComments_range]
      refine hfirst.append_left fun hmem => he ?_
      split at hmem
      · cases hmem
      · exact hmem

theorem AlikeParts.append_left (h : AlikeParts strip es es') {before : List Event}
    (hbefore : '\r' ∉ before.flatMap Event.chars) :
    AlikeParts strip (before ++ es) (before ++ es') := by
  induction before with
  | nil => exact h
  | cons e before ih =>
      rw [List.flatMap_cons, List.mem_append, not_or] at hbefore
      exact (ih hbefore.2).cons hbefore.1

theorem alikeParts_refl (strip : Bool) {es : List Event} (h : '\r' ∉ es.flatMap Event.chars) :
    AlikeParts strip es es := by
  have hnil : AlikeParts strip [] [] := List.Forall₂.cons ⟨.nil, rfl⟩ .nil
  simpa using hnil.append_left h

/-- A carriage return before a line break is kept or left out with it, or it is the end of a
comment. -/
theorem AlikeParts.newline (h : AlikeParts strip es es') {range left : Option Range}
    (hrange : range = left ∨ range.any Range.isComment) :
    AlikeParts strip (.text ['\n'] left :: es)
      (.text ['\r'] range :: .text ['\n'] left :: es') := by
  obtain ⟨⟨hfirst, hkind⟩, hothers⟩ := List.forall₂_cons.1 h
  rw [AlikeParts, partList, partList, taggedParts_text, taggedParts_text, taggedParts_text]
  refine .cons ⟨?_, hkind⟩ hothers
  simp only [withoutComments_append, withoutComments_range]
  rcases hrange with rfl | hcomment
  · split
    · exact hfirst
    · exact .returns hfirst
  · rw [hcomment, Bool.and_true]
    cases strip with
    | true =>
        rw [if_pos rfl, List.nil_append]
        exact hfirst.append_left (by split <;> decide)
    | false => exact .returns hfirst

/-- A line with its break stands before others, with a carriage return or without. -/
theorem EndsInReturn.alikeParts {left : Option Range} {before before' : List Event}
    (hbefore : EndsInReturn left before before') (hchars : '\r' ∉ before.flatMap Event.chars)
    (h : AlikeParts strip es es') :
    AlikeParts strip (before ++ .text ['\n'] left :: es)
      (before' ++ .text ['\n'] left :: es') := by
  have hcongr : ∀ {es₁ es₂ : List Event}, taggedParts es₁ = taggedParts es₂ →
      partList es₁ = partList es₂ := fun he => by rw [partList, he, partList]
  cases hbefore with
  | text hrange hparts =>
      rw [AlikeParts, hcongr (hparts _)]
      exact (h.newline hrange).append_left hchars
  | separator hparts =>
      rw [AlikeParts, hcongr (hparts _)]
      exact (h.cons (by simp [Event.chars])).append_left hchars

/-- Alike parts give the same batches but for their line ends. -/
theorem AlikeParts.batches (h : AlikeParts strip es es') :
    ((partList es').filterMap fun (tags, kind) => batchOf? (withoutComments strip tags) kind).map
        (fun batch => { batch with sql := withoutReturns batch.sql }) =
      (partList es).filterMap fun (tags, kind) => batchOf? (withoutComments strip tags) kind := by
  unfold AlikeParts at h
  rw [List.map_filterMap]
  generalize partList es = ps at h
  generalize partList es' = qs at h
  induction h with
  | nil => rfl
  | @cons p q ps qs hpart others ih =>
      obtain ⟨tags, kind⟩ := p
      obtain ⟨tags', kind'⟩ := q
      obtain rfl : kind = kind' := hpart.2
      simp only [List.filterMap_cons, ih, hpart.1.batchOf? kind]

end Parts

section Script

variable {sp : Splitter}

/-- The events of a line and of the lines behind it. -/
theorem alikeParts_lines (hranges : ∀ r ∈ sp.ranges, r.WithinLines)
    (hreturn : Foreign sp.ranges '\r') (strip : Bool) {st : ScanState}
    (hopen : ∀ r ∈ st.ranges, r ∈ sp.ranges) {line : List Char} {lines : List (List Char)}
    (hlines : ∀ l ∈ line :: lines, '\r' ∉ l) {line' : List Char} {lines' : List (List Char)}
    (hreturned : returned (line :: lines) = line' :: lines') :
    AlikeParts strip
      ((scanLine sp st (.ofLine line)).1 ++
        scanLines sp (scanLine sp st (.ofLine line)).2 lines)
      ((scanLine sp st (.ofLine line')).1 ++
        scanLines sp (scanLine sp st (.ofLine line')).2 lines') := by
  have hscan := lineScan_scanLine sp st (.ofLine line)
  have hchars : '\r' ∉ (scanLine sp st (.ofLine line)).1.flatMap Event.chars := by
    rw [hscan.chars]
    exact hlines line (List.mem_cons_self ..)
  induction lines generalizing st line line' lines' with
  | nil =>
      obtain ⟨rfl, rfl⟩ := List.cons.inj hreturned
      rw [scanLines, List.append_nil]
      exact alikeParts_refl strip hchars
  | cons next lines ih =>
      obtain ⟨rfl, hothers⟩ := List.cons.inj hreturned
      obtain ⟨next', others', hnext⟩ : ∃ next' others', returned (next :: lines) =
          next' :: others' := by
        cases lines with
        | nil => exact ⟨_, _, rfl⟩
        | cons next lines => exact ⟨_, _, rfl⟩
      rw [hnext] at hothers
      subst hothers
      obtain ⟨es', hscan', hends⟩ := hscan.withReturn hranges hreturn hopen
      obtain ⟨hes, hst⟩ :=
        (lineScan_scanLine sp st (.ofLine (line ++ ['\r']))).unique hscan'
      rw [hes, hst, scanLines, scanLines]
      have hbehind := (hscan.leftOpen hopen).known
      have hscans := lineScan_scanLine sp (scanLine sp st (.ofLine line)).2 (.ofLine next)
      refine hends.alikeParts hchars (ih hbehind (fun l hl => hlines l (List.mem_cons_of_mem _ hl))
        hnext hscans ?_)
      rw [hscans.chars]
      exact hlines next (by simp)

end Script

/-- Carriage returns before the line breaks change nothing but themselves: a script without
carriage returns has the same batches when each of its line breaks is written as a carriage
return and a line break, and these are put back in the batches. -/
theorem split_withReturns (d : Dialect) (strip : Bool) {script : String}
    (hscript : '\r' ∉ script.toList) :
    ((d.splitter.withStripComments strip).split (withReturns script)).map
        (fun batch => { batch with sql := withoutReturns batch.sql }) =
      (d.splitter.withStripComments strip).split script := by
  have hranges : ∀ r ∈ (d.splitter.withStripComments strip).ranges, r.WithinLines :=
    withinLines_splitter d
  have hreturn : Foreign d.splitter.ranges '\r' := by cases d <;> decide
  obtain ⟨line, lines, hsplit⟩ := Text.exists_splitOn '\n' script.toList
  obtain ⟨line', lines', hsplit'⟩ := Text.exists_splitOn '\n' (withReturns script).toList
  have hreturned : returned (line :: lines) = line' :: lines' := by
    rw [← hsplit, ← splitOn_returns, ← hsplit', withReturns, String.toList_ofList]
  have hlines : ∀ l ∈ line :: lines, '\r' ∉ l := by
    intro l hl hmem
    obtain ⟨before, after, htext, -⟩ := Text.exists_of_mem_splitOn (hsplit ▸ hl)
    exact hscript (by simp [htext, hmem])
  have halike : AlikeParts strip (scan (d.splitter.withStripComments strip) script.toList)
      (scan (d.splitter.withStripComments strip) (withReturns script).toList) := by
    rw [scan, scan, hsplit, hsplit']
    exact alikeParts_lines hranges hreturn strip (by simp) hlines hreturned
  rw [split_eq_partList, split_eq_partList]
  exact halike.batches

/-- Returns in a string, behind a comment and on a line that separates. -/
theorem split_withReturns_go :
    let script := "SELECT 'a\nGO\nb' -- c\n\n GO 2 -- d\nSELECT 1\n"
    '\r' ∉ script.toList ∧
      ((Dialect.sqlServer.splitter.withStripComments true).split (withReturns script)).map
          (fun batch => { batch with sql := withoutReturns batch.sql }) =
        [⟨"SELECT 'a\nGO\nb'", .separator 2⟩, ⟨"SELECT 1", .statement⟩] := by
  intro script
  have hscript : '\r' ∉ script.toList := by decide
  exact ⟨hscript, (split_withReturns .sqlServer true hscript).trans (by decide +kernel)⟩

end SchemaChange.Script
