import Mathlib
import SchemaChange.Proofs.Script.Exchange

/-!
# Letter case

No rule of a splitter tells the two cases of a letter apart: delimiters hold no letters, and
the words of separators and blocks are read in upper case. So a script whose letters change
their case is cut at the same places, and its batches change with it.
-/
namespace SchemaChange.Script

/-! ## Characters -/

/-- A change of characters that keeps all of a character but the case of a letter. -/
def KeepsLetters (f : Char → Char) : Prop := ∀ c, (f c).toUpper = c.toUpper

section Characters

variable {f : Char → Char} {c : Char}

theorem isAlpha_iff : c.isAlpha = true ↔
    (65 ≤ c.toNat ∧ c.toNat ≤ 90) ∨ (97 ≤ c.toNat ∧ c.toNat ≤ 122) := by
  simp [Char.isAlpha, Char.isUpper, Char.isLower, UInt32.le_iff_toNat_le]

theorem keepsLetters_toLower : KeepsLetters Char.toLower := Char.toUpper_toLower_eq_toUpper

theorem KeepsLetters.isAlpha_eq (hf : KeepsLetters f) (c : Char) : (f c).isAlpha = c.isAlpha := by
  rw [← Char.isUpper_toUpper_eq_isAlpha, hf c, Char.isUpper_toUpper_eq_isAlpha]

theorem not_isLower_of_not_isAlpha (h : c.isAlpha = false) : ¬c.isLower := by
  rw [Char.isAlpha, Bool.or_eq_false_iff] at h
  simp [h.2]

theorem KeepsLetters.eq_self (hf : KeepsLetters f) (h : c.isAlpha = false) : f c = c := by
  have hsame := hf c
  have hother : (f c).isAlpha = false := (hf.isAlpha_eq c).trans h
  rwa [Char.toUpper_eq_of_not_isLower (not_isLower_of_not_isAlpha hother),
    Char.toUpper_eq_of_not_isLower (not_isLower_of_not_isAlpha h)] at hsame

/-- What is the same for all letters is the same in both cases. -/
theorem KeepsLetters.congr {α : Type} {p : Char → α} {a : α} (hf : KeepsLetters f)
    (hp : ∀ c, c.isAlpha = true → p c = a) (c : Char) : p (f c) = p c := by
  cases h : c.isAlpha with
  | false => rw [hf.eq_self h]
  | true => rw [hp _ ((hf.isAlpha_eq c).trans h), hp c h]

theorem not_isBlank_of_isAlpha (h : c.isAlpha = true) : Text.isBlank c = false := by
  rw [isAlpha_iff] at h
  simp only [Text.isBlank, Bool.or_eq_false_iff, Bool.and_eq_false_iff, beq_eq_false_iff_ne,
    decide_eq_false_iff_not]
  omega

theorem not_isDigit_of_isAlpha (h : c.isAlpha = true) : Text.isDigit c = false := by
  have hapart : ∀ r ∈ Text.digitRanges, r.2 < 65 ∨ 122 < r.1 := by decide
  rw [isAlpha_iff] at h
  refine List.any_eq_false.2 fun r hr => ?_
  have := hapart r hr
  simp only [Bool.and_eq_true, decide_eq_true_eq]
  omega

theorem KeepsLetters.isBlank_eq (hf : KeepsLetters f) (c : Char) :
    Text.isBlank (f c) = Text.isBlank c :=
  hf.congr (fun _ => not_isBlank_of_isAlpha) c

theorem KeepsLetters.isDigit_eq (hf : KeepsLetters f) (c : Char) :
    Text.isDigit (f c) = Text.isDigit c :=
  hf.congr (fun _ => not_isDigit_of_isAlpha) c

theorem KeepsLetters.isWordStart_eq (hf : KeepsLetters f) (c : Char) :
    isWordStart (f c) = isWordStart c :=
  hf.congr (a := true) (fun c hc => by simp [isWordStart, hc]) c

theorem KeepsLetters.isWordChar_eq (hf : KeepsLetters f) (c : Char) :
    isWordChar (f c) = isWordChar c :=
  hf.congr (a := true) (fun c hc => by simp [isWordChar, Char.isAlphanum, hc]) c

/-- A character that is no letter stays and comes from no other one. -/
theorem KeepsLetters.eq_iff (hf : KeepsLetters f) {mark : Char} (hmark : mark.isAlpha = false)
    (c : Char) : f c = mark ↔ c = mark := by
  constructor
  · rintro rfl
    have hc : c.isAlpha = false := (hf.isAlpha_eq c).symm.trans hmark
    exact (hf.eq_self hc).symm
  · rintro rfl
    exact hf.eq_self hmark

end Characters

/-! ## Texts -/

section Texts

variable {f : Char → Char} {cs : List Char}

theorem KeepsLetters.trimStart_map (hf : KeepsLetters f) (cs : List Char) :
    Text.trimStart (cs.map f) = (Text.trimStart cs).map f := by
  have hblank : Text.isBlank ∘ f = Text.isBlank := funext hf.isBlank_eq
  rw [Text.trimStart, List.dropWhile_map, hblank, Text.trimStart]

theorem KeepsLetters.trimEnd_map (hf : KeepsLetters f) (cs : List Char) :
    Text.trimEnd (cs.map f) = (Text.trimEnd cs).map f := by
  induction cs with
  | nil => rfl
  | cons c cs ih =>
      rw [List.map_cons, Text.trimEnd, Text.trimEnd, ih, hf.isBlank_eq]
      cases Text.trimEnd cs with
      | nil => cases Text.isBlank c <;> rfl
      | cons d ds => rfl

theorem KeepsLetters.trimmed_map (hf : KeepsLetters f) (cs : List Char) :
    Text.trimmed (cs.map f) = (Text.trimmed cs).map f := by
  rw [Text.trimmed, hf.trimStart_map, hf.trimEnd_map, Text.trimmed]

theorem KeepsLetters.splitOn_map (hf : KeepsLetters f) {mark : Char} (hmark : mark.isAlpha = false)
    (cs : List Char) : Text.splitOn mark (cs.map f) = (Text.splitOn mark cs).map (List.map f) := by
  induction cs with
  | nil => rfl
  | cons c cs ih =>
      obtain ⟨line, lines, hsplit⟩ := Text.exists_splitOn mark cs
      rw [hsplit, List.map_cons] at ih
      rw [List.map_cons, Text.splitOn_cons ih, Text.splitOn_cons hsplit]
      simp only [hf.eq_iff hmark]
      split <;> rfl

/-- A delimiter without letters. -/
def Code.IsLetterless (code : Code) : Prop := ∀ c ∈ code.chars, c.isAlpha = false

theorem KeepsLetters.isPrefixOf_map (hf : KeepsLetters f) {pattern : List Char}
    (hpattern : ∀ c ∈ pattern, c.isAlpha = false) (cs : List Char) :
    pattern.isPrefixOf (cs.map f) = pattern.isPrefixOf cs := by
  induction pattern generalizing cs with
  | nil => simp
  | cons p pattern ih =>
      cases cs with
      | nil => rfl
      | cons c cs =>
          obtain ⟨hp, hothers⟩ := List.forall_mem_cons.1 hpattern
          have hsame : (p == f c) = (p == c) := by
            rw [Bool.eq_iff_iff, beq_iff_eq, beq_iff_eq, eq_comm, hf.eq_iff hp, eq_comm]
          rw [List.map_cons, List.isPrefixOf_cons_cons, List.isPrefixOf_cons_cons, hsame,
            ih hothers]

theorem KeepsLetters.find?_map (hf : KeepsLetters f) {pattern : List Char}
    (hpattern : ∀ c ∈ pattern, c.isAlpha = false) (cs : List Char) :
    Text.find? pattern (cs.map f) = Text.find? pattern cs := by
  induction cs with
  | nil => rfl
  | cons c cs ih =>
      have hprefix := hf.isPrefixOf_map hpattern (c :: cs)
      rw [List.map_cons] at hprefix
      rw [List.map_cons, Text.find?, Text.find?, ih, hprefix]

theorem KeepsLetters.findSingle?_map (hf : KeepsLetters f) {code : Code} (hcode : code.IsLetterless)
    (cs : List Char) : findSingle? code (cs.map f) = findSingle? code cs := by
  fun_induction findSingle? code cs with
  | case1 cs hfind => rw [findSingle?_eq, hf.find?_map hcode, hfind, Option.bind_none]
  | case2 cs n hfind behind hprefix ih =>
      rw [findSingle?_eq, hf.find?_map hcode, hfind, Option.bind_some, ← List.map_drop,
        hf.isPrefixOf_map hcode, if_pos hprefix, ← List.map_drop, ih]
  | case3 cs n hfind behind hprefix =>
      rw [findSingle?_eq, hf.find?_map hcode, hfind, Option.bind_some, ← List.map_drop,
        hf.isPrefixOf_map hcode, if_neg hprefix]

end Texts

/-! ## Ranges and separators -/

/-- A range whose delimiters hold no letters. -/
structure Range.IsLetterless (r : Range) : Prop where
  opening : r.opening.IsLetterless
  closing : ∀ c ∈ r.closing, c.isAlpha = false

theorem letterless_splitter (d : Dialect) : ∀ r ∈ d.splitter.ranges, r.IsLetterless := by
  have hall : ∀ r ∈ d.splitter.ranges,
      r.opening.chars.all (!·.isAlpha) ∧ r.closing.all (!·.isAlpha) := by
    cases d <;> decide
  intro r hr
  obtain ⟨hopening, hclosing⟩ := hall r hr
  rw [List.all_eq_true] at hopening hclosing
  exact ⟨fun c hc => by simpa using hopening c hc, fun c hc => by simpa using hclosing c hc⟩

/-- The same place when the characters of the line have changed. -/
def Cursor.map (f : Char → Char) (c : Cursor) : Cursor := ⟨c.passed.map f, c.rest.map f⟩

theorem Cursor.advance_map (f : Char → Char) (c : Cursor) (n : Nat) :
    (c.map f).advance n = (c.advance n).map f := by
  simp [Cursor.map, Cursor.advance]

/-- The same text outside every range when the characters of the line have changed. -/
def Plain.map (f : Char → Char) (p : Plain) : Plain :=
  ⟨p.passed.map f, p.text.map f, p.after.map f⟩

/-- The same event when the characters of the script have changed. -/
def Event.map (f : Char → Char) : Event → Event
  | text chars range => .text (chars.map f) range
  | cut separator kind => .cut (separator.map f) kind

section Line

variable {f : Char → Char} {c : Cursor} {r : Range} {ranges : List Range} {sp : Splitter}

theorem KeepsLetters.findStart?_map (hf : KeepsLetters f) (hr : r.IsLetterless) (c : Cursor) :
    r.findStart? (c.map f) = r.findStart? c := by
  cases hstart : r.isAtLineStart with
  | false =>
      rw [findStart?_of_not_isAtLineStart hstart, findStart?_of_not_isAtLineStart hstart]
      exact hf.find?_map hr.opening c.rest
  | true =>
      cases r with
      | doubled _ _ | plain _ _ _ | nesting _ _ => cases hstart
      | lineComment opening atLineStart =>
          cases hstart
          have hblank : Text.isBlank ∘ f = Text.isBlank := funext hf.isBlank_eq
          have hopening := hf.isPrefixOf_map hr.opening
          simp only [Range.opening] at hopening
          simp only [Range.findStart?, Cursor.map, List.takeWhile_map, hblank, List.all_map,
            List.length_map, ← List.map_drop, hopening]

theorem KeepsLetters.findEnd?_map (hf : KeepsLetters f) (hr : r.IsLetterless) (cs : List Char) :
    r.findEnd? (cs.map f) = r.findEnd? cs := by
  cases r with
  | doubled opening closing => rw [Range.findEnd?, hf.findSingle?_map hr.closing, Range.findEnd?]
  | plain opening closing isComment =>
      have hclosing := hf.find?_map hr.closing cs
      simp only [Range.closing] at hclosing
      simp only [Range.findEnd?, hclosing]
  | lineComment opening atLineStart => rw [Range.findEnd?, List.length_map, Range.findEnd?]
  | nesting opening closing =>
      have hopening := hf.find?_map hr.opening cs
      have hclosing := hf.find?_map hr.closing cs
      simp only [Range.opening, Range.closing] at hopening hclosing
      simp only [Range.findEnd?, hopening, hclosing]

theorem KeepsLetters.firstRange?_map (hf : KeepsLetters f) (hranges : ∀ r ∈ ranges, r.IsLetterless)
    (c : Cursor) : firstRange? (c.map f) ranges = firstRange? c ranges := by
  induction ranges with
  | nil => rfl
  | cons r ranges ih =>
      obtain ⟨hr, hothers⟩ := List.forall_mem_cons.1 hranges
      rw [firstRange?, firstRange?, ih hothers, hf.findStart?_map hr]

theorem KeepsLetters.plainLength_map (hf : KeepsLetters f) (hsp : ∀ r ∈ sp.ranges, r.IsLetterless)
    (c : Cursor) : plainLength sp (c.map f) = plainLength sp c := by
  rw [plainLength, hf.firstRange?_map hsp, Cursor.map, List.length_map, plainLength]

/-- Digits are no letters. -/
theorem KeepsLetters.map_digits (hf : KeepsLetters f) {cs : List Char}
    (hdigits : cs.all Text.isDigit) : cs.map f = cs := by
  refine (List.map_congr_left fun c hc => ?_).trans (List.map_id cs)
  refine hf.eq_self (Bool.eq_false_iff.2 fun hletter => ?_)
  have hdigit := List.all_eq_true.1 hdigits c hc
  rw [not_isDigit_of_isAlpha hletter] at hdigit
  cases hdigit

theorem KeepsLetters.goCount?_map (hf : KeepsLetters f) (line : List Char) :
    goCount? (line.map f) = goCount? line := by
  rw [goCount?, hf.trimmed_map, goCount?]
  cases Text.trimmed line with
  | nil => rfl
  | cons g more =>
      cases more with
      | nil => rfl
      | cons o rest =>
          have hdigit : Text.isDigit ∘ f = Text.isDigit := funext hf.isDigit_eq
          simp only [List.map_cons, hf.trimStart_map, hf g, hf o, List.length_map, List.all_map,
            hdigit, List.map_eq_nil_iff, ne_eq]
          refine ite_congr rfl (fun hgo => ?_) fun _ => rfl
          rcases hgo.2.2 with rfl | ⟨-, -, hdigits⟩
          · rfl
          · rw [hf.map_digits hdigits]

theorem KeepsLetters.takeWord_map (hf : KeepsLetters f) (cs : List Char) :
    takeWord (cs.map f) = takeWord cs := by
  have hword : isWordChar ∘ f = isWordChar := funext hf.isWordChar_eq
  have hupper : Char.toUpper ∘ f = Char.toUpper := funext hf
  simp only [takeWord, List.takeWhile_map, hword, List.map_map, hupper, List.length_map]

theorem KeepsLetters.nextWord?_map (hf : KeepsLetters f) (cs : List Char) :
    nextWord? (cs.map f) = nextWord? cs := by
  have hblank : Text.isBlank ∘ f = Text.isBlank := funext hf.isBlank_eq
  simp only [nextWord?, List.takeWhile_map, hblank, List.length_map, ← List.map_drop]
  cases cs.drop (cs.takeWhile Text.isBlank).length with
  | nil => rfl
  | cons c more =>
      have hword := hf.takeWord_map (c :: more)
      rw [List.map_cons] at hword
      simp only [List.map_cons, hf.isWordStart_eq, hword]

theorem KeepsLetters.followWords_map (hf : KeepsLetters f) (s : BlockState) (previous : Option Char)
    (cs : List Char) :
    followWords s (previous.map f) (cs.map f) = followWords s previous cs := by
  have hprevious : ∀ previous : Option Char,
      (previous.map f).any isWordChar = previous.any isWordChar := by
    intro previous
    cases previous with
    | none => rfl
    | some c => exact hf.isWordChar_eq c
  fun_induction followWords s previous cs with
  | case1 s previous => rw [List.map_nil, followWords]
  | case2 s previous c rest hends =>
      rw [List.map_cons, followWords, if_pos ⟨(hf.eq_iff rfl c).2 hends.1, hends.2⟩]
  | case3 s previous c rest hgoes hstart word length hword following next joined hread taken s'
      found hfound ih =>
      have hchars : takeWord (f c :: rest.map f) = (word, length) :=
        (hf.takeWord_map (c :: rest)).trans hword
      have hfollowing : nextWord? ((f c :: rest.map f).drop length) = following := by
        rw [← List.map_cons, ← List.map_drop, hf.nextWord?_map]
      have htaken : ((f c :: rest.map f).take taken).getLast? =
          ((c :: rest).take taken).getLast?.map f := by
        rw [← List.map_cons, ← List.map_take, List.getLast?_map]
      have hpoint : previous.map f = some '.' ↔ previous = some '.' := by
        cases previous with
        | none => simp
        | some c => simpa using hf.eq_iff rfl c
      have hlength : (if joined = true then length + (following.map (·.2)).getD 0 else length) =
          taken := rfl
      rw [dite_eq_ite] at hread
      rw [List.map_cons, followWords, if_neg fun h => hgoes ⟨(hf.eq_iff rfl c).1 h.1, h.2⟩,
        hf.isWordStart_eq, hprevious, if_pos hstart]
      simp only [hchars, hfollowing, hpoint, hread, hlength]
      rw [← List.map_drop, htaken, ih, hfound]
  | case4 s previous c rest hgoes hstart s' found hfound ih =>
      rw [Option.map_some, hfound] at ih
      rw [List.map_cons, followWords, if_neg fun h => hgoes ⟨(hf.eq_iff rfl c).1 h.1, h.2⟩,
        hf.isWordStart_eq, hprevious, if_neg hstart, ih]

theorem KeepsLetters.findGo?_map (hf : KeepsLetters f) (p : Plain) :
    findGo? (p.map f) = findGo? p := by
  have hletterless : ∀ c ∈ ['-', '-'], c.isAlpha = false :=
    List.forall_mem_cons.2 ⟨rfl, List.forall_mem_singleton.2 rfl⟩
  have hdashes := hf.isPrefixOf_map hletterless p.after
  simp only [findGo?, Plain.map, List.isEmpty_map, hdashes, hf.goCount?_map]

theorem KeepsLetters.findSemicolon?_map (hf : KeepsLetters f) (p : Plain) :
    findSemicolon? (p.map f) = findSemicolon? p := by
  have hsemi : (· == ';') ∘ f = (· == ';') := by
    funext c
    rw [Function.comp_apply, Bool.eq_iff_iff, beq_iff_eq, beq_iff_eq, hf.eq_iff rfl]
  rw [findSemicolon?, Plain.map, List.findIdx?_map, hsemi, findSemicolon?]

theorem KeepsLetters.findOutsideBlocks_map (hf : KeepsLetters f) (s : BlockState) (p : Plain) :
    findOutsideBlocks s (p.map f) = findOutsideBlocks s p := by
  have hslash : (Text.trimmed (p.text.map f) == ['/']) = (Text.trimmed p.text == ['/']) := by
    rw [hf.trimmed_map, Bool.eq_iff_iff, beq_iff_eq, beq_iff_eq, List.map_eq_singleton_iff]
    constructor
    · rintro ⟨c, hc, hslash⟩
      rw [hc, (hf.eq_iff rfl c).1 hslash]
    · exact fun h => ⟨'/', h, hf.eq_self rfl⟩
  simp only [findOutsideBlocks, Plain.map, List.isEmpty_map, hslash, List.head?_map,
    hf.followWords_map]

/-- A separator is found at the same place. -/
theorem KeepsLetters.findToken_map (hf : KeepsLetters f) (hsp : ∀ r ∈ sp.ranges, r.IsLetterless)
    (blocks : BlockState) (c : Cursor) :
    findToken sp blocks (c.map f) = findToken sp blocks c := by
  have hplain : plainAt (c.map f) (plainLength sp c) = (plainAt c (plainLength sp c)).map f := by
    simp [plainAt, Cursor.map, Plain.map]
  rw [findToken, hf.plainLength_map hsp, hplain, findToken]
  cases sp.separator with
  | go => rw [Separator.find, hf.findGo?_map, Separator.find]
  | semicolon => rw [Separator.find, hf.findSemicolon?_map, Separator.find]
  | blocks => exact hf.findOutsideBlocks_map blocks _

/-- A line that changes with its letters is scanned in the same steps. -/
theorem LineScan.map (hf : KeepsLetters f) (hsp : ∀ r ∈ sp.ranges, r.IsLetterless)
    {st st' : ScanState} {es : List Event} (h : LineScan sp st c es st')
    (hopen : ∀ r ∈ st.ranges, r ∈ sp.ranges) :
    LineScan sp st (c.map f) (es.map (Event.map f)) st' := by
  have hnil : ∀ {c : Cursor}, c.rest ≠ [] → (c.map f).rest ≠ [] :=
    fun hrest hmap => hrest (List.map_eq_nil_iff.1 hmap)
  induction h with
  | @closes r outer blocks c n es st hend next ih =>
      have hr := hsp r (hopen r (List.mem_cons_self ..))
      rw [List.map_cons, Event.map, List.map_take]
      refine .closes ((hf.findEnd?_map hr c.rest).trans hend) ?_
      rw [Cursor.advance_map]
      exact ih fun r hr => hopen r (List.mem_cons_of_mem _ hr)
  | @nests r outer blocks c n es st hend next ih =>
      have hr := hsp r (hopen r (List.mem_cons_self ..))
      rw [List.map_cons, Event.map, List.map_take]
      refine .nests ((hf.findEnd?_map hr c.rest).trans hend) ?_
      rw [Cursor.advance_map]
      exact ih (by simpa using hopen)
  | @stays r outer blocks c hend =>
      have hr := hsp r (hopen r (List.mem_cons_self ..))
      exact .stays ((hf.findEnd?_map hr c.rest).trans hend)
  | ends hrest => exact .ends (List.map_eq_nil_iff.2 hrest)
  | @keeps blocks blocks' c n es st hrest hfind next ih =>
      rw [List.map_cons, Event.map, List.map_take]
      refine .keeps (hnil hrest) ((hf.findToken_map hsp _ _).trans hfind) ?_
      rw [Cursor.advance_map]
      exact ih hopen
  | @drops blocks blocks' c n es st hrest hfind next ih =>
      have hsemi : [';'].map f = [';'] := congrArg ([·]) (hf.eq_self rfl)
      rw [List.map_cons, List.map_cons, Event.map, Event.map, List.map_take, hsemi]
      refine .drops (hnil hrest) ((hf.findToken_map hsp _ _).trans hfind) ?_
      rw [Cursor.advance_map]
      exact ih hopen
  | wholeLine hrest hfind =>
      exact .wholeLine (hnil hrest) ((hf.findToken_map hsp _ _).trans hfind)
  | plain hrest hrange hfind =>
      exact .plain (hnil hrest) ((hf.firstRange?_map hsp _).trans hrange)
        ((hf.findToken_map hsp _ _).trans hfind)
  | @opens blocks blocks' c n r es st hrest hrange hfind next ih =>
      rw [List.map_cons, List.map_cons, Event.map, Event.map, List.map_take, List.map_take,
        List.map_drop]
      refine .opens (hnil hrest) ((hf.firstRange?_map hsp _).trans hrange)
        ((hf.findToken_map hsp _ _).trans hfind) ?_
      rw [Cursor.advance_map]
      exact ih (by simpa using (opening_le hrange).1)

theorem KeepsLetters.scanLine_map (hf : KeepsLetters f) (hsp : ∀ r ∈ sp.ranges, r.IsLetterless)
    {st : ScanState} (hopen : ∀ r ∈ st.ranges, r ∈ sp.ranges) (line : List Char) :
    scanLine sp st (.ofLine (line.map f)) =
      ((scanLine sp st (.ofLine line)).1.map (Event.map f), (scanLine sp st (.ofLine line)).2) := by
  have hscan := (lineScan_scanLine sp st (.ofLine line)).map hf hsp hopen
  obtain ⟨hes, hst⟩ := (lineScan_scanLine sp st (.ofLine (line.map f))).unique hscan
  exact Prod.ext hes hst

end Line

section Script

variable {f : Char → Char} {sp : Splitter}

theorem KeepsLetters.scanLines_map (hf : KeepsLetters f)
    (hsp : ∀ r ∈ sp.ranges, r.IsLetterless) {st : ScanState}
    (hopen : ∀ r ∈ st.ranges, r ∈ sp.ranges) (lines : List (List Char)) :
    scanLines sp st (lines.map (List.map f)) = (scanLines sp st lines).map (Event.map f) := by
  induction lines generalizing st with
  | nil => rfl
  | cons line lines ih =>
      have hbehind := ((lineScan_scanLine sp st (.ofLine line)).leftOpen hopen).known
      have hbreak : ['\n'].map f = ['\n'] := congrArg ([·]) (hf.eq_self rfl)
      simp only [List.map_cons, scanLines, hf.scanLine_map hsp hopen, ih hbehind, List.map_append,
        List.cons_append, Event.map, hbreak]

/-- A script that changes with its letters gives the same events with its characters. -/
theorem KeepsLetters.scan_map (hf : KeepsLetters f) (hsp : ∀ r ∈ sp.ranges, r.IsLetterless)
    (script : List Char) : scan sp (script.map f) = (scan sp script).map (Event.map f) := by
  obtain ⟨line, lines, hsplit⟩ := Text.exists_splitOn '\n' script
  have hopen : ∀ r ∈ (ScanState.mk [] {}).ranges, r ∈ sp.ranges := by simp
  have hbehind := ((lineScan_scanLine sp {} (.ofLine line)).leftOpen hopen).known
  have hlines := hf.splitOn_map (rfl : '\n'.isAlpha = false) script
  rw [hsplit, List.map_cons] at hlines
  simp only [scan, hlines, hsplit, hf.scanLine_map hsp hopen, hf.scanLines_map hsp hbehind,
    List.map_append]

/-- A part when the characters of the script have changed. -/
def mapTags (f : Char → Char) (part : List (Char × Option Range) × BatchKind) :
    List (Char × Option Range) × BatchKind :=
  (part.1.map fun tag => (f tag.1, tag.2), part.2)

theorem partList_map (f : Char → Char) (es : List Event) :
    partList (es.map (Event.map f)) = (partList es).map (mapTags f) := by
  induction es with
  | nil => rfl
  | cons e es ih =>
      obtain ⟨hfirst, hothers⟩ := List.cons.inj ih
      cases e with
      | text chars range =>
          rw [List.map_cons, Event.map, partList, taggedParts_text, hfirst, hothers, partList,
            taggedParts_text]
          simp [mapTags, Function.comp_def]
      | cut separator kind =>
          rw [List.map_cons, Event.map, partList, taggedParts_cut, hfirst, hothers, partList,
            taggedParts_cut]
          simp [mapTags]

theorem withoutComments_map (f : Char → Char) (strip : Bool)
    (tags : List (Char × Option Range)) :
    withoutComments strip (tags.map fun tag => (f tag.1, tag.2)) =
      (withoutComments strip tags).map f := by
  simp [withoutComments, List.filter_map, Function.comp_def]

theorem KeepsLetters.batchOf?_map (hf : KeepsLetters f) (piece : List Char) (kind : BatchKind) :
    batchOf? (piece.map f) kind =
      (batchOf? piece kind).map fun batch => { batch with sql := batch.sql.map f } := by
  rw [batchOf?, hf.trimmed_map, batchOf?]
  cases Text.trimmed piece with
  | nil => rfl
  | cons c cs =>
      have hsql : String.ofList ((c :: cs).map f) = (String.ofList (c :: cs)).map f :=
        String.ext (by rw [String.toList_map, String.toList_ofList, String.toList_ofList])
      rw [Option.map_some, ← hsql]
      rfl

/-- A change that keeps all of a script but the case of its letters changes its batches in the
same way, and no more. -/
theorem KeepsLetters.split_map (hf : KeepsLetters f) (hsp : ∀ r ∈ sp.ranges, r.IsLetterless)
    (script : String) : sp.split (script.map f) =
      (sp.split script).map fun batch => { batch with sql := batch.sql.map f } := by
  rw [split_eq_partList, String.toList_map, hf.scan_map hsp, partList_map, List.filterMap_map,
    split_eq_partList, List.map_filterMap]
  refine congrArg (List.filterMap · _) (funext fun (tags, kind) => ?_)
  simp only [Function.comp_apply, mapTags, withoutComments_map, hf.batchOf?_map]

end Script

/-- Splitting commutes with lower case: the lower-case script has the same batches in lower case,
of the same kinds, whether or not comments are stripped. -/
theorem split_toLower (d : Dialect) (strip : Bool) (script : String) :
    (d.splitter.withStripComments strip).split script.toLower =
      ((d.splitter.withStripComments strip).split script).map fun batch =>
        { batch with sql := batch.sql.toLower } := by
  have hletterless : ∀ r ∈ (d.splitter.withStripComments strip).ranges, r.IsLetterless :=
    letterless_splitter d
  exact keepsLetters_toLower.split_map hletterless script

end SchemaChange.Script
