import SchemaChange.Proofs.Script.Reading
import SchemaChange.Proofs.Text.Digit

/-!
# Lines that separate

The form of a line that separates batches, part by part, and the number of runs that it asks
for. Where such a line begins outside every range it is found to be a separator: nothing in it
up to a comment can begin a range.
-/
namespace SchemaChange.Script

/-- The runs that the digits of a separator ask for: the number that they denote in ASCII if it is
at least one and fits into 32 bits, and one run in all other cases. -/
def requestedRuns (digits : List Char) : Nat :=
  let runs := Nat.ofDigitChars 10 digits 0
  if digits.all Char.isDigit ∧ 1 ≤ runs ∧ runs ≤ UInt32.size - 1 then runs else 1

theorem one_le_requestedRuns (digits : List Char) : 1 ≤ requestedRuns digits := by
  unfold requestedRuns
  dsimp only
  split
  · rename_i h
    exact h.2.1
  · exact Nat.le_refl 1

theorem repeatCount_eq_requestedRuns (digits : List Char) :
    repeatCount digits = requestedRuns digits := by
  cases digits with
  | nil => rfl
  | cons c digits =>
      have hmax : maxRepeatCount = UInt32.size - 1 := rfl
      rw [repeatCount, requestedRuns, Text.readDecimal?_eq (List.cons_ne_nil c digits), hmax]
      by_cases hdigits : (c :: digits).all Char.isDigit = true
      · rw [if_pos hdigits]
        by_cases hruns : 1 ≤ Nat.ofDigitChars 10 (c :: digits) 0 ∧
            Nat.ofDigitChars 10 (c :: digits) 0 ≤ UInt32.size - 1
        · exact (if_pos hruns).trans (if_pos ⟨hdigits, hruns⟩).symm
        · exact (if_neg hruns).trans (if_neg fun h => hruns h.2).symm
      · rw [if_neg hdigits]
        exact (if_neg fun h => hdigits h.1).symm

/-- A whole line that separates: blanks, the word GO in any case, perhaps digits behind blanks,
blanks, and perhaps a comment. -/
structure GoForm (line digits : List Char) : Prop where
  parts : ∃ lead g o count trail comment,
    line = lead ++ g :: o :: (count ++ trail) ++ comment ∧
    (∀ c ∈ lead, Text.isBlank c) ∧ g.toUpper = 'G' ∧ o.toUpper = 'O' ∧
    (count = [] ∧ digits = [] ∨ ∃ gap, count = gap ++ digits ∧ gap ≠ [] ∧ digits ≠ [] ∧
      (∀ c ∈ gap, Text.isBlank c) ∧ ∀ c ∈ digits, Text.isDigit c) ∧
    (∀ c ∈ trail, Text.isBlank c) ∧ (comment = [] ∨ ['-', '-'] <+: comment)

theorem exists_goForm {line : List Char} {count : Nat} (h : GoLine line count) :
    ∃ digits, GoForm line digits ∧ count = requestedRuns digits := by
  obtain ⟨lead, g, o, gap, digits, trail, comment, hline, hblank, hg, ho, hdigits, hapart,
    hcomment, hcount⟩ := h.parts
  have hlead : ∀ c ∈ lead, Text.isBlank c := fun c hc => hblank c (by simp [hc])
  have hgap : ∀ c ∈ gap, Text.isBlank c := fun c hc => hblank c (by simp [hc])
  have htrail : ∀ c ∈ trail, Text.isBlank c := fun c hc => hblank c (by simp [hc])
  rw [repeatCount_eq_requestedRuns] at hcount
  refine ⟨digits, ⟨?_⟩, hcount⟩
  by_cases hd : digits = []
  · subst hd
    -- without digits all blanks are behind the word
    refine ⟨lead, g, o, [], gap ++ trail, comment, by simpa using hline, hlead, hg, ho,
      .inl ⟨rfl, rfl⟩, fun c hc => ?_, hcomment⟩
    exact (List.mem_append.1 hc).elim (hgap c) (htrail c)
  · exact ⟨lead, g, o, gap ++ digits, trail, comment, hline, hlead, hg, ho,
      .inr ⟨gap, rfl, hapart hd, hd, hgap, hdigits⟩, htrail, hcomment⟩

section Characters

variable {c : Char}

theorem isMark_iff : isMark c = true ↔
    c ∈ ['\x27', '"', '\x60', ']', '[', '-', '/', '#', '$', ';'] := by
  simp [isMark, isQuote, or_assoc]

/-- A property that no mark has. -/
theorem not_isMark_of {holds : Char → Bool}
    (hnone : ['\x27', '"', '\x60', ']', '[', '-', '/', '#', '$', ';'].any holds = false)
    (h : holds c = true) : isMark c = false := by
  rw [Bool.eq_false_iff]
  intro hmark
  exact List.any_eq_false.1 hnone c (isMark_iff.1 hmark) h

theorem not_isMark_of_isBlank (h : Text.isBlank c = true) : isMark c = false :=
  not_isMark_of (by decide) h

theorem not_isMark_of_isDigit (h : Text.isDigit c = true) : isMark c = false :=
  not_isMark_of (by decide) h

/-- The ranges of the blank characters, ends included. -/
def blankRanges : List (Nat × Nat) :=
  [(9, 13), (0x20, 0x20), (0x85, 0x85), (0xA0, 0xA0), (0x1680, 0x1680), (0x2000, 0x200A),
    (0x2028, 0x2029), (0x202F, 0x202F), (0x205F, 0x205F), (0x3000, 0x3000)]

theorem exists_blankRange (h : Text.isBlank c = true) :
    ∃ r ∈ blankRanges, r.1 ≤ c.toNat ∧ c.toNat ≤ r.2 := by
  simp only [Text.isBlank, Bool.or_eq_true, Bool.and_eq_true, beq_iff_eq, decide_eq_true_eq] at h
  simp only [blankRanges, List.mem_cons, List.not_mem_nil, or_false, exists_eq_or_imp,
    exists_eq_left]
  omega

theorem not_isBlank_of_isDigit (h : Text.isDigit c = true) : Text.isBlank c = false := by
  rw [Bool.eq_false_iff]
  intro hblank
  obtain ⟨blank, hmem, hfirst, hlast⟩ := exists_blankRange hblank
  obtain ⟨digit, hmem', hdigit⟩ := List.any_eq_true.1 h
  have hdisjoint : ∀ d ∈ Text.digitRanges, ∀ b ∈ blankRanges, d.2 < b.1 ∨ b.2 < d.1 := by decide
  have hapart := hdisjoint digit hmem' blank hmem
  simp only [Bool.and_eq_true, decide_eq_true_eq] at hdigit
  omega

/-- The two cases of a letter. -/
theorem eq_of_toUpper {upper lower : Char} (h : c.toUpper = upper)
    (hlower : upper.val + 32 = lower.val) : c = upper ∨ c = lower := by
  unfold Char.toUpper at h
  split at h
  · have hshift : ('A'.val - 'a'.val) + 32 = 0 := rfl
    have hval : c.val + ('A'.val - 'a'.val) = upper.val := by rw [← h]
    right
    apply Char.ext
    rw [← hlower, ← hval, UInt32.add_assoc, hshift, UInt32.add_zero]
  · exact .inl h

theorem letter_of_toUpper {upper : Char} (h : c.toUpper = upper)
    (hletter : upper = 'G' ∨ upper = 'O') : isMark c = false ∧ Text.isBlank c = false := by
  rcases hletter with rfl | rfl
  · have hg : c = 'G' ∨ c = 'g' := eq_of_toUpper h rfl
    rcases hg with rfl | rfl <;> decide
  · have ho : c = 'O' ∨ c = 'o' := eq_of_toUpper h rfl
    rcases ho with rfl | rfl <;> decide

end Characters

/-- The text of a separator before its comment. -/
structure GoText (text digits : List Char) : Prop where
  quiet : ∀ c ∈ text, isMark c = false
  counts : goCount? text = some (repeatCount digits)

theorem trimEnd_append_blanks {cs trail : List Char} (hblank : ∀ c ∈ trail, Text.isBlank c)
    (hlast : ∀ c, cs.getLast? = some c → Text.isBlank c = false) :
    Text.trimEnd (cs ++ trail) = cs := by
  rw [Text.trimEnd_append, if_pos ((Text.trimEnd_eq_nil_iff trail).2 hblank)]
  exact Text.trimEnd_eq_self hlast

theorem trimStart_append_blanks {lead : List Char} (hblank : ∀ c ∈ lead, Text.isBlank c) {c : Char}
    (hc : Text.isBlank c = false) (cs : List Char) :
    Text.trimStart (lead ++ c :: cs) = c :: cs := by
  rw [Text.trimStart, List.dropWhile_append_of_pos (by simpa using hblank), List.dropWhile_cons,
    hc]
  rfl

theorem GoForm.exists_goText {line digits : List Char} (h : GoForm line digits) :
    ∃ text comment, line = text ++ comment ∧ text ≠ [] ∧ GoText text digits ∧
      (comment = [] ∨ ['-', '-'] <+: comment) := by
  obtain ⟨lead, g, o, count, trail, comment, rfl, hlead, hg, ho, hcount, htrail, hcomment⟩ :=
    h.parts
  obtain ⟨hgmark, hgblank⟩ := letter_of_toUpper hg (.inl rfl)
  obtain ⟨homark, hoblank⟩ := letter_of_toUpper ho (.inr rfl)
  refine ⟨lead ++ g :: o :: (count ++ trail), comment, rfl, by simp, ⟨?_, ?_⟩, hcomment⟩
  · have hcountmark : ∀ c ∈ count, isMark c = false := by
      rcases hcount with ⟨rfl, -⟩ | ⟨gap, rfl, -, -, hgap, hdigits⟩
      · simp
      · intro c hc
        rcases List.mem_append.1 hc with hc | hc
        · exact not_isMark_of_isBlank (hgap c hc)
        · exact not_isMark_of_isDigit (hdigits c hc)
    have hleadmark := fun c hc => not_isMark_of_isBlank (hlead c hc)
    have htrailmark := fun c hc => not_isMark_of_isBlank (htrail c hc)
    simp only [List.forall_mem_append, List.forall_mem_cons]
    exact ⟨hleadmark, hgmark, homark, hcountmark, htrailmark⟩
  · have htrimmed : Text.trimmed (lead ++ g :: o :: (count ++ trail)) = g :: o :: count := by
      rw [Text.trimmed, trimStart_append_blanks hlead hgblank, ← List.cons_append,
        ← List.cons_append]
      refine trimEnd_append_blanks htrail fun c hc => ?_
      rcases hcount with ⟨rfl, -⟩ | ⟨gap, rfl, -, hne, -, hdigits⟩
      · obtain rfl : o = c := by simpa using hc
        exact hoblank
      · have hlast : (g :: o :: (gap ++ digits)).getLast? = digits.getLast? := by
          rw [← List.cons_append, ← List.cons_append, List.getLast?_append,
            List.getLast?_eq_some_getLast hne, Option.some_or]
        rw [hlast] at hc
        exact not_isBlank_of_isDigit (hdigits c (List.mem_of_getLast? hc))
    have hbehind : Text.trimStart count = digits ∧
        (count = [] ∨ digits.length < count.length ∧ digits ≠ [] ∧ digits.all Text.isDigit) := by
      rcases hcount with ⟨rfl, rfl⟩ | ⟨gap, rfl, hgapne, hne, hgap, hdigits⟩
      · exact ⟨rfl, .inl rfl⟩
      · have hgaplength := List.length_pos_iff.2 hgapne
        refine ⟨?_, .inr ⟨by rw [List.length_append]; omega, hne, List.all_eq_true.2 hdigits⟩⟩
        cases digits with
        | nil => exact absurd rfl hne
        | cons d digits =>
            exact trimStart_append_blanks hgap (not_isBlank_of_isDigit (hdigits d (.head _))) digits
    rw [goCount?, htrimmed]
    dsimp only
    rw [hbehind.1, if_pos ⟨hg, ho, hbehind.2⟩]

/-- A splitter by GO lines. Every range begins with a mark, and only a line comment with a
hyphen. -/
structure GoSplitter (sp : Splitter) : Prop where
  separator : sp.separator = .go
  within : ∀ r ∈ sp.ranges, r.WithinLines
  marks : ∀ r ∈ sp.ranges, r.opening.chars.head?.all isMark
  hyphens : ∀ r ∈ sp.ranges, r.opening.chars.head? = some '-' → r = dashComment
  comment : dashComment ∈ sp.ranges

theorem goSplitter {d : Dialect} (hd : d.splitter.separator = .go) (stripComments : Bool) :
    GoSplitter (d.splitter.withStripComments stripComments) := by
  have hwithin := withinLines_splitter d
  cases d with
  | sqlServer | sqlite =>
      exact ⟨rfl, hwithin, by decide +revert, by decide +revert, by decide +revert⟩
  | oracle | postgres | mySql | hana | snowflake => cases hd

namespace GoSplitter

variable {sp : Splitter} {text comment digits : List Char}

/-- No range begins in a text without marks. -/
theorem length_le_of_findStart? (hsp : GoSplitter sp) (hquiet : ∀ c ∈ text, isMark c = false)
    {r : Range} (hr : r ∈ sp.ranges) {n : Nat}
    (hn : r.findStart? (.ofLine (text ++ comment)) = some n) : text.length ≤ n := by
  rw [(hsp.within r hr).findStart?] at hn
  obtain ⟨hoccurs, -⟩ := Text.find?_eq_some hn
  have hmark := hsp.marks r hr
  refine Nat.not_lt.1 fun hlt => ?_
  cases hopen : r.opening.chars with
  | nil => exact r.opening.ne_nil hopen
  | cons c more =>
      have hget : (text ++ comment)[n]? = some c := by
        rw [hopen] at hoccurs
        obtain ⟨behind, hbehind⟩ := hoccurs
        have hfirst : ((text ++ comment).drop n).head? = some c := by
          rw [show (text ++ comment).drop n = c :: more ++ behind from hbehind.symm]
          rfl
        rwa [List.head?_drop] at hfirst
      rw [List.getElem?_append_left (by omega)] at hget
      rw [hopen, List.head?_cons, Option.all_some,
        hquiet c (List.mem_of_getElem? hget)] at hmark
      cases hmark

/-- A comment begins where the text without marks ends. -/
theorem exists_findStart? (hsp : GoSplitter sp) (hcomment : ['-', '-'] <+: comment) :
    ∃ n ≤ text.length, dashComment.findStart? (.ofLine (text ++ comment)) = some n := by
  have hstart := (hsp.within dashComment hsp.comment).findStart? (.ofLine (text ++ comment))
  have hoccurs : ['-', '-'] <+: (text ++ comment).drop text.length := by simpa using hcomment
  cases hfind : Text.find? ['-', '-'] (text ++ comment) with
  | none => exact absurd hoccurs (Text.find?_eq_none hfind text.length)
  | some n =>
      refine ⟨n, Nat.not_lt.1 fun hlt => ?_, hstart.trans hfind⟩
      exact (Text.find?_eq_some hfind).2 text.length hlt hoccurs

/-- A separator is looked for in all of a line but its comment. -/
theorem plainLength_eq (hsp : GoSplitter sp) (hquiet : ∀ c ∈ text, isMark c = false)
    (hcomment : comment = [] ∨ ['-', '-'] <+: comment) :
    plainLength sp (.ofLine (text ++ comment)) = text.length := by
  have hle : plainLength sp (.ofLine (text ++ comment)) ≤ text.length := by
    rcases hcomment with rfl | hdashes
    · rw [List.append_nil]
      exact plainLength_le_length sp _
    · obtain ⟨n, hn, hstart⟩ := hsp.exists_findStart? hdashes
      exact Nat.le_trans (plainLength_le hsp.comment hstart) hn
  refine Nat.le_antisymm hle ?_
  unfold plainLength
  cases hfirst : firstRange? (.ofLine (text ++ comment)) sp.ranges with
  | none => simp [Cursor.ofLine]
  | some first =>
      obtain ⟨n, r⟩ := first
      obtain ⟨hstart, before, after, hsplit, -⟩ := firstRange?_eq_some hfirst
      exact hsp.length_le_of_findStart? hquiet (by simp [hsplit]) hstart

/-- A line of the form of a separator is found to be one. -/
theorem findToken_eq (hsp : GoSplitter sp) {line : List Char} (h : GoForm line digits)
    (blocks : BlockState) : findToken sp blocks (.ofLine line) =
      (blocks, some (.wholeLine (.separator (requestedRuns digits)))) := by
  obtain ⟨text, comment, rfl, -, htext, hcomment⟩ := h.exists_goText
  have hlength := hsp.plainLength_eq htext.quiet hcomment
  have hafter : (comment.isEmpty || ['-', '-'].isPrefixOf comment) = true := by
    simpa [List.isEmpty_iff, List.isPrefixOf_iff_prefix] using hcomment
  rw [findToken, hlength, hsp.separator, Separator.find, findGo?]
  simp only [plainAt, Cursor.ofLine, List.take_left, List.drop_left, List.isEmpty_nil,
    Bool.true_and, hafter, if_true, htext.counts, Option.map_some, repeatCount_eq_requestedRuns]

end GoSplitter

end SchemaChange.Script
