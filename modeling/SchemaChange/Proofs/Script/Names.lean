import SchemaChange.Proofs.Script.Boundary
import SchemaChange.Proofs.Script.Exchange
import SchemaChange.Proofs.Script.GoForm

/-!
# Names in a script

A name outside every range that is no word of the reading of blocks can be exchanged for any
other such name. The reading knows words of ASCII characters only: it sees a name with other
characters as several words, and none of these may be one that it knows.
-/
namespace SchemaChange.Script

/-- The words that the reading of blocks knows. -/
def knownWords : List String :=
  ["CREATE", "OR", "REPLACE", "EDITIONABLE", "NONEDITIONABLE", "PROCEDURE", "FUNCTION", "TRIGGER",
    "PACKAGE", "TYPE", "BODY", "DECLARE", "BEGIN", "CASE", "END", "IF", "LOOP"]

/-- The lexeme opens and closes nothing. -/
def Lexeme.isUnknown : Lexeme → Prop
  | .word w => w ∉ knownWords
  | .other => True
  | .ending _ | .semicolon => False

/-- A character of a name: one of a word, or one outside ASCII that is no blank. -/
def isNameChar (c : Char) : Bool := isWordChar c || (128 ≤ c.toNat && !Text.isBlank c)

def Lexeme.isWord : Lexeme → Bool
  | .word _ => true
  | .ending _ | .semicolon | .other => false

/-- A name behind some character, in which no known word is read. -/
structure IsName (previous : Option Char) (name : List Char) : Prop where
  ne_nil : name ≠ []
  chars : ∀ c ∈ name, isNameChar c
  unknown : ∀ l ∈ lexemes previous name, l.isUnknown

section States

variable {w : String} {ls : List Lexeme}

theorem readHeader_unknown (h : w ∉ knownWords) (s : BlockState) :
    s.readHeader w = { s with header := .done } := by
  unfold BlockState.readHeader
  split
  · rename_i hdone
    rw [← hdone]
  all_goals first | rfl | exact absurd (by decide) h

/-- A word that is not known ends the header of the statement and does nothing else. -/
theorem read_unknown (h : w ∉ knownWords) (s : BlockState) :
    s.read (.word w) = { s with header := .done } := by
  have hword : s.readWord w none = (s.readHeader w, false) := by
    unfold BlockState.readWord
    dsimp only
    split
    all_goals first | rfl | exact absurd (by decide) h
  rw [BlockState.read, hword, readHeader_unknown h]

theorem foldl_read_unknown (h : ∀ l ∈ ls, l.isUnknown) (s : BlockState) :
    ls.foldl BlockState.read s =
      if ls.any Lexeme.isWord then { s with header := .done } else s := by
  induction ls generalizing s with
  | nil => rfl
  | cons l ls ih =>
      obtain ⟨hl, hothers⟩ := List.forall_mem_cons.1 h
      rw [List.foldl_cons, ih hothers]
      cases l with
      | word w =>
          rw [read_unknown hl]
          simp [Lexeme.isWord]
      | other => rfl
      | ending w | semicolon => cases hl

end States

section Items

theorem after_quiet {items : List Item} (h : ∀ item ∈ items, item.isQuiet) (s : BlockState) :
    s.after items = (items.map Item.kind).foldl BlockState.read s := by
  induction items generalizing s with
  | nil => rfl
  | cons item items ih =>
      obtain ⟨hitem, hothers⟩ := List.forall_mem_cons.1 h
      cases item with
      | slashLine chars => cases hitem
      | lexeme l chars range =>
          rw [BlockState.after, if_neg fun he => hitem.1 he.1, ih hothers]
          rfl

theorem spelled_ranges (previous : Option Char) {tags : List (Char × Option Range)}
    (h : ∀ tag ∈ tags, tag.2 = none) :
    ∀ item ∈ spelled previous tags, ∃ l chars, item = .lexeme l chars none := by
  match tags with
  | [] => simp
  | tag :: rest =>
      rcases hleading : leading previous (shown tag) (outside rest) with ⟨l, n⟩
      obtain ⟨htag, hrest⟩ := List.forall_mem_cons.1 h
      rw [spelled_cons previous tag rest hleading, htag]
      refine List.forall_mem_cons.2 ⟨⟨_, _, rfl⟩, ?_⟩
      exact spelled_ranges _ fun t ht => hrest t (List.mem_of_mem_drop ht)
termination_by tags.length
decreasing_by
  simp only [List.length_cons, List.length_drop]
  omega

/-- The items of a plain text without semicolons are quiet. -/
theorem spelled_quiet {previous : Option Char} {cs : List Char}
    (h : .semicolon ∉ lexemes previous cs) :
    ∀ item ∈ spelled previous (cs.map (·, none)), item.isQuiet := by
  intro item hitem
  obtain ⟨l, chars, rfl⟩ := spelled_ranges previous (by simp) item hitem
  refine ⟨fun he => h ?_, rfl⟩
  have hkinds := (spelled_lexemes previous (cs.map (·, none))).1
  rw [outside_plain] at hkinds
  rw [← hkinds, ← he]
  exact List.mem_map.2 ⟨_, hitem, rfl⟩

/-- A text that begins with no character of a word is read alike behind every other. -/
theorem spelled_apart {tags : List (Char × Option Range)}
    (h : (outside tags).head?.any isWordChar = false) (previous : Option Char) :
    spelled previous tags = spelled none tags := by
  cases tags with
  | nil => rw [spelled_nil, spelled_nil]
  | cons tag rest =>
      have hstart : isWordStart (shown tag) = false :=
        Bool.eq_false_iff.2 fun hs => by simp [isWordChar_of_isWordStart hs] at h
      simp only [spelled, leading, hstart, Bool.false_and, Bool.false_eq_true, if_false]

end Items

section Characters

variable {c : Char}

theorem isBlank_of_isWordChar (h : isWordChar c) : Text.isBlank c = false := by
  simp only [isWordChar, Char.isAlphanum, Bool.or_eq_true, beq_iff_eq] at h
  rcases h with (((halpha | hdigit) | rfl) | rfl) | rfl
  · exact isBlank_of_isWordStart (by simp [isWordStart, halpha])
  · exact Text.isBlank_of_isDigit hdigit
  all_goals decide

theorem isNameChar_eq_true (h : isNameChar c) :
    Text.isBlank c = false ∧ c ≠ '/' ∧ c ≠ '\n' := by
  refine ⟨?_, ?_, ?_⟩
  · rcases Bool.or_eq_true_iff.1 h with hword | hother
    · exact isBlank_of_isWordChar hword
    · simpa using (Bool.and_eq_true_iff.1 hother).2
  all_goals
    rintro rfl
    exact absurd h (by decide)

/-- No code of the ranges has a character of a name. -/
theorem foreign_of_isNameChar (h : isNameChar c) : Foreign Dialect.oracle.splitter.ranges c := by
  have hcodes : ∀ r ∈ Dialect.oracle.splitter.ranges,
      r.opening.chars.any isNameChar = false ∧ r.closing.any isNameChar = false := by decide
  intro r hr
  obtain ⟨hopening, hclosing⟩ := hcodes r hr
  rw [List.any_eq_false] at hopening hclosing
  exact ⟨fun hc => hopening c hc h, fun hc => hclosing c hc h⟩

end Characters

section Name

variable {previous : Option Char} {c : Char} {name more : List Char}

/-- A word that begins behind no other word and no point is the first lexeme. -/
theorem mem_lexemes_of_word {rest : List Char} (hstart : isWordStart c)
    (hapart : previous.any isWordChar = false) (hpoint : previous ≠ some '.')
    (hend : (takeWord (c :: rest)).1 = "END" →
      joined? (rest.drop ((takeWord (c :: rest)).2 - 1)) = none) :
    .word (takeWord (c :: rest)).1 ∈ lexemes previous (c :: rest) := by
  have hsemi : c ≠ ';' := by
    rintro rfl
    cases hstart
  have hleading : (leading previous c rest).1 = .word (takeWord (c :: rest)).1 := by
    rw [leading, if_neg hsemi, hstart, hapart, if_pos (by rfl)]
    dsimp only
    rw [if_neg hpoint]
    split
    · rename_i hjoined
      split at hjoined
      · rename_i hword
        rw [hend hword] at hjoined
        cases hjoined
      · cases hjoined
    · rfl
  rw [lexemes_cons, hleading]
  exact List.mem_cons_self ..

/-- The texts that are read as END. -/
theorem exists_end {word : List Char} (h : word.map Char.toUpper = ['E', 'N', 'D']) :
    ∃ c d e, word = [c, d, e] ∧ isWordStart c ∧ takeWord [c, d, e] = ("END", 3) ∧ e ≠ '.' := by
  obtain ⟨c, rest, rfl, hc, hrest⟩ := List.map_eq_cons_iff.1 h
  obtain ⟨d, rest, rfl, hd, hrest⟩ := List.map_eq_cons_iff.1 hrest
  obtain ⟨e, rest, rfl, he, hrest⟩ := List.map_eq_cons_iff.1 hrest
  obtain rfl := List.map_eq_nil_iff.1 hrest
  have hcase : c = 'E' ∨ c = 'e' := eq_of_toUpper hc rfl
  have hcase' : d = 'N' ∨ d = 'n' := eq_of_toUpper hd rfl
  have hcase'' : e = 'D' ∨ e = 'd' := eq_of_toUpper he rfl
  refine ⟨c, d, e, rfl, ?_⟩
  rcases hcase with rfl | rfl <;> rcases hcase' with rfl | rfl <;>
    rcases hcase'' with rfl | rfl <;> decide

/-- A text that ends in END ends in no point. -/
theorem EndsInEnd.getLast?_ne (h : EndsInEnd previous name) : name.getLast? ≠ some '.' := by
  obtain ⟨before, word, gap, rfl, hupper, hgap, -⟩ := h
  obtain ⟨c, d, e, rfl, -, -, hpoint⟩ := exists_end hupper
  intro hlast
  rw [List.getLast?_append, List.getLast?_append] at hlast
  cases hend : gap.getLast? with
  | some c =>
      rw [hend] at hlast
      cases hlast
      exact absurd (hgap '.' (List.mem_of_getLast? hend)).1 (by decide)
  | none =>
      rw [hend] at hlast
      cases hlast
      exact hpoint rfl

/-- A name of characters of words is one lexeme, and behind a point it does not count. -/
theorem lexemes_name {rest : List Char} (hstart : isWordStart c)
    (hrest : ∀ d ∈ rest, isWordChar d) (hapart : previous.any isWordChar = false) :
    lexemes previous (c :: rest) =
      [if previous = some '.' then .other
       else .word (String.ofList ((c :: rest).map Char.toUpper))] := by
  have hall : (c :: rest).takeWhile isWordChar = c :: rest := by
    have hword : ∀ d ∈ c :: rest, isWordChar d :=
      List.forall_mem_cons.2 ⟨isWordChar_of_isWordStart hstart, hrest⟩
    rw [← List.append_nil (c :: rest), List.takeWhile_append_of_pos hword, List.takeWhile_nil]
  have hsemi : c ≠ ';' := by
    rintro rfl
    cases hstart
  have hleading : leading previous c rest =
      (if previous = some '.' then .other
       else .word (String.ofList ((c :: rest).map Char.toUpper)), (c :: rest).length) := by
    have hnone : joined? (rest.drop ((c :: rest).length - 1)) = none := by
      rw [List.length_cons, Nat.add_sub_cancel, List.drop_length]
      rfl
    rw [leading, if_neg hsemi, hstart, hapart, if_pos (by rfl), takeWord, hall]
    dsimp only
    rw [hnone, ite_self]
    split
    · rfl
    · rfl
  rw [lexemes_cons, hleading, List.length_cons, Nat.add_sub_cancel, List.drop_length, lexemes_nil]

/-- An END before a name looks at its first word only. -/
theorem joined?_of_name {rest : List Char} (hchars : ∀ d ∈ c :: rest, isNameChar d) :
    joined? (c :: rest) = (if isWordStart c then some (takeWord (c :: rest)) else none).filter
      fun found => joinsEnd found.1 := by
  have hline : '\n' ∉ c :: rest := fun h => (isNameChar_eq_true (hchars _ h)).2.2 rfl
  have hstays : (c :: rest).takeWhile (· != '\n') = c :: rest := by
    simpa using Text.takeWhile_line hline []
  rw [joined?, hstays, nextWord?_not_blank (isNameChar_eq_true (hchars c List.mem_cons_self)).1]

/-- A name of characters of words is read as a whole. -/
theorem isName_word {rest : List Char} (hstart : isWordStart c) (hrest : ∀ d ∈ rest, isWordChar d)
    (hapart : previous.any isWordChar = false)
    (hknown : String.ofList ((c :: rest).map Char.toUpper) ∉ knownWords) :
    IsName previous (c :: rest) ∧
      (lexemes previous (c :: rest)).any Lexeme.isWord = (previous != some '.') := by
  have hchars : ∀ d ∈ c :: rest, isWordChar d :=
    List.forall_mem_cons.2 ⟨isWordChar_of_isWordStart hstart, hrest⟩
  have hlexemes := lexemes_name hstart hrest hapart
  refine ⟨⟨List.cons_ne_nil c rest, fun d hd => ?_, ?_⟩, ?_⟩
  · rw [isNameChar, hchars d hd, Bool.true_or]
  · rw [hlexemes, List.forall_mem_singleton]
    split
    · trivial
    · exact hknown
  · rw [hlexemes]
    by_cases hpoint : previous = some '.'
    · simp [hpoint, Lexeme.isWord]
    · simp [hpoint, Lexeme.isWord]

namespace IsName

variable (h : IsName previous name)
include h

theorem not_blank {d : Char} (hd : d ∈ name) : Text.isBlank d = false :=
  (isNameChar_eq_true (h.chars d hd)).1

theorem newline_not_mem : '\n' ∉ name := fun hd => (isNameChar_eq_true (h.chars _ hd)).2.2 rfl

theorem trimmed_around (before after : List Char) : Text.trimmed (before ++ name ++ after) =
    Text.trimStart before ++ name ++ Text.trimEnd after :=
  Text.trimmed_around h.ne_nil (fun _ hd => h.not_blank (List.mem_of_head? hd))
    (fun _ hd => h.not_blank (List.mem_of_getLast? hd)) before after

/-- The line of a name is no lone slash. -/
theorem not_slash (before after : List Char) :
    Text.trimmed (before ++ (name ++ after)) ≠ ['/'] := by
  intro hslash
  rw [← List.append_assoc, h.trimmed_around] at hslash
  obtain ⟨d, rest, rfl⟩ := List.exists_cons_of_ne_nil h.ne_nil
  have hmem : d ∈ ['/'] := by
    rw [← hslash]
    simp
  exact (isNameChar_eq_true (h.chars d List.mem_cons_self)).2.1 (List.mem_singleton.1 hmem)

/-- A name belongs to no END before it. -/
theorem joined?_eq_none (hparted : Parted name more) (hapart : previous.any isWordChar = false)
    (hpoint : previous ≠ some '.') : joined? (name ++ more) = none := by
  obtain ⟨d, rest, rfl⟩ := List.exists_cons_of_ne_nil h.ne_nil
  have hd := h.not_blank (d := d) List.mem_cons_self
  rw [joined?_parted h.newline_not_mem hparted fun hblank => absurd (hblank d List.mem_cons_self)
    (by simp [hd]), joined?_of_name h.chars]
  split
  · rename_i hstart
    refine Option.filter_eq_none_iff.2 fun found hfound hjoins => ?_
    cases hfound
    have hword : (takeWord (d :: rest)).1 ≠ "END" := fun he => by
      rw [he] at hjoins
      exact absurd hjoins (by decide)
    have hmem := mem_lexemes_of_word hstart hapart hpoint fun he => absurd he hword
    refine h.unknown _ hmem ?_
    simp only [joinsEnd, Bool.or_eq_true, beq_iff_eq] at hjoins
    rcases hjoins with (he | he) | he <;> rw [he] <;> decide
  · rfl

/-- A name does not end in END. -/
theorem not_endsInEnd : ¬ EndsInEnd previous name := by
  rintro ⟨before, word, gap, rfl, hupper, hgap, hapart, hpoint⟩
  obtain rfl : gap = [] := List.eq_nil_iff_forall_not_mem.2 fun d hd => by
    have hblank := h.not_blank (List.mem_append_right _ hd)
    simp [(hgap d hd).1] at hblank
  obtain ⟨-, hchars, hunknown⟩ := h
  rw [List.append_nil] at hchars hunknown
  have hline : '\n' ∉ before := fun hd =>
    (isNameChar_eq_true (hchars _ (List.mem_append_left _ hd))).2.2 rfl
  have hparted : Parted before word := .inl (by
    cases hlast : before.getLast? with
    | none => rfl
    | some d => rwa [hlast] at hapart)
  obtain ⟨c, d, e, rfl, hstart, htake, -⟩ := exists_end hupper
  have hjoined : joined? [c, d, e] = none := by
    rw [joined?_of_name fun d hd => hchars d (List.mem_append_right _ hd), if_pos hstart, htake]
    rfl
  have hword : Lexeme.word "END" ∈ lexemes (before.getLast?.or previous) [c, d, e] := by
    have hmem := mem_lexemes_of_word hstart hapart hpoint fun _ => by
      rw [htake]
      rfl
    rwa [htake] at hmem
  rw [lexemes_append hline hparted fun _ => hjoined] at hunknown
  exact hunknown _ (List.mem_append_right _ hword) (by decide)

/-- A name behind a character that stands alike. -/
theorem congr {other : Option Char} (hword : previous.any isWordChar = other.any isWordChar)
    (hpoint : previous = some '.' ↔ other = some '.') : IsName other name :=
  ⟨h.ne_nil, h.chars, lexemes_congr hword hpoint name ▸ h.unknown⟩

end IsName

end Name

/-! ## A name in its script -/

/-- The state in which a script goes on behind some text. -/
def stateBehind (tags : List (Char × Option Range)) : BlockState :=
  let lines := Text.splitOn ('\n', none) tags
  BlockState.after {} (frontItems lines.dropLast ++ spelled none (lines.getLast?.getD []))

/-- A name ends the header of its statement unless it stands behind a point. -/
def BlockState.pastName (s : BlockState) (previous : Option Char) : BlockState :=
  if previous = some '.' then s else { s with header := .done }

section Script

variable {tags tags' last first : List (Char × Option Range)}
  {init others : List (List (Char × Option Range))} {name : List Char}

theorem stateBehind_eq (hlines : Text.splitOn ('\n', none) tags = init ++ [last]) :
    stateBehind tags = BlockState.after {} (frontItems init ++ spelled none last) := by
  rw [stateBehind, hlines, List.dropLast_concat, List.getLast?_concat]
  rfl

/-- Behind a line break words are read as at the beginning. -/
theorem alike_of_splitOn (hlines : Text.splitOn ('\n', none) tags = init ++ [last]) :
    (outside tags).getLast?.any isWordChar = (outside last).getLast?.any isWordChar ∧
      ((outside tags).getLast? = some '.' ↔ (outside last).getLast? = some '.') := by
  obtain ⟨lead, rfl, hlead⟩ := Text.exists_of_splitOn_last hlines
  rw [outside_append, List.getLast?_append]
  cases (outside last).getLast? with
  | some c => exact ⟨rfl, Iff.rfl⟩
  | none =>
      rcases hlead with rfl | hbreak
      · exact ⟨rfl, Iff.rfl⟩
      · have hshown : (outside lead).getLast? = some '\n' := by
          rw [outside, List.getLast?_map, hbreak]
          rfl
        rw [hshown]
        exact ⟨by decide, by decide⟩

/-- A name stands apart from the rest of its line. -/
theorem spelled_name {left right : List (Char × Option Range)} (hline : '\n' ∉ outside left)
    (h : IsName (outside left).getLast? name)
    (hbefore : (outside left).getLast?.any isWordChar = false)
    (hafter : (outside right).head?.any isWordChar = false) :
    spelled none (left ++ (name.map (·, none) ++ right)) =
      spelled none left ++
        (spelled (outside left).getLast? (name.map (·, none)) ++ spelled none right) := by
  have hplain : outside (name.map (·, none)) = name := outside_plain name
  have hname : '\n' ∉ name := h.newline_not_mem
  have hfront : EndsInEnd none (outside left) → joined? (name ++ outside right) = none :=
    fun hend => h.joined?_eq_none (.inr hafter) hbefore hend.getLast?_ne
  have hback : EndsInEnd (outside left).getLast? name → joined? (outside right) = none :=
    fun hend => absurd hend h.not_endsInEnd
  rw [spelled_append hline (.inl hbefore) (by rwa [outside_append, hplain]), Option.or_none,
    spelled_append (by rwa [hplain]) (.inr hafter) (by rwa [hplain]), spelled_apart hafter]

/-- The items of a script around those of a name in it. -/
theorem scriptItems_name (hlines : Text.splitOn ('\n', none) tags = init ++ [last])
    (hlines' : Text.splitOn ('\n', none) tags' = first :: others)
    (h : IsName (outside tags).getLast? name)
    (hbefore : (outside tags).getLast?.any isWordChar = false)
    (hafter : (outside tags').head?.any isWordChar = false) :
    scriptItems (tags ++ (name.map (·, none) ++ tags')) =
      (frontItems init ++ spelled none last) ++
        (spelled (outside tags).getLast? (name.map (·, none)) ++
          (spelled none first ++ laterItems others)) := by
  obtain ⟨hword, hpoint⟩ := alike_of_splitOn hlines
  have hlast : '\n' ∉ outside last := newline_not_mem_line hlines (by simp)
  have hfirst : (outside first).head?.any isWordChar = false := by
    rw [Text.splitOn_flatten hlines', outside_append, List.head?_append] at hafter
    cases hhead : (outside first).head? with
    | none => rfl
    | some c => rwa [hhead] at hafter
  have hline : Text.splitOn ('\n', none) (name.map (·, none) ++ tags') =
      (name.map (·, none) ++ first) :: others := by
    refine Text.splitOn_append (fun hbreak => ?_) hlines'
    obtain ⟨c, hc, he⟩ := List.mem_map.1 hbreak
    exact h.newline_not_mem ((Prod.mk.inj he).1 ▸ hc)
  have hslash : Text.trimmed (outside (last ++ (name.map (·, none) ++ first))) ≠ ['/'] := by
    rw [outside_append, outside_append, outside_plain]
    exact h.not_slash _ _
  rw [scriptItems_append hlines hline, lineItems, if_neg hslash,
    spelled_name hlast (h.congr hword hpoint) (hword ▸ hbefore) hfirst,
    spelled_congr hword hpoint]
  simp only [List.append_assoc]

/-- In place of a name, another one leaves the rest of the script as it is. -/
theorem tagged_name {before after other : List Char} {previous previous' : Option Char}
    (hname : tagged Dialect.oracle.splitter.ranges [] (before ++ (name ++ after)) =
      tags ++ (name.map (·, none) ++ tags'))
    (hlength : tags.length = before.length) (h : IsName previous name)
    (hother : IsName previous' other) :
    tagged Dialect.oracle.splitter.ranges [] (before ++ (other ++ after)) =
      tags ++ (other.map (·, none) ++ tags') := by
  have hread : ∀ n : List Char, n ≠ [] → (∀ c ∈ n, isNameChar c) →
      tagged Dialect.oracle.splitter.ranges [] (before ++ (n ++ after)) =
        tags ++ (n.map (·, none) ++ tagged Dialect.oracle.splitter.ranges [] after) := by
    intro n hn hchars
    obtain ⟨c, rest, rfl⟩ := List.exists_cons_of_ne_nil h.ne_nil
    obtain ⟨d, more, rfl⟩ := List.exists_cons_of_ne_nil hn
    have hc := h.chars c List.mem_cons_self
    have hd := foreign_of_isNameChar (hchars d List.mem_cons_self)
    have hbehind := tagged_before (foreign_of_isNameChar hc) (isNameChar_eq_true hc).2.2 hname
      hlength (hd.confined (more ++ after))
    rw [List.cons_append, hbehind, ← List.cons_append,
      tagged_outside fun e he => foreign_of_isNameChar (hchars e he)]
  have hsame := hread name h.ne_nil h.chars
  rw [hname] at hsame
  rw [hread other hother.ne_nil hother.chars,
    List.append_cancel_left (List.append_cancel_left hsame)]

theorem after_name {s : BlockState} {previous : Option Char} (h : IsName previous name)
    (hheader : s.header = .done ∨
      (lexemes previous name).any Lexeme.isWord = (previous != some '.')) :
    s.after (spelled previous (name.map (·, none))) = s.pastName previous := by
  have hquiet : .semicolon ∉ lexemes previous name := fun hsemi => h.unknown _ hsemi
  rw [after_quiet (spelled_quiet hquiet), (spelled_lexemes previous _).1, outside_plain,
    foldl_read_unknown h.unknown]
  rcases hheader with hdone | hword
  · have hsame : { s with header := .done } = s := by rw [← hdone]
    rw [BlockState.pastName, hsame, ite_self, ite_self]
  · rw [hword]
    by_cases hpoint : previous = some '.'
    · simp [BlockState.pastName, hpoint]
    · simp [BlockState.pastName, hpoint]

end Script

section Exchange

variable {strip : Bool} {before name after : String} {tags tags' : List (Char × Option Range)}

/-- Whatever name stands at a place, the script has the same batches but for it. -/
theorem exists_split_name
    (hname : tagged Dialect.oracle.splitter.ranges []
      (before.toList ++ (name.toList ++ after.toList)) =
        tags ++ (name.toList.map (·, none) ++ tags'))
    (hlength : tags.length = before.toList.length)
    (h : IsName (outside tags).getLast? name.toList)
    (hbefore : (outside tags).getLast?.any isWordChar = false)
    (hafter : (outside tags').head?.any isWordChar = false) :
    ∃ bs u v kind ds, ∀ n : String, IsName (outside tags).getLast? n.toList →
      ((stateBehind tags).header = .done ∨
        (lexemes (outside tags).getLast? n.toList).any Lexeme.isWord =
          ((outside tags).getLast? != some '.')) →
      (Dialect.oracle.splitter.withStripComments strip).split (before ++ n ++ after) =
        bs ++ ⟨u ++ n ++ v, kind⟩ :: ds := by
  obtain ⟨init, last, hlines⟩ := Text.exists_splitOn_last ('\n', none) tags
  obtain ⟨first, others, hlines'⟩ := Text.exists_splitOn ('\n', none) tags'
  obtain ⟨bs, u, v, kind, ds, hsplit⟩ := exists_split_of_items
    (keepsBlocks_oracle.withStripComments strip) (frontItems init ++ spelled none last)
    (spelled none first ++ laterItems others) ((stateBehind tags).pastName (outside tags).getLast?)
  refine ⟨bs, String.ofList (Text.trimStart u), String.ofList (Text.trimEnd v), kind, ds,
    fun n hn hheader => ?_⟩
  have hitems := scriptItems_name hlines hlines' hn hbefore hafter
  rw [← tagged_name hname hlength h hn, ← String.toList_append, ← String.toList_append,
    ← String.append_assoc] at hitems
  have hstate : (BlockState.after {} (frontItems init ++ spelled none last)).after
      (spelled (outside tags).getLast? (n.toList.map (·, none))) =
        (stateBehind tags).pastName (outside tags).getLast? := by
    rw [← stateBehind_eq hlines]
    exact after_name hn hheader
  have hchars : (spelled (outside tags).getLast? (n.toList.map (·, none))).flatMap Item.chars =
      n.toList := by
    rw [(spelled_lexemes _ _).2, List.map_map]
    exact List.map_id _
  rw [hsplit _ _ (spelled_quiet fun hsemi => hn.unknown _ hsemi) hstate hitems, hchars,
    batchOf?_of_trimmed (hn.trimmed_around u v) (by simp [hn.ne_nil])]
  simp [String.append_assoc]

/-- A name in which no known word is read can be exchanged for any other, wherever it stands. Only
at the beginning of a statement does it matter that it is read as a word at all. -/
theorem split_name
    (hname : tagged Dialect.oracle.splitter.ranges []
      (before.toList ++ (name.toList ++ after.toList)) =
        tags ++ (name.toList.map (·, none) ++ tags'))
    (hlength : tags.length = before.toList.length)
    (h : IsName (outside tags).getLast? name.toList)
    (hbefore : (outside tags).getLast?.any isWordChar = false)
    (hafter : (outside tags').head?.any isWordChar = false)
    (hheader : (stateBehind tags).header = .done ∨
      (lexemes (outside tags).getLast? name.toList).any Lexeme.isWord =
        ((outside tags).getLast? != some '.')) :
    Exchanged name "X"
      ((Dialect.oracle.splitter.withStripComments strip).split (before ++ name ++ after))
      ((Dialect.oracle.splitter.withStripComments strip).split (before ++ "X" ++ after)) := by
  obtain ⟨bs, u, v, kind, ds, hsplit⟩ := exists_split_name hname hlength h hbefore hafter
  obtain ⟨hX, hword⟩ : IsName (outside tags).getLast? ['X'] ∧ _ :=
    isName_word (by decide) (by simp) hbefore (by decide)
  exact ⟨bs, u, v, kind, ds, hsplit name h hheader, hsplit "X" hX (.inr hword)⟩

end Exchange

theorem split_name_parts :
    let before := "BEGIN x := 'a;'; "
    let name := "größe_1"
    let after := " := END_x; /* ; */ END; COMMIT"
    ∃ tags tags', tagged Dialect.oracle.splitter.ranges []
        (before.toList ++ (name.toList ++ after.toList)) =
          tags ++ (name.toList.map (·, none) ++ tags') ∧
      tags.length = before.toList.length ∧ IsName (outside tags).getLast? name.toList ∧
      (outside tags).getLast?.any isWordChar = false ∧
      (outside tags').head?.any isWordChar = false ∧
      lexemes (outside tags).getLast? name.toList =
        [.word "GR", .other, .other, .word "E_1"] ∧
      Exchanged name "X"
        ((Dialect.oracle.splitter.withStripComments true).split (before ++ name ++ after))
        ((Dialect.oracle.splitter.withStripComments true).split (before ++ "X" ++ after)) := by
  intro before name after
  have hname : tagged Dialect.oracle.splitter.ranges []
      (before.toList ++ (name.toList ++ after.toList)) =
        (tagged Dialect.oracle.splitter.ranges [] before.toList) ++ (name.toList.map (·, none) ++
          tagged Dialect.oracle.splitter.ranges [] after.toList) := by decide +kernel
  have hlength : (tagged Dialect.oracle.splitter.ranges [] before.toList).length =
      before.toList.length := by decide +kernel
  have hchars : ∀ c ∈ name.toList, isNameChar c := List.all_eq_true.1 (by decide +kernel)
  have hbefore : (outside (tagged Dialect.oracle.splitter.ranges [] before.toList)).getLast?.any
      isWordChar = false := by decide +kernel
  have hafter : (outside (tagged Dialect.oracle.splitter.ranges [] after.toList)).head?.any
      isWordChar = false := by decide +kernel
  have hlexemes : lexemes (outside (tagged Dialect.oracle.splitter.ranges []
      before.toList)).getLast? name.toList = [.word "GR", .other, .other, .word "E_1"] := by
    decide +kernel
  have hunknown : ∀ l ∈ [Lexeme.word "GR", .other, .other, .word "E_1"], l.isUnknown := by
    have hknown : "GR" ∉ knownWords ∧ "E_1" ∉ knownWords := by decide
    simp [Lexeme.isUnknown, hknown]
  have h : IsName (outside (tagged Dialect.oracle.splitter.ranges [] before.toList)).getLast?
      name.toList := ⟨by decide +kernel, hchars, hlexemes ▸ hunknown⟩
  refine ⟨_, _, hname, hlength, h, hbefore, hafter, hlexemes,
    split_name hname hlength h hbefore hafter (.inr ?_)⟩
  rw [hlexemes]
  decide +kernel

/-- A word behind a letter outside ASCII counts, though it is only a part of a name. -/
theorem not_split_name :
    tagged Dialect.oracle.splitter.ranges [] "SELECT éBEGIN FROM t; COMMIT".toList =
        "SELECT éBEGIN FROM t; COMMIT".toList.map (·, none) ∧
      "éBEGIN".toList.all isNameChar ∧ "ÉBEGIN" ∉ knownWords ∧
      (Dialect.oracle.splitter.withStripComments false).split "SELECT éBEGIN FROM t; COMMIT" =
        [⟨"SELECT éBEGIN FROM t; COMMIT", .statement⟩] ∧
      (Dialect.oracle.splitter.withStripComments false).split "SELECT X FROM t; COMMIT" =
        [⟨"SELECT X FROM t", .statement⟩, ⟨"COMMIT", .statement⟩] := by
  decide +kernel

end SchemaChange.Script
