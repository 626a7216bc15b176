import SchemaChange.Proofs.Script.OneStatement
import SchemaChange.Proofs.Script.Stripped

/-!
# Scripts without blocks

A script without the words that open a block or announce one is cut at every semicolon outside
the ranges: a stray END closes nothing, and the words of a header change nothing before one of
these words follows.
-/
namespace SchemaChange.Script

/-! ## Words of a text -/

/-- The words that open a block, or announce one in a header. -/
def blockWords : List String :=
  ["BEGIN", "DECLARE", "CASE", "PROCEDURE", "FUNCTION", "TRIGGER", "PACKAGE", "TYPE"]

/-- The text holds the word in letters of any case, and no character beside it belongs to a
word. -/
def HoldsWord (cs : List Char) (w : String) : Prop :=
  ∃ before word after, cs = before ++ word ++ after ∧ word.map Char.toUpper = w.toList ∧
    before.getLast?.any isWordChar = false ∧ after.head?.any isWordChar = false

theorem holdsWord_iff (cs : List Char) (w : String) : HoldsWord cs w ↔
    ∃ n ∈ List.range (cs.length + 1),
      ((cs.drop n).take w.toList.length).map Char.toUpper = w.toList ∧
        (cs.take n).getLast?.any isWordChar = false ∧
        (cs.drop (n + w.toList.length)).head?.any isWordChar = false := by
  constructor
  · rintro ⟨before, word, after, rfl, hword, hbefore, hafter⟩
    have hlength : word.length = w.toList.length := by rw [← hword, List.length_map]
    refine ⟨before.length, List.mem_range.2 (by simp only [List.length_append]; omega), ?_⟩
    rw [← hlength, List.append_assoc, List.drop_left, List.take_left, List.take_left,
      ← List.append_assoc, ← List.length_append, List.drop_left]
    exact ⟨hword, hbefore, hafter⟩
  · rintro ⟨n, -, hword, hbefore, hafter⟩
    refine ⟨cs.take n, _, cs.drop (n + w.toList.length), ?_, hword, hbefore, hafter⟩
    rw [List.append_assoc, ← List.drop_drop, List.take_append_drop, List.take_append_drop]

instance (cs : List Char) (w : String) : Decidable (HoldsWord cs w) :=
  decidable_of_iff _ (holdsWord_iff cs w).symm

/-! ## Lexemes at their places -/

section Leading

variable {previous : Option Char} {c : Char} {rest : List Char} {l : Lexeme} {n : Nat}

/-- The characters that are read for a word belong to it. -/
theorem takeWord_takes (cs : List Char) : ∀ e ∈ cs.take (takeWord cs).2, isWordChar e := by
  have htake : cs.take (takeWord cs).2 = cs.takeWhile isWordChar :=
    (List.prefix_iff_eq_take.1 (List.takeWhile_prefix isWordChar)).symm
  intro e he
  rw [htake] at he
  exact List.all_eq_true.1 List.all_takeWhile e he

/-- Those that are read for the word behind blanks belong to it or are these blanks. -/
theorem nextWord?_takes {cs : List Char} {w : String} (h : nextWord? cs = some (w, n)) :
    ∀ e ∈ cs.take n, isWordChar e ∨ Text.isBlank e := by
  rw [nextWord?] at h
  split at h
  · rename_i d more hdrop
    simp only [Option.ite_none_right_eq_some, Option.some.injEq, Prod.mk.injEq] at h
    obtain ⟨-, -, rfl⟩ := h
    have hgap : cs.take (cs.takeWhile Text.isBlank).length = cs.takeWhile Text.isBlank :=
      (List.prefix_iff_eq_take.1 (List.takeWhile_prefix Text.isBlank)).symm
    intro e he
    rw [List.take_add, hdrop, hgap] at he
    rcases List.mem_append.1 he with he | he
    · exact .inr (List.all_eq_true.1 List.all_takeWhile e he)
    · exact .inl (takeWord_takes _ e he)
  · cases h

/-- A lexeme is one character, or it holds characters of words and blanks only. -/
theorem leading_takes (h : leading previous c rest = (l, n)) :
    n = 1 ∨ ∀ e ∈ (c :: rest).take n, isWordChar e ∨ Text.isBlank e := by
  have hword : ∀ e ∈ (c :: rest).take (takeWord (c :: rest)).2, isWordChar e ∨ Text.isBlank e :=
    fun e he => .inl (takeWord_takes _ e he)
  rw [leading] at h
  split at h
  · cases h
    exact .inl rfl
  split at h
  · rename_i hstart
    have hpos := takeWord_length_pos (Bool.and_eq_true_iff.1 hstart).1 rest
    refine .inr ?_
    dsimp only at h
    split at h
    · cases h
      exact hword
    split at h
    · rename_i w k hjoined
      cases h
      have hnext : joined? (rest.drop ((takeWord (c :: rest)).2 - 1)) = some (w, k) := by
        split at hjoined
        · exact hjoined
        · cases hjoined
      have hdrop : rest.drop ((takeWord (c :: rest)).2 - 1) =
          (c :: rest).drop (takeWord (c :: rest)).2 := by
        rw [← List.drop_succ_cons, Nat.sub_add_cancel hpos]
      have hfound := (Option.filter_eq_some_iff.1 hnext).1
      obtain ⟨more, hmore⟩ := List.takeWhile_prefix (l := rest.drop
        ((takeWord (c :: rest)).2 - 1)) (· != '\n')
      intro e he
      rw [List.take_add, ← hdrop, ← hmore,
        List.take_append_of_le_length (nextWord?_eq_some hfound).1] at he
      exact (List.mem_append.1 he).elim (hword e) (nextWord?_takes hfound e)
    · cases h
      exact hword
  · cases h
    exact .inl rfl

/-- A word lexeme is the word that stands at its place. -/
theorem leading_eq_word {w : String} (h : leading previous c rest = (.word w, n)) :
    previous.any isWordChar = false ∧ w = (takeWord (c :: rest)).1 := by
  rw [leading] at h
  split at h
  · cases h
  split at h
  · rename_i hstart
    dsimp only at h
    split at h
    · cases h
    split at h
    · cases h
    · cases h
      exact ⟨by simpa using (Bool.and_eq_true_iff.1 hstart).2, rfl⟩
  · cases h

/-- What is read for a lexeme other than a semicolon holds none. -/
theorem semicolon_not_mem_leading (h : leading previous c rest = (l, n)) (hl : l ≠ .semicolon) :
    ';' ∉ (c :: rest).take n := by
  rcases leading_takes h with rfl | htakes
  · rw [List.take_succ_cons, List.take_zero, List.mem_singleton]
    rintro rfl
    rw [leading, if_pos rfl] at h
    cases h
    exact hl rfl
  · exact fun hmem => absurd (htakes ';' hmem) (by decide)

end Leading

section Spelled

/-- The characters of a lexeme lie in one range, or all outside. -/
theorem tagged_of_leading {previous : Option Char} {tag : Char × Option Range}
    {rest : List (Char × Option Range)} {l : Lexeme} {n : Nat}
    (h : leading previous (shown tag) (outside rest) = (l, n)) :
    (Item.lexeme l (((tag :: rest).take n).map Prod.fst) tag.2).tagged = (tag :: rest).take n := by
  have hpos : 1 ≤ n := by
    have := (leading_length previous (shown tag) (outside rest)).1
    rwa [h] at this
  rw [Item.tagged, List.map_map]
  rcases leading_takes h with rfl | htakes
  · rfl
  · have hnone : ∀ t ∈ (tag :: rest).take n, t.2 = none := by
      intro t ht
      have hshown : shown t ∈ (shown tag :: outside rest).take n := by
        rw [← outside_cons, outside, ← List.map_take]
        exact List.mem_map_of_mem ht
      have hchar := htakes _ hshown
      cases hrange : t.2 with
      | none => rfl
      | some r =>
          have hquote : shown t = '"' := by
            rw [shown, hrange]
            rfl
          rw [hquote] at hchar
          exact absurd hchar (by decide)
    have htag : tag.2 = none := hnone tag (List.mem_take_iff_getElem.2 ⟨0, by simp; omega, rfl⟩)
    refine (List.map_congr_left fun t ht => ?_).trans (List.map_id _)
    rw [Function.comp_apply, htag, ← hnone t ht, id]

/-- The items of a text have its characters in the same ranges. -/
theorem flatMap_tagged_spelled (previous : Option Char) (tags : List (Char × Option Range)) :
    (spelled previous tags).flatMap Item.tagged = tags := by
  match tags with
  | [] => simp
  | tag :: rest =>
      rcases hleading : leading previous (shown tag) (outside rest) with ⟨l, n⟩
      have hpos : 1 ≤ n := by
        have := (leading_length previous (shown tag) (outside rest)).1
        rwa [hleading] at this
      rw [spelled_cons previous tag rest hleading, List.flatMap_cons, tagged_of_leading hleading,
        flatMap_tagged_spelled, ← List.drop_succ_cons, Nat.sub_add_cancel hpos,
        List.take_append_drop]
termination_by tags.length
decreasing_by
  simp only [List.length_cons, List.length_drop]
  omega

/-- Every item is the first one of the text from its place on. -/
theorem exists_of_mem_spelled (previous : Option Char) (tags : List (Char × Option Range))
    {item : Item} (h : item ∈ spelled previous tags) :
    ∃ before tag rest l n, tags = before ++ tag :: rest ∧
      leading ((outside before).getLast?.or previous) (shown tag) (outside rest) = (l, n) ∧
      item = .lexeme l (((tag :: rest).take n).map Prod.fst) tag.2 := by
  match tags with
  | [] => simp at h
  | tag :: rest =>
      rcases hleading : leading previous (shown tag) (outside rest) with ⟨l, n⟩
      rw [spelled_cons previous tag rest hleading] at h
      rcases List.mem_cons.1 h with rfl | h
      · exact ⟨[], tag, rest, l, n, rfl, hleading, rfl⟩
      · obtain ⟨before, tag', rest', l', n', htags, hleading', rfl⟩ :=
          exists_of_mem_spelled (some (shown tag)) (rest.drop (n - 1)) h
        obtain ⟨hpos, hle, e, he, hword, hpoint⟩ :=
          leading_length previous (shown tag) (outside rest)
        rw [hleading] at hpos hle he
        dsimp only at hpos hle he
        refine ⟨(tag :: rest).take n ++ before, tag', rest', l', n', ?_, ?_, rfl⟩
        · rw [List.append_assoc, ← htags, ← List.drop_succ_cons, Nat.sub_add_cancel hpos,
            List.take_append_drop]
        · have houtside : outside ((tag :: rest).take n) =
              (shown tag :: outside rest).take n := List.map_take
          rw [outside_append, houtside, List.getLast?_append, he, Option.or_assoc, Option.some_or]
          cases hlast : (outside before).getLast? with
          | some d =>
              rw [hlast] at hleading'
              exact hleading'
          | none =>
              rw [hlast] at hleading'
              exact (leading_congr hword hpoint _ _).symm.trans hleading'
termination_by tags.length
decreasing_by
  simp only [List.length_cons, List.length_drop]
  omega

end Spelled

/-! ## States without blocks -/

/-- END closes the innermost block, or nothing. -/
theorem readWord_end_eq (s : BlockState) (following : Option String) :
    (s.readWord "END" following).1 = s.readHeader "END" ∨
      (s.readWord "END" following).1 = (s.readHeader "END").close := by
  simp only [BlockState.readWord]
  split
  · exact .inl rfl
  · exact .inl rfl
  · exact .inr rfl
  · exact .inr rfl

/-- Nothing is open or announced, and no word but those of blocks can open or announce it. -/
structure BlockState.IsPlain (s : BlockState) : Prop where
  openers : s.openers = []
  awaitsBegin : s.awaitsBegin = false
  containsBlock : s.containsBlock = false
  header : s.header ≠ .afterType

namespace BlockState.IsPlain

variable {s : BlockState}

theorem initial : BlockState.IsPlain {} := ⟨rfl, rfl, rfl, by decide⟩

theorem isClosed (h : s.IsPlain) : s.isClosed = true := by
  rw [BlockState.isClosed, h.openers, h.awaitsBegin]
  rfl

theorem close (h : s.IsPlain) : s.close.IsPlain :=
  ⟨by rw [BlockState.close, h.openers]; rfl, h.awaitsBegin, h.containsBlock, h.header⟩

theorem readHeader (h : s.IsPlain) {w : String} (hw : w ∉ blockWords) :
    (s.readHeader w).IsPlain := by
  unfold BlockState.readHeader
  split
  all_goals first
    | exact h
    | exact absurd (by decide) hw
    | exact absurd ‹_› h.header
    | exact ⟨h.openers, h.awaitsBegin, h.containsBlock, nofun⟩

/-- A word that opens and announces no block leaves none behind, and END closes none. -/
theorem read (h : s.IsPlain) {l : Lexeme} (hl : ∀ w, l = .word w → w ∉ blockWords) :
    (s.read l).IsPlain := by
  have hend := h.readHeader (w := "END") (by decide)
  cases l with
  | semicolon | other => exact h
  | ending w =>
      rcases readWord_end_eq s (some w) with hread | hread
      · rwa [BlockState.read, hread]
      · rw [BlockState.read, hread]
        exact hend.close
  | word w =>
      have hw := hl w rfl
      have hread := h.readHeader hw
      rw [BlockState.read]
      unfold BlockState.readWord
      dsimp only
      split
      all_goals first
        | exact hread
        | exact hread.close
        | exact absurd (by decide) hw

end BlockState.IsPlain

/-- An item at which nothing but a semicolon ends a statement and no block begins. -/
structure Item.IsPlain (item : Item) : Prop where
  spelled : item.isSpelled
  quiet : item.kind ≠ .semicolon → (';', none) ∉ item.tagged
  word : ∀ w, item.kind = .word w → w ∉ blockWords

/-- Where no block is open and none follows, every semicolon ends a statement. -/
theorem itemEvents_plain {s : BlockState} (hs : s.IsPlain) {items : List Item}
    (hitems : ∀ item ∈ items, item.IsPlain) :
    (∀ e ∈ itemEvents s items, e.MarksSemicolons) ∧
      (itemEvents s items).flatMap Event.tagged = items.flatMap Item.tagged := by
  induction items generalizing s with
  | nil => exact ⟨List.forall_mem_nil _, rfl⟩
  | cons item items ih =>
      obtain ⟨hitem, hothers⟩ := List.forall_mem_cons.1 hitems
      obtain ⟨l, chars, range, rfl, hsemi⟩ := hitem.spelled
      by_cases hl : l = .semicolon
      · subst hl
        obtain ⟨rfl, rfl⟩ := hsemi rfl
        obtain ⟨hmarks, htagged⟩ := ih .initial hothers
        rw [itemEvents, if_pos ⟨rfl, hs.isClosed⟩, endOf, hs.containsBlock, if_neg (by simp)]
        refine ⟨?_, congrArg ((';', none) :: ·) htagged⟩
        exact List.forall_mem_cons.2 ⟨by simp [Event.MarksSemicolons],
          List.forall_mem_cons.2 ⟨⟨rfl, rfl⟩, hmarks⟩⟩
      · obtain ⟨hmarks, htagged⟩ := ih (hs.read hitem.word) hothers
        rw [Item.kind] at hmarks htagged
        rw [itemEvents, if_neg fun h => hl h.1, List.flatMap_cons, htagged]
        refine ⟨List.forall_mem_cons.2 ⟨fun hrange hmem => ?_, hmarks⟩, rfl⟩
        exact hitem.quiet hl (List.mem_map.2 ⟨_, hmem, by rw [hrange]⟩)

/-- The items of a text without the words of blocks. -/
theorem isPlain_of_mem_spelled {tags : List (Char × Option Range)}
    (hwords : ∀ w ∈ blockWords, ¬ HoldsWord (outside tags) w) :
    ∀ item ∈ spelled none tags, item.IsPlain := by
  intro item hitem
  obtain ⟨before, tag, rest, l, n, rfl, hleading, rfl⟩ := exists_of_mem_spelled none tags hitem
  rw [Option.or_none] at hleading
  refine ⟨isSpelled_of_mem_spelled none _ _ hitem, fun hl hmem => ?_, fun w hw hblock => ?_⟩
  · rw [tagged_of_leading hleading] at hmem
    refine semicolon_not_mem_leading hleading hl ?_
    rw [← outside_cons, outside, ← List.map_take]
    exact List.mem_map.2 ⟨_, hmem, rfl⟩
  · obtain rfl : l = .word w := hw
    obtain ⟨hbefore, rfl⟩ := leading_eq_word hleading
    refine hwords _ hblock ⟨outside before,
      (shown tag :: outside rest).takeWhile isWordChar,
      (shown tag :: outside rest).dropWhile isWordChar, ?_, ?_, hbefore, ?_⟩
    · rw [outside_append, outside_cons, List.append_assoc, List.takeWhile_append_dropWhile]
    · exact (String.toList_ofList).symm
    · have hstop := List.head?_dropWhile_not isWordChar (shown tag :: outside rest)
      cases hhead : ((shown tag :: outside rest).dropWhile isWordChar).head? with
      | none => rfl
      | some c => simpa [hhead] using hstop

/-- A script without words that open or announce blocks, and without lines with a slash alone, has
the batches that semicolons alone give. -/
theorem split_plainStatements (strip : Bool) {script : String}
    (hwords : ∀ w ∈ blockWords,
      ¬ HoldsWord (outside (tagged Dialect.oracle.splitter.ranges [] script.toList)) w)
    (hslash : ∀ line ∈
        Text.splitOn ('\n', none) (tagged Dialect.oracle.splitter.ranges [] script.toList),
      Text.trimmed (outside line) ≠ ['/']) :
    (Dialect.oracle.splitter.withStripComments strip).split script =
      { Dialect.oracle.splitter.withStripComments strip with
        separator := .semicolon }.split script := by
  obtain ⟨hmarks, htagged⟩ := itemEvents_plain .initial (isPlain_of_mem_spelled hwords)
  rw [flatMap_tagged_spelled] at htagged
  have hsp : (Dialect.oracle.splitter.withStripComments strip).KeepsBlocks :=
    keepsBlocks_oracle.withStripComments strip
  have hparts := taggedParts_scan hsp script.toList
  have hitems : scriptItems (tagged (Dialect.oracle.splitter.withStripComments strip).ranges []
      script.toList) = spelled none (tagged Dialect.oracle.splitter.ranges [] script.toList) :=
    scriptItems_of_unslashed hslash
  rw [hitems] at hparts
  rw [split_of_marksSemicolons hparts hmarks, htagged]
  let semicolons := { Dialect.oracle.splitter.withStripComments strip with separator := .semicolon }
  exact (split_eq_pieces semicolons rfl (withinLines_splitter .oracle) script).symm

/-- Semicolons in a string, a name and comments, words of headers and a stray END. -/
theorem split_plainStatements_end :
    let script := "CREATE TABLE \"begin;\" (a INT);\n-- CASE;\nEND IF; SELECT ';', cases /*\n/\n*/ ;"
    let tags := tagged Dialect.oracle.splitter.ranges [] script.toList
    (∀ w ∈ blockWords, ¬ HoldsWord (outside tags) w) ∧
      (∀ line ∈ Text.splitOn ('\n', none) tags, Text.trimmed (outside line) ≠ ['/']) ∧
      (Dialect.oracle.splitter.withStripComments true).split script =
        [⟨"CREATE TABLE \"begin;\" (a INT)", .statement⟩, ⟨"END IF", .statement⟩,
          ⟨"SELECT ';', cases", .statement⟩] := by
  intro script tags
  have hwords : ∀ w ∈ blockWords, ¬ HoldsWord (outside tags) w := by decide +kernel
  have hslash : ∀ line ∈ Text.splitOn ('\n', none) tags, Text.trimmed (outside line) ≠ ['/'] := by
    decide +kernel
  exact ⟨hwords, hslash, (split_plainStatements true hwords hslash).trans (by decide +kernel)⟩

end SchemaChange.Script
