import SchemaChange.Proofs.Script.RangeScan

/-!
# Words of a script

What the reading of procedural blocks sees of a whole text: its words outside every range and
its semicolons there. Nothing else counts. Following the words of a plain text finds the
semicolon that ends the statement in the sequence of its words.
-/
namespace SchemaChange.Script

/-- A part of a script, as far as procedural blocks are concerned. -/
inductive Lexeme where
  /-- A word in upper case that is no part of a qualified name. -/
  | word (w : String)
  /-- The word END with the word that it belongs to. -/
  | ending (w : String)
  | semicolon
  | other
  deriving DecidableEq

/-- The words that an END before them belongs to. -/
def joinsEnd (w : String) : Bool := w == "IF" || w == "LOOP" || w == "CASE"

/-- The word that an END before the text belongs to, and how far ahead it ends. Only blanks
of the same line may stand between them. -/
def joined? (cs : List Char) : Option (String × Nat) :=
  (nextWord? (cs.takeWhile (· != '\n'))).filter fun found => joinsEnd found.1

/-- The lexemes of a text. A word begins with a letter or an underscore that follows no
character of a word; behind a point it is part of a qualified name. -/
def lexemes (previous : Option Char) (cs : List Char) : List Lexeme :=
  match cs with
  | [] => []
  | c :: rest =>
      if c = ';' then .semicolon :: lexemes (some c) rest
      else if isWordStart c && !previous.any isWordChar then
        let (word, length) := takeWord (c :: rest)
        let behind := rest.drop (length - 1)
        if previous = some '.' then .other :: lexemes (some c) behind
        else
          match if word = "END" then joined? behind else none with
          | some (w, n) => .ending w :: lexemes (some c) (behind.drop n)
          | none => .word word :: lexemes (some c) behind
      else .other :: lexemes (some c) rest
termination_by cs.length
decreasing_by all_goals simp only [List.length_cons, List.length_drop]; omega

/-- The state at the first semicolon that ends a statement, and what stands behind it. -/
def firstEnd (s : BlockState) : List Lexeme → Option (BlockState × List Lexeme)
  | [] => none
  | .semicolon :: ls => if s.isClosed then some (s, ls) else firstEnd s ls
  | .word w :: ls => firstEnd (s.readWord w none).1 ls
  | .ending w :: ls => firstEnd (s.readWord "END" (some w)).1 ls
  | .other :: ls => firstEnd s ls

/-- The first lexeme of a text and its length. -/
def leading (previous : Option Char) (c : Char) (rest : List Char) : Lexeme × Nat :=
  if c = ';' then (.semicolon, 1)
  else if isWordStart c && !previous.any isWordChar then
    let (word, length) := takeWord (c :: rest)
    if previous = some '.' then (.other, length)
    else
      match if word = "END" then joined? (rest.drop (length - 1)) else none with
      | some (w, n) => (.ending w, length + n)
      | none => (.word word, length)
  else (.other, 1)

/-- The state behind a lexeme that ends no statement. -/
def BlockState.read (s : BlockState) : Lexeme → BlockState
  | .word w => (s.readWord w none).1
  | .ending w => (s.readWord "END" (some w)).1
  | .semicolon | .other => s

theorem firstEnd_cons {l : Lexeme} (h : l ≠ .semicolon) (s : BlockState) (ls : List Lexeme) :
    firstEnd s (l :: ls) = firstEnd (s.read l) ls := by
  cases l with
  | semicolon => exact absurd rfl h
  | word w | ending w | other => rfl

@[simp] theorem lexemes_nil (previous : Option Char) : lexemes previous [] = [] := by
  rw [lexemes]

theorem lexemes_cons (previous : Option Char) (c : Char) (rest : List Char) :
    lexemes previous (c :: rest) = (leading previous c rest).1 ::
      lexemes (some c) (rest.drop ((leading previous c rest).2 - 1)) := by
  rw [lexemes, leading]
  split
  · rfl
  · split
    · have hpos := takeWord_length_pos (Bool.and_eq_true_iff.1 ‹_›).1 rest
      dsimp only
      split
      · rfl
      · split
        · rename_i w n _
          rw [List.drop_drop, show (takeWord (c :: rest)).2 - 1 + n =
            (takeWord (c :: rest)).2 + n - 1 by omega]
        · rfl
    · rfl

theorem lexemes_ne_nil (previous : Option Char) {cs : List Char} (h : cs ≠ []) :
    lexemes previous cs ≠ [] := by
  cases cs with
  | nil => exact absurd rfl h
  | cons c rest =>
      rw [lexemes_cons]
      exact List.cons_ne_nil _ _

/-- What stands before a text matters in two respects only. -/
theorem leading_congr {previous other : Option Char}
    (hword : previous.any isWordChar = other.any isWordChar)
    (hpoint : previous = some '.' ↔ other = some '.') (c : Char) (rest : List Char) :
    leading previous c rest = leading other c rest := by
  simp only [leading, hword, hpoint]

theorem lexemes_congr {previous other : Option Char}
    (hword : previous.any isWordChar = other.any isWordChar)
    (hpoint : previous = some '.' ↔ other = some '.') (cs : List Char) :
    lexemes previous cs = lexemes other cs := by
  cases cs with
  | nil => simp
  | cons c rest => rw [lexemes_cons, lexemes_cons, leading_congr hword hpoint]

/-- A character that is neither a semicolon nor the start of a word is passed over. -/
theorem leading_other {c : Char} (hsemi : c ≠ ';') (hstart : isWordStart c = false)
    (previous : Option Char) (rest : List Char) : leading previous c rest = (.other, 1) := by
  rw [leading, if_neg hsemi, hstart]
  rfl

theorem lexemes_other {previous : Option Char} {c : Char} (hsemi : c ≠ ';')
    (hstart : isWordStart c = false) (rest : List Char) :
    lexemes previous (c :: rest) = .other :: lexemes (some c) rest := by
  rw [lexemes_cons, leading_other hsemi hstart]
  rfl

/-- A quote or a line break stands between words. -/
theorem lexemes_stop {c : Char} (h : c = '"' ∨ c = '\n') (previous : Option Char)
    (cs : List Char) : lexemes previous (c :: cs) = .other :: lexemes none cs := by
  have hquote : lexemes (some '"') cs = lexemes none cs :=
    lexemes_congr (by decide) (by decide) cs
  have hbreak : lexemes (some '\n') cs = lexemes none cs :=
    lexemes_congr (by decide) (by decide) cs
  rcases h with rfl | rfl
  · rw [lexemes_other (by decide) (by decide), hquote]
  · rw [lexemes_other (by decide) (by decide), hbreak]

/-- A text that ends a word before it, and the search for the word behind END: it begins with
a quote or a line break. -/
def Stops (cs : List Char) : Prop := ∀ c, cs.head? = some c → c = '"' ∨ c = '\n'

section Stops

variable {more : List Char}

theorem Stops.eq_nil_or (h : Stops more) :
    more = [] ∨ ∃ cs, more = '"' :: cs ∨ more = '\n' :: cs := by
  cases more with
  | nil => exact .inl rfl
  | cons c cs =>
      rcases h c rfl with rfl | rfl
      · exact .inr ⟨cs, .inl rfl⟩
      · exact .inr ⟨cs, .inr rfl⟩

theorem Stops.takeWhile_isWordChar (h : Stops more) : more.takeWhile isWordChar = [] := by
  rcases h.eq_nil_or with rfl | ⟨cs, rfl | rfl⟩ <;> rfl

theorem Stops.lexemes (h : Stops more) (previous : Option Char) :
    lexemes previous more = Script.lexemes none more := by
  cases more with
  | nil => simp
  | cons c cs => rw [lexemes_stop (h c rfl), lexemes_stop (h c rfl)]

theorem takeWhile_append_stops {p : Char → Bool} (h : more.takeWhile p = [])
    (cs : List Char) : (cs ++ more).takeWhile p = cs.takeWhile p := by
  rw [List.takeWhile_append, h, List.append_nil]
  split
  · rename_i hall
    exact ((List.takeWhile_prefix p).eq_of_length hall).symm
  · rfl

theorem takeWord_append (h : more.takeWhile isWordChar = []) (cs : List Char) :
    takeWord (cs ++ more) = takeWord cs := by
  rw [takeWord, takeWhile_append_stops h, takeWord]

/-- The word behind blanks ends before the text that stops it. -/
theorem nextWord?_append (h : more = [] ∨ ∃ rest, more = '"' :: rest) (cs : List Char) :
    nextWord? (cs ++ more) = nextWord? cs := by
  have hblank : more.takeWhile Text.isBlank = [] := by
    rcases h with rfl | ⟨rest, rfl⟩ <;> rfl
  have hword : more.takeWhile isWordChar = [] := by
    rcases h with rfl | ⟨rest, rfl⟩ <;> rfl
  rw [nextWord?, nextWord?, takeWhile_append_stops hblank,
    List.drop_append_of_le_length (List.takeWhile_prefix _).length_le]
  cases hdrop : cs.drop (cs.takeWhile Text.isBlank).length with
  | nil =>
      rcases h with rfl | ⟨rest, rfl⟩
      · rfl
      · simp [isWordStart]
  | cons c rest =>
      rw [List.cons_append]
      simp only [← List.cons_append, takeWord_append hword]

theorem joined?_append (h : Stops more) {cs : List Char} (hline : '\n' ∉ cs) :
    joined? (cs ++ more) = (nextWord? cs).filter fun found => joinsEnd found.1 := by
  have hcs : (cs ++ more).takeWhile (· != '\n') = cs ++ more.takeWhile (· != '\n') := by
    refine List.takeWhile_append_of_pos fun c hc => ?_
    simpa using fun he : c = '\n' => hline (he ▸ hc)
  rw [joined?, hcs, nextWord?_append]
  rcases h.eq_nil_or with rfl | ⟨rest, rfl | rfl⟩
  · exact .inl rfl
  · exact .inr ⟨_, rfl⟩
  · exact .inl rfl

end Stops

/-- A word other than END belongs with no other word. -/
theorem readWord_of_ne_end {word : String} (h : word ≠ "END") (s : BlockState)
    (following : Option String) :
    s.readWord word following = ((s.readWord word none).1, false) := by
  unfold BlockState.readWord
  split <;> simp_all

theorem readWord_end (s : BlockState) (following : Option String) :
    s.readWord "END" following =
      match following.filter joinsEnd with
      | some w => ((s.readWord "END" (some w)).1, true)
      | none => ((s.readWord "END" none).1, false) := by
  cases following with
  | none => rfl
  | some w =>
      by_cases hif : w = "IF"
      · subst hif; rfl
      by_cases hloop : w = "LOOP"
      · subst hloop; rfl
      by_cases hcase : w = "CASE"
      · subst hcase; rfl
      have hnone : (some w).filter joinsEnd = none := by simp [joinsEnd, hif, hloop, hcase]
      rw [hnone]
      simp [BlockState.readWord, hif, hloop, hcase]

/-- Two characters of words stand alike before a text. -/
theorem alike_of_isWordChar {c e : Char} (hc : isWordChar c) (he : isWordChar e) :
    (some c).any isWordChar = (some e).any isWordChar ∧
      (some c = some '.' ↔ some e = some '.') := by
  refine ⟨by simp [hc, he], ?_, ?_⟩
  · rintro ⟨⟩
    cases hc
  · rintro ⟨⟩
    cases he

/-- A word is read up to its last character. -/
theorem takeWord_eq {c : Char} (hc : isWordStart c) (rest : List Char) :
    (takeWord (c :: rest)).2 ≤ (c :: rest).length ∧
      ∃ e, ((c :: rest).take (takeWord (c :: rest)).2).getLast? = some e ∧ isWordChar e := by
  have hoccurs := List.takeWhile_prefix (l := c :: rest) isWordChar
  refine ⟨hoccurs.length_le, ?_⟩
  have hne : (c :: rest).takeWhile isWordChar ≠ [] := by simp [isWordChar_of_isWordStart hc]
  have htake : (c :: rest).take (takeWord (c :: rest)).2 = (c :: rest).takeWhile isWordChar :=
    (List.prefix_iff_eq_take.1 hoccurs).symm
  rw [htake, List.getLast?_eq_some_getLast hne]
  exact ⟨_, rfl, List.all_eq_true.1 List.all_takeWhile _ (List.getLast_mem hne)⟩

/-- The word behind blanks is read up to its last character. -/
theorem nextWord?_eq_some {cs : List Char} {w : String} {n : Nat}
    (h : nextWord? cs = some (w, n)) :
    n ≤ cs.length ∧ ∃ e, (cs.take n).getLast? = some e ∧ isWordChar e := by
  rw [nextWord?] at h
  split at h
  · rename_i c more hdrop
    simp only [Option.ite_none_right_eq_some, Option.some.injEq, Prod.mk.injEq] at h
    obtain ⟨hc, -, rfl⟩ := h
    obtain ⟨hle, e, he, hword⟩ := takeWord_eq hc more
    have hlength := congrArg List.length hdrop
    have hpos := takeWord_length_pos hc more
    rw [List.length_drop] at hlength
    refine ⟨by omega, e, ?_, hword⟩
    rw [List.take_add, hdrop, List.getLast?_append, he, Option.some_or]
  · cases h

section Word

variable {s next : BlockState} {previous : Option Char} {c : Char} {rest more : List Char}
  {word : String} {length : Nat} {following : Option (String × Nat)} {joined : Bool}

/-- The lexeme of a word, with the one that belongs to it. -/
theorem leading_word (hstart : (isWordStart c && !previous.any isWordChar) = true)
    (hword : takeWord (c :: rest) = (word, length))
    (hfollowing : nextWord? ((c :: rest).drop length) = following)
    (hline : '\n' ∉ c :: rest) (hmore : Stops more) :
    leading previous c (rest ++ more) =
      if previous = some '.' then (.other, length)
      else
        match if word = "END" then following.filter (joinsEnd ·.1) else none with
        | some (w, n) => (.ending w, length + n)
        | none => (.word word, length) := by
  obtain ⟨hc, -⟩ := Bool.and_eq_true_iff.1 hstart
  have hsemi : c ≠ ';' := by
    rintro rfl
    cases hc
  have hpos := takeWord_length_pos hc rest
  have hle := (takeWord_eq hc rest).1
  rw [hword] at hpos hle
  have hdrop : (rest ++ more).drop (length - 1) = (c :: rest).drop length ++ more := by
    rw [← List.drop_append_of_le_length hle, List.cons_append, ← List.drop_succ_cons,
      Nat.sub_add_cancel hpos]
  have hquiet : '\n' ∉ (c :: rest).drop length := fun h => hline (List.mem_of_mem_drop h)
  have hjoined : joined? ((c :: rest).drop length ++ more) =
      following.filter (joinsEnd ·.1) := by
    rw [joined?_append hmore hquiet, hfollowing]
  rw [leading, if_neg hsemi, if_pos hstart, ← List.cons_append,
    takeWord_append hmore.takeWhile_isWordChar, hword]
  simp only [hdrop, hjoined]

/-- Reading a word, the state and the lexemes move on together. -/
theorem exists_leading (hstart : (isWordStart c && !previous.any isWordChar) = true)
    (hword : takeWord (c :: rest) = (word, length))
    (hfollowing : nextWord? ((c :: rest).drop length) = following)
    (hread : (if previous = some '.' then (s, false)
      else s.readWord word (following.map (·.1))) = (next, joined))
    (hline : '\n' ∉ c :: rest) (hmore : Stops more) {taken : Nat}
    (htaken : taken = if joined then length + (following.map (·.2)).getD 0 else length) :
    ∃ l, leading previous c (rest ++ more) = (l, taken) ∧ l ≠ .semicolon ∧ s.read l = next ∧
      1 ≤ taken ∧ taken ≤ (c :: rest).length ∧
      ∃ e, ((c :: rest).take taken).getLast? = some e ∧ isWordChar e := by
  obtain ⟨hc, -⟩ := Bool.and_eq_true_iff.1 hstart
  have hpos := takeWord_length_pos hc rest
  obtain ⟨hle, hlast⟩ := takeWord_eq hc rest
  rw [hword] at hpos hle hlast
  rw [leading_word hstart hword hfollowing hline hmore]
  by_cases hpoint : previous = some '.'
  · rw [if_pos hpoint] at hread ⊢
    cases hread
    obtain rfl : taken = length := htaken
    exact ⟨.other, rfl, nofun, rfl, hpos, hle, hlast⟩
  rw [if_neg hpoint] at hread ⊢
  by_cases hend : word = "END"
  · subst hend
    have hmap : (following.map (·.1)).filter joinsEnd =
        (following.filter (joinsEnd ·.1)).map (·.1) := Option.filter_map
    rw [readWord_end, hmap] at hread
    rw [if_pos rfl]
    cases hfound : following.filter (joinsEnd ·.1) with
    | none =>
        rw [hfound] at hread
        cases hread
        obtain rfl : taken = length := htaken
        exact ⟨.word "END", rfl, nofun, rfl, hpos, hle, hlast⟩
    | some found =>
        obtain ⟨w, n⟩ := found
        obtain ⟨rfl, -⟩ := Option.filter_eq_some_iff.1 hfound
        obtain ⟨hbehind, e, he, hchar⟩ := nextWord?_eq_some hfollowing
        rw [hfound] at hread
        cases hread
        obtain rfl : taken = length + n := htaken
        rw [List.length_drop] at hbehind
        refine ⟨.ending w, rfl, nofun, rfl, by omega, by omega, e, ?_, hchar⟩
        rw [List.take_add, List.getLast?_append, he, Option.some_or]
  · rw [readWord_of_ne_end hend] at hread
    rw [if_neg hend]
    cases hread
    obtain rfl : taken = length := htaken
    exact ⟨.word word, rfl, nofun, rfl, hpos, hle, hlast⟩

end Word

/-- Following the words of a plain text up to the place that ends its last word is following
its lexemes. -/
theorem firstEnd_lexemes (s : BlockState) (previous : Option Char) {cs more : List Char}
    (hline : '\n' ∉ cs) (hmore : Stops more) :
    firstEnd s (lexemes previous (cs ++ more)) =
      match followWords s previous cs with
      | (s', none) => firstEnd s' (lexemes none more)
      | (s', some n) => some (s', lexemes (some ';') (cs.drop (n + 1) ++ more)) := by
  fun_induction followWords s previous cs with
  | case1 s previous => rw [List.nil_append, hmore.lexemes previous]
  | case2 s previous c rest hc =>
      obtain ⟨rfl, hclosed⟩ := hc
      rw [List.cons_append, lexemes, if_pos rfl, firstEnd, if_pos hclosed]
      rfl
  | case3 s previous c rest hc hstart word length hword following next joined hread taken
      s₁ found hfollow ih =>
      obtain ⟨l, hleading, hsemi, hnext, htaken, hle, e, he, hchar⟩ :=
        exists_leading hstart hword rfl hread hline hmore (rfl : taken = _)
      obtain ⟨hword, hpoint⟩ := alike_of_isWordChar
        (isWordChar_of_isWordStart (Bool.and_eq_true_iff.1 hstart).1) hchar
      have hbehind : taken - 1 ≤ rest.length := by
        rw [List.length_cons] at hle
        omega
      rw [List.cons_append, lexemes_cons, hleading, firstEnd_cons hsemi, hnext,
        lexemes_congr hword hpoint, ← he, List.drop_append_of_le_length hbehind,
        ih fun h => hline (List.mem_cons_of_mem c (List.mem_of_mem_drop h)), hfollow]
      cases found with
      | none => rfl
      | some n =>
          have hdrop : (rest.drop (taken - 1)).drop (n + 1) = (c :: rest).drop (taken + n + 1) := by
            rw [List.drop_drop, List.drop_succ_cons, show taken - 1 + (n + 1) = taken + n by omega]
          simp only [Option.map_some, hdrop]
  | case4 s previous c rest hc hstart s₁ found hfollow ih =>
      have hstep : firstEnd s (lexemes previous (c :: rest ++ more)) =
          firstEnd s (lexemes (some c) (rest ++ more)) := by
        rw [List.cons_append, lexemes]
        by_cases hsemi : c = ';'
        · rw [if_pos hsemi, firstEnd, if_neg fun h => hc ⟨hsemi, h⟩]
        · rw [if_neg hsemi, if_neg hstart, firstEnd]
      rw [hstep, ih fun h => hline (List.mem_cons_of_mem c h), hfollow]
      cases found with
      | none => rfl
      | some n => simp [Nat.add_comm 1 n]

end SchemaChange.Script
