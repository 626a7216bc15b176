import SchemaChange.Proofs.Script.Items

/-!
# Where a line can be cut

Two parts of a line are read one after the other unless a word reaches from one into the other
or an END at the end of the first part belongs to the word at the beginning of the second.
-/
namespace SchemaChange.Script

/-- The text ends in the word END, perhaps with blanks behind it on the line, and what stands
before the word does not make it part of a longer or qualified name. -/
def EndsInEnd (previous : Option Char) (cs : List Char) : Prop :=
  ∃ before word gap, cs = before ++ word ++ gap ∧ word.map Char.toUpper = ['E', 'N', 'D'] ∧
    (∀ c ∈ gap, Text.isBlank c ∧ c ≠ '\n') ∧
    (before.getLast?.or previous).any isWordChar = false ∧ before.getLast?.or previous ≠ some '.'

/-- No word reaches from one text into the other. -/
def Parted (cs more : List Char) : Prop :=
  cs.getLast?.any isWordChar = false ∨ more.head?.any isWordChar = false

theorem Parted.drop {cs more : List Char} (h : Parted cs more) (n : Nat) :
    Parted (cs.drop n) more := by
  rcases h with hlast | hhead
  · refine .inl ?_
    rw [List.getLast?_drop]
    split
    · rfl
    · exact hlast
  · exact .inr hhead

section Words

variable {previous : Option Char} {c : Char} {cs rest more : List Char}

theorem takeWord_parted (hne : cs ≠ []) (h : Parted cs more) :
    takeWord (cs ++ more) = takeWord cs := by
  have htake : (cs ++ more).takeWhile isWordChar = cs.takeWhile isWordChar := by
    rcases h with hlast | hhead
    · rw [List.takeWhile_append, if_neg]
      intro hlength
      have hall := (List.takeWhile_prefix isWordChar).eq_of_length hlength
      have hmem : cs.getLast hne ∈ cs.takeWhile isWordChar := by
        rw [hall]
        exact List.getLast_mem hne
      have hword := List.all_eq_true.1 List.all_takeWhile _ hmem
      rw [List.getLast?_eq_some_getLast hne, Option.any_some, hword] at hlast
      cases hlast
    · refine takeWhile_append_stops ?_ cs
      cases more with
      | nil => rfl
      | cons d more =>
          rw [List.head?_cons, Option.any_some] at hhead
          rw [List.takeWhile_cons, hhead]
          rfl
  rw [takeWord, htake, takeWord]

theorem nextWord?_blank (hc : Text.isBlank c) (cs : List Char) :
    nextWord? (c :: cs) = (nextWord? cs).map fun found => (found.1, found.2 + 1) := by
  rw [nextWord?, nextWord?, List.takeWhile_cons, hc, if_pos rfl, List.length_cons,
    List.drop_succ_cons]
  dsimp only
  split
  · split
    · simp only [Option.map_some, Nat.add_right_comm]
    · rfl
  · rfl

theorem nextWord?_not_blank (hc : Text.isBlank c = false) (cs : List Char) :
    nextWord? (c :: cs) = if isWordStart c then some (takeWord (c :: cs)) else none := by
  rw [nextWord?, List.takeWhile_cons, hc, if_neg (by decide), List.length_nil, List.drop_zero]
  simp

/-- Blanks before a text put its first word off. -/
theorem nextWord?_of_blanks (hblank : ∀ c ∈ cs, Text.isBlank c) (more : List Char) :
    nextWord? (cs ++ more) = (nextWord? more).map fun found => (found.1, found.2 + cs.length) := by
  induction cs with
  | nil => simp
  | cons c cs ih =>
      obtain ⟨hc, hothers⟩ := List.forall_mem_cons.1 hblank
      rw [List.cons_append, nextWord?_blank hc, ih hothers, Option.map_map]
      rfl

theorem nextWord?_parted (hblank : ¬ ∀ c ∈ cs, Text.isBlank c) (h : Parted cs more) :
    nextWord? (cs ++ more) = nextWord? cs := by
  induction cs with
  | nil => exact absurd (by simp) hblank
  | cons c cs ih =>
      by_cases hc : Text.isBlank c
      · have hothers : ¬ ∀ c ∈ cs, Text.isBlank c := fun hall =>
          hblank (List.forall_mem_cons.2 ⟨hc, hall⟩)
        have hne : cs ≠ [] := by
          rintro rfl
          exact hothers (by simp)
        have hparted : Parted cs more := by
          rwa [Parted, List.getLast?_cons_of_ne_nil hne] at h
        rw [List.cons_append, nextWord?_blank hc, nextWord?_blank hc, ih hothers hparted]
      · rw [Bool.not_eq_true] at hc
        rw [List.cons_append, nextWord?_not_blank hc, nextWord?_not_blank hc, ← List.cons_append,
          takeWord_parted (List.cons_ne_nil c cs) h]

theorem joined?_parted (hline : '\n' ∉ cs) (h : Parted cs more)
    (hjoined : (∀ c ∈ cs, Text.isBlank c) → joined? more = none) :
    joined? (cs ++ more) = joined? cs := by
  have hcs : cs.takeWhile (· != '\n') = cs := by simpa using Text.takeWhile_line hline []
  rw [joined?, joined?, Text.takeWhile_line hline, hcs]
  by_cases hblank : ∀ c ∈ cs, Text.isBlank c
  · have hnone := hjoined hblank
    have hblanks := nextWord?_of_blanks hblank []
    rw [joined?] at hnone
    rw [List.append_nil, show nextWord? [] = none from rfl, Option.map_none] at hblanks
    rw [nextWord?_of_blanks hblank, hblanks]
    cases hfound : nextWord? (more.takeWhile (· != '\n')) with
    | none => rfl
    | some found =>
        rw [hfound] at hnone
        simpa [Option.filter] using hnone
  · rw [nextWord?_parted hblank]
    refine h.imp_right fun hhead => ?_
    cases more with
    | nil => rfl
    | cons d more =>
        rw [List.takeWhile_cons]
        split
        · exact hhead
        · rfl

/-- The first lexeme of a part of a line does not depend on the part behind it. -/
theorem leading_append (hline : '\n' ∉ c :: rest) (hparted : Parted (c :: rest) more)
    (hend : EndsInEnd previous (c :: rest) → joined? more = none) :
    leading previous c (rest ++ more) = leading previous c rest := by
  rw [leading, leading]
  split
  · rfl
  split
  · rename_i hstart
    obtain ⟨hc, hprevious⟩ := Bool.and_eq_true_iff.1 hstart
    rw [← List.cons_append, takeWord_parted (List.cons_ne_nil c rest) hparted]
    have hpos := takeWord_length_pos hc rest
    have hle := (takeWord_eq hc rest).1
    dsimp only
    split
    · rfl
    · rename_i hpoint
      by_cases hword : (takeWord (c :: rest)).1 = "END"
      · rw [if_pos hword, if_pos hword]
        have hbehind : rest.length + 1 = (c :: rest).length := rfl
        have hdrop : rest.drop ((takeWord (c :: rest)).2 - 1) =
            (c :: rest).drop (takeWord (c :: rest)).2 := by
          rw [← List.drop_succ_cons, Nat.sub_add_cancel hpos]
        rw [List.drop_append_of_le_length (by omega), hdrop,
          joined?_parted (fun h => hline (List.mem_of_mem_drop h)) (hparted.drop _)]
        intro hblank
        refine hend ⟨[], _, _, (List.take_append_drop (takeWord (c :: rest)).2 _).symm, ?_,
          fun d hd => ⟨hblank d hd, ?_⟩, ?_, ?_⟩
        · have htake : (c :: rest).take (takeWord (c :: rest)).2 =
              (c :: rest).takeWhile isWordChar :=
            (List.prefix_iff_eq_take.1 (List.takeWhile_prefix isWordChar)).symm
          rw [htake]
          exact String.ofList_injective hword
        · rintro rfl
          exact hline (List.mem_of_mem_drop hd)
        · simpa using hprevious
        · exact hpoint
      · rw [if_neg hword, if_neg hword]
  · rfl

/-- A lexeme lies in its text, and its last character stands as its first one before a text. -/
theorem leading_length (previous : Option Char) (c : Char) (rest : List Char) :
    1 ≤ (leading previous c rest).2 ∧ (leading previous c rest).2 ≤ (c :: rest).length ∧
      ∃ e, ((c :: rest).take (leading previous c rest).2).getLast? = some e ∧
        (some c).any isWordChar = (some e).any isWordChar ∧
          (some c = some '.' ↔ some e = some '.') := by
  have hone : 1 ≤ 1 ∧ 1 ≤ (c :: rest).length ∧ ∃ e, ((c :: rest).take 1).getLast? = some e ∧
      (some c).any isWordChar = (some e).any isWordChar ∧
        (some c = some '.' ↔ some e = some '.') :=
    ⟨Nat.le_refl 1, by simp, c, rfl, rfl, Iff.rfl⟩
  rw [leading]
  split
  · exact hone
  split
  · rename_i hstart
    obtain ⟨hc, hprevious⟩ := Bool.and_eq_true_iff.1 hstart
    have hpos := takeWord_length_pos hc rest
    obtain ⟨hle, e, he, hchar⟩ := takeWord_eq hc rest
    have hword := isWordChar_of_isWordStart hc
    dsimp only
    split
    · exact ⟨hpos, hle, e, he, alike_of_isWordChar hword hchar⟩
    · split
      · rename_i w n hjoined
        have hnext : joined? (rest.drop ((takeWord (c :: rest)).2 - 1)) = some (w, n) := by
          split at hjoined
          · exact hjoined
          · cases hjoined
        obtain ⟨hbehind, e', he', hchar'⟩ :=
          nextWord?_eq_some (Option.filter_eq_some_iff.1 hnext).1
        have hdrop : rest.drop ((takeWord (c :: rest)).2 - 1) =
            (c :: rest).drop (takeWord (c :: rest)).2 := by
          rw [← List.drop_succ_cons, Nat.sub_add_cancel hpos]
        obtain ⟨more, hmore⟩ := List.takeWhile_prefix (l := rest.drop
          ((takeWord (c :: rest)).2 - 1)) (· != '\n')
        have htake : ((c :: rest).take ((takeWord (c :: rest)).2 + n)).getLast? = some e' := by
          rw [List.take_add, ← hdrop, ← hmore, List.take_append_of_le_length hbehind,
            List.getLast?_append, he', Option.some_or]
        have hlength := congrArg List.length hmore
        rw [hdrop, List.length_append, List.length_drop, ← hdrop] at hlength
        exact ⟨by omega, by omega, e', htake, alike_of_isWordChar hword hchar'⟩
      · exact ⟨hpos, hle, e, he, alike_of_isWordChar hword hchar⟩
  · exact hone

end Words

/-- Behind the first lexeme the text ends in END as the whole does. -/
theorem EndsInEnd.of_drop {previous : Option Char} {c e : Char} {cs : List Char} {n : Nat}
    (he : (cs.take n).getLast? = some e) (hword : (some c).any isWordChar = (some e).any isWordChar)
    (hpoint : some c = some '.' ↔ some e = some '.') (h : EndsInEnd (some c) (cs.drop n)) :
    EndsInEnd previous cs := by
  obtain ⟨before, word, gap, hdrop, hupper, hgap, hstart, hplain⟩ := h
  refine ⟨cs.take n ++ before, word, gap, ?_, hupper, hgap, ?_⟩
  · rw [List.append_assoc, List.append_assoc, ← List.append_assoc before, ← hdrop,
      List.take_append_drop]
  · rw [List.getLast?_append, he]
    cases hbefore : before.getLast? with
    | none =>
        rw [hbefore, Option.none_or] at hstart hplain
        exact ⟨hword ▸ hstart, fun hp => hplain (hpoint.2 hp)⟩
    | some d =>
        rw [hbefore] at hstart hplain
        exact ⟨hstart, hplain⟩

/-- The items of two parts of a line. -/
theorem spelled_append {previous : Option Char} {left right : List (Char × Option Range)}
    (hline : '\n' ∉ outside left) (hparted : Parted (outside left) (outside right))
    (hend : EndsInEnd previous (outside left) → joined? (outside right) = none) :
    spelled previous (left ++ right) =
      spelled previous left ++ spelled ((outside left).getLast?.or previous) right := by
  match left with
  | [] => rw [List.nil_append, spelled_nil, outside_nil, List.getLast?_nil, Option.none_or,
      List.nil_append]
  | tag :: rest =>
      rw [outside_cons] at hline hparted hend
      have hfirst := leading_append hline hparted hend
      obtain ⟨hpos, hle, e, he, hword, hpoint⟩ :=
        leading_length previous (shown tag) (outside rest)
      rcases hleading : leading previous (shown tag) (outside rest) with ⟨l, n⟩
      rw [hleading] at hfirst hpos hle he
      dsimp only at hpos hle he
      rw [← outside_append] at hfirst
      have hlength : (outside rest).length = rest.length := List.length_map _
      rw [List.length_cons, hlength] at hle
      have hdrop : (shown tag :: outside rest).drop n = outside (rest.drop (n - 1)) := by
        rw [← Nat.sub_add_cancel hpos, List.drop_succ_cons, Nat.add_sub_cancel]
        exact List.map_drop.symm
      have htake : (tag :: (rest ++ right)).take n = (tag :: rest).take n := by
        rw [← List.cons_append]
        exact List.take_append_of_le_length hle
      have hlast : (outside (tag :: rest)).getLast? =
          (outside (rest.drop (n - 1))).getLast?.or (some e) := by
        rw [outside_cons, ← List.take_append_drop n (shown tag :: outside rest),
          List.getLast?_append, he, hdrop]
      have hbehind : spelled (some (shown tag)) (rest.drop (n - 1) ++ right) =
          spelled (some (shown tag)) (rest.drop (n - 1)) ++
            spelled ((outside (rest.drop (n - 1))).getLast?.or (some (shown tag))) right := by
        apply spelled_append
        · exact hdrop ▸ fun h => hline (List.mem_of_mem_drop h)
        · exact hdrop ▸ hparted.drop n
        · exact fun h => hend (.of_drop he hword hpoint (hdrop.symm ▸ h))
      have hnext : spelled ((outside (rest.drop (n - 1))).getLast?.or (some (shown tag))) right =
          spelled ((outside (tag :: rest)).getLast?.or previous) right := by
        rw [hlast]
        cases (outside (rest.drop (n - 1))).getLast? with
        | none => exact spelled_congr hword hpoint right
        | some d => rfl
      rw [List.cons_append, spelled_cons previous tag _ hfirst,
        spelled_cons previous tag _ hleading, List.drop_append_of_le_length (by omega), hbehind,
        htake, hnext, List.cons_append]
termination_by left.length
decreasing_by
  simp only [List.length_cons, List.length_drop]
  omega

/-- The items of a text spell it, lexeme by lexeme. -/
theorem spelled_lexemes (previous : Option Char) (tags : List (Char × Option Range)) :
    (spelled previous tags).map Item.kind = lexemes previous (outside tags) ∧
      (spelled previous tags).flatMap Item.chars = tags.map Prod.fst := by
  match tags with
  | [] => simp
  | tag :: rest =>
      rcases hleading : leading previous (shown tag) (outside rest) with ⟨l, n⟩
      have hpos : 1 ≤ n := by
        have := (leading_length previous (shown tag) (outside rest)).1
        rwa [hleading] at this
      have hdrop : (outside rest).drop (n - 1) = outside (rest.drop (n - 1)) :=
        List.map_drop.symm
      obtain ⟨hlexemes, hchars⟩ := spelled_lexemes (some (shown tag)) (rest.drop (n - 1))
      rw [spelled_cons previous tag rest hleading, outside_cons, lexemes_cons, hleading,
        List.map_cons, hlexemes, List.flatMap_cons, hchars, hdrop]
      refine ⟨rfl, ?_⟩
      rw [Item.chars, ← List.map_append, ← List.drop_succ_cons, Nat.sub_add_cancel hpos,
        List.take_append_drop]
termination_by tags.length
decreasing_by
  simp only [List.length_cons, List.length_drop]
  omega

/-- The lexemes of two texts, as their items. -/
theorem lexemes_append {previous : Option Char} {before after : List Char} (hline : '\n' ∉ before)
    (hparted : Parted before after) (hend : EndsInEnd previous before → joined? after = none) :
    lexemes previous (before ++ after) =
      lexemes previous before ++ lexemes (before.getLast?.or previous) after := by
  have hkinds : ∀ (previous : Option Char) (cs : List Char),
      (spelled previous (cs.map (·, none))).map Item.kind = lexemes previous cs := by
    intro previous cs
    rw [(spelled_lexemes previous _).1, outside_plain]
  rw [← outside_plain before] at hline hparted hend
  rw [← outside_plain after] at hparted hend
  rw [← hkinds, ← hkinds, ← hkinds, List.map_append, spelled_append hline hparted hend,
    List.map_append, outside_plain]

end SchemaChange.Script
